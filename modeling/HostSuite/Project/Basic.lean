import HostSuite.Fault
import HostSuite.Tree.Resolve

/-
  Projects and where they are found. A project is a directory directly under the root that holds
  the build descriptor and is not on the denylist; projects come in ascending order of name. A
  selection keeps the named ones in that order and refuses names that no project has.
-/

namespace HostSuite

structure Project where
  name : String
  root : Path
  buildDir : Path
  deriving DecidableEq, Repr

namespace Project

/-- The project in a directory, with its build directory inside. -/
def inDir (root : Path) (buildDirName : String) : Project where
  name := root.fileName.getD ""
  root := root
  buildDir := root.join buildDirName

/-- The project has been built at least once. -/
def isBuilt (p : Project) (t : Tree) (base : Place) : Bool := t.isDir base p.buildDir

/-- A directory entry that makes a project. -/
def qualifies (t : Tree) (base : Place) (root : Path) (descriptor : String)
    (denylist : List String) (name : String) : Bool :=
  t.isDir base (root.join name) && !denylist.contains name &&
    t.pathExists base ((root.join name).join descriptor)

/-- The projects directly under a root. -/
def discover (t : Tree) (base : Place) (root : Path) (descriptor buildDirName : String)
    (denylist : List String) : Except Fault (List Project) :=
  match t.list base root with
  | .error _ =>
    .error (.config ("Failed to read root directory " ++ root.text)
      (some "Pass the host-test directory with --root"))
  | .ok names =>
    .ok ((names.filter (qualifies t base root descriptor denylist)).map fun name =>
      inDir (root.join name) buildDirName)

/-- The names that no project has. -/
def unknownNames (projects : List Project) (selected : List String) : List String :=
  selected.filter fun name => !projects.any (·.name = name)

/-- The projects that are selected; an empty selection selects all. -/
def select (projects : List Project) (selected : List String) : Except Fault (List Project) :=
  if selected.isEmpty then .ok projects
  else
    match unknownNames projects selected with
    | [] => .ok (projects.filter fun p => selected.contains p.name)
    | unknown =>
      .error (.config ("Unknown project(s): " ++ ", ".intercalate unknown)
        (some ("Available projects: " ++ ", ".intercalate (projects.map (·.name)))))

end Project

end HostSuite
