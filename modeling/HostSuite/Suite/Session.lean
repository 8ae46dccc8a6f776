import HostSuite.Config.Decode
import HostSuite.Machine
import HostSuite.Project.Basic

/-
  Sessions. The root is the given directory or the one the program was started in, made absolute
  and free of links, so that everything derived from it can be linked to. A session is a root, its
  configuration and whether to be verbose.
-/

namespace HostSuite.Suite

structure Session where
  root : Path
  config : Config
  verbose : Bool
  deriving DecidableEq, Repr

/-- The root directory as an absolute path without links. -/
def resolveRoot (t : Tree) (base : Place) (dir : Option Path) : Except Fault Path :=
  let dir := dir.getD (Path.ofPlace base)
  match t.find base dir with
  | .ok (place, .dir _) => .ok (Path.ofPlace place)
  | _ => .error (.config ("Root directory does not exist: " ++ dir.text) none)

/-- Loads the configuration of a root. -/
def Session.load (t : Tree) (base : Place) (dir : Option Path) (verbose : Bool) :
    Except Fault Session := do
  let root ← resolveRoot t base dir
  let config ← Config.load t base root
  return ⟨root, config, verbose⟩

namespace Session

/-- Prints a line on the error output where the session is verbose. -/
def remark (s : Session) (text : String) : Action Unit :=
  if s.verbose then Action.say .err (text ++ "\n") else pure ()

/-- All projects under the root. -/
def discovered (s : Session) (t : Tree) (base : Place) : Except Fault (List Project) :=
  Project.discover t base s.root s.config.discovery.descriptor s.config.discovery.buildDir
    s.config.denylist

/-- The selected projects. -/
def projects (h : Host) (s : Session) (selected : List String) :
    Attempt Fault (List Project) := do
  let m ← get
  match s.discovered m.tree h.workingDir with
  | .error f => throw f
  | .ok found => do
    s.remark ("Discovered " ++ toString found.length ++ " project(s) in " ++ s.root.text)
    ExceptT.mk (pure (Project.select found selected))

end Session

end HostSuite.Suite
