import HostSuite.Path.Basic
import HostSuite.Tree.Basic
import HostSuite.Tree.IoError

/-
  From a written path to a place. Each step needs a directory that may be searched; a link on
  the way is replaced by its target, at most forty times; the last step may name nothing yet.
  A slash at the end asks for a directory, as a last step in place would.
-/

namespace HostSuite.Tree

/-- The longest name a directory can hold, in bytes. -/
def maxNameBytes : Nat := 255

/-- How many links one path may lead through. -/
def maxLinks : Nat := 40

/-- The steps a written path asks for; a slash at the end is a step in place. -/
def walkSteps (p : Path) : List String := if p.endsInSlash then p.segments ++ ["."] else p.segments

/-- Where a path starts: at the top or at `base`. -/
def walkStart (base : Place) (p : Path) : Place := if p.isAbsolute then [] else base

/-- Follows the steps from a place. A link that is not the last step, or that `follow` asks to
be followed, is handed to `expand` with the place it is in and the steps still to go. -/
def walkFrom (t : Tree) (follow : Bool)
    (expand : Place → Path → List String → Except IoError Place) :
    Place → List String → Except IoError Place
  | here, [] => .ok here
  | here, step :: rest =>
    match t.lookup here with
    | none => .error .noEntry
    | some (.dir mode) =>
      if !hasBit mode searchBit then .error .permissionDenied
      else if step = "." then walkFrom t follow expand here rest
      else if step = ".." then walkFrom t follow expand here.dropLast rest
      else if maxNameBytes < step.utf8ByteSize then .error .nameTooLong
      else
        match t.lookup (here ++ [step]) with
        | some (.link target) =>
          if rest.isEmpty && !follow then .ok (here ++ [step]) else expand here ⟨target⟩ rest
        | _ => walkFrom t follow expand (here ++ [step]) rest
    | some _ => .error .notDirectory

/-- Follows the steps with a budget of links. -/
def walk (t : Tree) (follow : Bool) : Nat → Place → List String → Except IoError Place
  | 0 => walkFrom t follow fun _ _ _ => .error .tooManyLinks
  | links + 1 =>
    walkFrom t follow fun here target rest =>
      walk t follow links (walkStart here target) (walkSteps target ++ rest)

/-- The place that a path names from `base`. The place may be empty when only its last name is
missing. -/
def resolve (t : Tree) (base : Place) (p : Path) (follow : Bool := true) : Except IoError Place :=
  if p.text.toList.isEmpty then .error .noEntry
  else if p.text.toList.contains '\x00' then .error .holdsNul
  else walk t follow maxLinks (walkStart base p) (walkSteps p)

/-- The place and the node that a path names. -/
def find (t : Tree) (base : Place) (p : Path) (follow : Bool := true) :
    Except IoError (Place × Node) :=
  match t.resolve base p follow with
  | .error e => .error e
  | .ok place =>
    match t.lookup place with
    | some node => .ok (place, node)
    | none => .error .noEntry

/-- The path names something, links followed. -/
def pathExists (t : Tree) (base : Place) (p : Path) : Bool := (t.find base p).isOk

def isDir (t : Tree) (base : Place) (p : Path) : Bool :=
  match t.find base p with
  | .ok (_, .dir _) => true
  | _ => false

def isFile (t : Tree) (base : Place) (p : Path) : Bool :=
  match t.find base p with
  | .ok (_, .file _ _) => true
  | _ => false

/-- Execution is permitted to somebody. -/
def mayExecute (mode : Nat) : Bool := mode &&& 0o111 != 0

/-- A regular file, links followed, that may be executed. -/
def isProgram (t : Tree) (base : Place) (p : Path) : Bool :=
  match t.find base p with
  | .ok (_, .file _ mode) => mayExecute mode
  | _ => false

/-- The names in a directory. -/
def list (t : Tree) (base : Place) (p : Path) : Except IoError (List String) :=
  match t.find base p with
  | .error e => .error e
  | .ok (place, .dir mode) =>
    if hasBit mode readBit then .ok (t.namesIn place) else .error .permissionDenied
  | .ok _ => .error .notDirectory

/-- The bytes of a file. -/
def read (t : Tree) (base : Place) (p : Path) : Except IoError Text.Bytes :=
  match t.find base p with
  | .error e => .error e
  | .ok (_, .file content mode) =>
    if hasBit mode readBit then .ok content else .error .permissionDenied
  | .ok _ => .error .isDirectory

/-- The text of a file. -/
def readText (t : Tree) (base : Place) (p : Path) : Except IoError String :=
  match t.read base p with
  | .error e => .error e
  | .ok content =>
    match Text.decode? content with
    | some text => .ok text
    | none => .error .notText

end HostSuite.Tree
