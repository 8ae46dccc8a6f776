import HostSuite.Text.Blank
import HostSuite.Number.Numeral
import HostSuite.Project.Basic

/-
  The test binary of a build directory: its first entry in order of name that is a regular file,
  may be executed and does not look like another product of the build. Where there is none, the
  first entry whose name ends in `.elf` is taken. That second search follows the written path of
  the directory step by step: doubled slashes collapse in what it finds, and a step with a wildcard
  character has to be seen in the listing of the directory before it.
-/

namespace HostSuite.Project

/-- Endings of build products that are no test binaries. -/
def artifactEndings : List String := [".bin", ".map", ".cmake"]

def endsWith (s ending : String) : Bool := ending.toList.reverse.isPrefixOf s.toList.reverse

/-- The lower case of the characters that `cmake` may be written with; the sign for kelvin is a
capital `k`. -/
def foldCase (c : Char) : Char := if c = '\u212a' then 'k' else Number.lowerAscii c

/-- The name speaks of `cmake` in any case. -/
def namesCmake (name : String) : Bool :=
  Text.occursIn "cmake".toList (name.toList.map foldCase)

/-- A name that a test binary can have. -/
def isBinaryName (name : String) : Bool :=
  !artifactEndings.any (endsWith name) && !namesCmake name

/-- A regular file that may be executed under a name for test binaries. -/
def isBinary (t : Tree) (base : Place) (dir : Path) (name : String) : Bool :=
  t.isProgram base (dir.join name) && isBinaryName name

def wildcards : List Char := ['?', '*', '[', ']']

/-- The text holds a wildcard character. -/
def hasWildcard (s : String) : Bool := s.toList.any wildcards.contains

/-- The path one written step further; the step in place that a relative path starts from is not
written. -/
def seenFrom (here : Path) (step : String) : Path :=
  if here.text = "." then ⟨step⟩ else here.join step

/-- The path names something, links not followed. -/
def isThere (t : Tree) (base : Place) (p : Path) : Bool :=
  t.pathExists base p || (t.find base p false).isOk

/-- One written step further, if it leads somewhere. -/
def elfStep (t : Tree) (base : Place) (here : Path) (step : String) : Option Path :=
  let next := seenFrom here step
  let leads :=
    if step = "." || step = ".." then t.isDir base here
    else if hasWildcard step then
      match t.list base here with
      | .ok names => names.contains step
      | .error _ => false
    else isThere t base next
  if leads then some next else none

/-- The steps of a path as they are written, empty ones included; a slash at the end counts for
nothing. -/
def writtenSteps (p : Path) : List String :=
  let steps := Text.splitAt '/' (if p.isAbsolute then String.ofList p.text.toList.tail else p.text)
  if steps.getLast? = some "" then steps.dropLast else steps

/-- The first entry that ends in `.elf`. -/
def findElf (t : Tree) (base : Place) (dir : Path) : Option Path := do
  let start : Path := ⟨if dir.isAbsolute then "/" else "."⟩
  let here ← (writtenSteps dir).foldlM (elfStep t base) start
  let names ← (t.list base here).toOption
  let name ← names.find? (endsWith · ".elf")
  return seenFrom here name

/-- The test binary of a build directory. -/
def findBinary (t : Tree) (base : Place) (dir : Path) : Option Path :=
  let names := (t.list base dir).toOption.getD []
  match names.find? (isBinary t base dir) with
  | some name => some (dir.join name)
  | none => findElf t base dir

end HostSuite.Project
