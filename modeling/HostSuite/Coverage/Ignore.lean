import HostSuite.Machine

/-
  Patterns of sources that coverage leaves out, one a line. Blanks around a pattern do not count;
  blank lines and lines that begin with `#` hold none. Without a file there are no patterns.
-/

namespace HostSuite.Coverage

/-- The line holds a pattern. -/
def isPattern (line : String) : Bool := line ≠ "" && line.toList.head? ≠ some '#'

/-- The patterns of a text. -/
def patternsOf (text : String) : List String :=
  ((Text.lines text).map Text.trim).filter isPattern

/-- Loads patterns; a file that cannot be read gives a warning and none. -/
def loadPatterns (h : Host) (p : Path) : Action (List String) := do
  let m ← get
  match m.tree.readText h.workingDir p with
  | .ok text => return patternsOf text
  | .error .noEntry => return []
  | .error e => do
    Action.notify h .warning
      ("Ignoring unreadable pattern file " ++ p.text ++ ": " ++ e.message)
    return []

end HostSuite.Coverage
