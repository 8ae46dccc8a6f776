import HostSuite.Machine
import HostSuite.Fault

/-
  Programs a run needs. The host looks them up, and what is missing is told with a hint. A tool
  that answers is asked for its version, the first line of its output with anything on it.
-/

namespace HostSuite

/-- A tool that was found. -/
structure Tool where
  name : String
  path : Path
  deriving DecidableEq, Repr

namespace Tool

/-- Looks a program up. -/
def find? (h : Host) (t : Tree) (name : String) : Option Tool :=
  (h.lookUp h.workingDir h.searchPath t name).map (⟨name, ·⟩)

/-- What to do about a missing tool. -/
def hintFor (name : String) : String :=
  match (⟨name⟩ : Path).fileName.getD name with
  | "idf.py" => Hint.idf
  | "lcov" => Hint.lcov
  | "genhtml" => Hint.lcov
  | _ => Hint.anyTool

/-- Looks up a program that is needed. -/
def require (h : Host) (t : Tree) (name requiredFor : String) : Except Fault Tool :=
  match find? h t name with
  | some tool => .ok tool
  | none => .error (.missingTool name requiredFor (hintFor name))

/-- The first line with anything on it, without the blanks around it. -/
def firstLine? (text : String) : Option String :=
  ((Text.lines text).map Text.trim).find? (· ≠ "")

/-- Asks a tool for its version. -/
def version? (h : Host) (name : String) (cwd : Path) : Action (Option String) := do
  match ← Action.invoke h ((Command.new name cwd).arg "--version") with
  | .ok r => return if r.success then firstLine? r.combined else none
  | .error _ => return none

end Tool

end HostSuite
