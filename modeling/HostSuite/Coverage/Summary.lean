import HostSuite.Coverage.Percent
import HostSuite.Machine

/-
  Summaries of datasets. A section has a label and the percentage lines of the summarizer, or no
  lines where it gave no answer. A report is a titled list of sections with the time at which it
  was begun; each section is followed by a blank line. What the terminal shows of a section is
  its block in the report.
-/

namespace HostSuite.Coverage

/-- A block of the report. Its lines are missing where the summarizer gave no answer. -/
structure Summary where
  label : String
  lines : Option (List String)
  deriving DecidableEq, Repr

namespace Summary

def percent? (s : Summary) : Option Number.Binary64 := s.lines.bind linePercent?

/-- The block of a section, without the blank line after it. -/
def render (s : Summary) : String :=
  match s.lines with
  | some lines => s.label ++ ":\n" ++ String.join (lines.map fun l => "  " ++ l ++ "\n")
  | none => "  Summary not available for " ++ s.label ++ "\n"

end Summary

structure Report where
  generated : String
  sections : List Summary := []
  deriving DecidableEq, Repr

namespace Report

def title : String := "Host Test Coverage Summary"

def add (r : Report) (s : Summary) : Report := { r with sections := r.sections ++ [s] }

/-- The lines in front of the sections. -/
def header (r : Report) : String := banner title ++ "\nGenerated: " ++ r.generated ++ "\n\n"

def render (r : Report) : String :=
  r.header ++ String.join (r.sections.map fun s => s.render ++ "\n")

end Report

/-- The command that summarizes a dataset. -/
def summaryCommand (lcov : String) (dataset cwd : Path) : Command :=
  (((Command.new lcov cwd).arg "--summary").pathArg dataset).addArgs ["--ignore-errors", "gcov"]

/-- The section of a dataset. -/
def summaryOf (label : String) : Outcome → Summary
  | .ok r => ⟨label, if r.success then some (summaryLines r.combined) else none⟩
  | .error _ => ⟨label, none⟩

/-- Summarizes a dataset and prints its section. -/
def summarize (h : Host) (lcov : String) (dataset : Path) (label : String) (cwd : Path) :
    Action Summary := do
  let outcome ← Action.invoke h (summaryCommand lcov dataset cwd)
  let summary := summaryOf label outcome
  Action.say .out summary.render
  return summary

end HostSuite.Coverage
