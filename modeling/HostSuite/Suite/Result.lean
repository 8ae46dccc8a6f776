import HostSuite.Fault

/-
  Results of projects. A project passed with its test binary or failed with a reason. The table
  has a line for each project with its status and its time, and under it the binary or the reason;
  names are padded to forty characters, the status to eight.
-/

namespace HostSuite.Suite

structure ProjectResult where
  name : String
  elapsed : Number.Duration
  outcome : Except Failure Path

namespace ProjectResult

def passed (r : ProjectResult) : Bool := r.outcome.isOk

def statusText (r : ProjectResult) : String := if r.passed then "PASSED" else "FAILED"

/-- Why it failed. -/
def failure? (r : ProjectResult) : Option Failure :=
  match r.outcome with
  | .error f => some f
  | .ok _ => none

/-- The binary of a project that passed. -/
def binary? (r : ProjectResult) : Option Path := r.outcome.toOption

/-- The fault behind a failure, if it is one. -/
def fault? (r : ProjectResult) : Option Fault := r.failure?.bind Failure.fault?

end ProjectResult

/-- Results in the order of the projects. -/
structure RunSummary where
  results : List ProjectResult := []

namespace RunSummary

def add (s : RunSummary) (r : ProjectResult) : RunSummary := ⟨s.results ++ [r]⟩

def passedCount (s : RunSummary) : Nat := s.results.countP ProjectResult.passed

def failedNames (s : RunSummary) : List String :=
  (s.results.filter fun r => !r.passed).map ProjectResult.name

def allPassed (s : RunSummary) : Bool := s.results.all ProjectResult.passed

/-- Blanks after the text up to a width. -/
def padRight (width : Nat) (s : String) : String :=
  s ++ String.ofList (List.replicate (width - s.length) ' ')

/-- Blanks before the text up to a width. -/
def padLeft (width : Nat) (s : String) : String :=
  String.ofList (List.replicate (width - s.length) ' ') ++ s

/-- A rule across the table. -/
def rule (c : Char) : String := String.ofList (List.replicate 60 c) ++ "\n"

/-- The lines of one project. -/
def rows (st : Style) (r : ProjectResult) : String :=
  let colour := if r.passed then Colour.green else Colour.red
  let detail :=
    match r.outcome with
    | .ok binary => binary.text
    | .error f => f.message
  "  " ++ padRight 40 r.name ++ " " ++ st.paint (some colour) none (padRight 8 r.statusText) ++
    " " ++ padLeft 7 r.elapsed.seconds.textOnePlace ++ "s\n" ++ "      " ++ st.dim detail ++ "\n"

/-- How many passed and failed. -/
def totals (s : RunSummary) : String :=
  "  " ++ toString s.passedCount ++ " passed, " ++ toString (s.results.length - s.passedCount) ++
    " failed, " ++ toString s.results.length ++ " total\n"

/-- The table of all results. -/
def table (s : RunSummary) (st : Style) : String :=
  "\n" ++ rule '═' ++ "HOST TEST SUMMARY\n" ++ rule '═' ++ String.join (s.results.map (rows st)) ++
    rule '─' ++ s.totals ++ rule '═'

end RunSummary

end HostSuite.Suite
