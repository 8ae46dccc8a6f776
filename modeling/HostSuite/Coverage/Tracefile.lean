import HostSuite.Coverage.Summary
import HostSuite.Fault
import HostSuite.Project.Basic

/-
  Tracefiles. Capturing the build directory of a project gives its raw tracefile: first with every
  error of the counters fatal, then, if that ran and failed, once more with them tolerated.
  Removing the ignored sources gives the filtered one. What counts for a project is the filtered
  tracefile where there is one and the raw one otherwise. Failures here only cost the project its
  dataset or its filter; a failed merge ends the run.
-/

namespace HostSuite.Coverage

def rawName : String := "coverage.info"

def filteredName : String := "coverage_filtered.info"

/-- Whether errors of the counters end a capture. -/
inductive Strictness
  | strict
  | permissive
  deriving DecidableEq, Repr

namespace Strictness

/-- The ways in which a capture is tried, in order. -/
def attempts : List Strictness := [strict, permissive]

def args : Strictness → List String
  | strict => []
  | permissive => ["--ignore-errors", "gcov"]

end Strictness

/-- The tracefiles of a project. -/
structure Captured where
  raw : Path
  filtered : Option Path
  deriving DecidableEq, Repr

/-- The tracefile that counts. -/
def Captured.effective (c : Captured) : Path := c.filtered.getD c.raw

def rawTracefile (p : Project) : Path := p.buildDir.join rawName

def filteredTracefile (p : Project) : Path := p.buildDir.join filteredName

def captureCommand (lcov : String) (p : Project) (s : Strictness) : Command :=
  ((((((Command.new lcov p.root).arg "--capture").arg "--directory").pathArg p.buildDir).arg
    "--output-file").pathArg (rawTracefile p)).addArgs (s.args ++ ["--quiet"])

def filterCommand (lcov : String) (p : Project) (raw : Path) (patterns : List String) : Command :=
  ((((((Command.new lcov p.root).arg "--remove").pathArg raw).addArgs patterns).arg
    "--output-file").pathArg (filteredTracefile p)).arg "--quiet"

/-- Each input after a mark of its own, then the output. -/
def mergeCommand (lcov : String) (inputs : List Path) (output cwd : Path) : Command :=
  ((((Command.new lcov cwd).addArgs (inputs.flatMap fun i => ["-a", i.text])).arg "-o").pathArg
    output).arg "--quiet"

/-- Shows what a failed tool printed. -/
def showDiagnostics (d : Option String) : Action Unit :=
  match d with
  | some text => Action.say .err (indented text)
  | none => pure ()

/-- What there is to show of a command that did not succeed. -/
def troubleOf : Outcome → Option String
  | .ok r => r.diagnostics
  | .error e => some e.chain

/-- The command ran and succeeded. -/
def succeeded : Outcome → Bool
  | .ok r => r.success
  | .error _ => false

def warnSkipped (h : Host) (p : Project) (reason : String) : Action Unit :=
  Action.notify h .warning ("Skipping coverage for " ++ p.name ++ ": " ++ reason)

/-- Tries a capture in the given ways; `last` is what the attempt before showed. -/
def captureIn (h : Host) (lcov : String) (p : Project) :
    List Strictness → Option String → Action (Option Path)
  | [], last => do
    warnSkipped h p "capture failed in strict and permissive mode"
    showDiagnostics last
    return none
  | s :: more, _ => do
    match ← Action.invoke h (captureCommand lcov p s) with
    | .ok r =>
      if r.success then return some (rawTracefile p) else captureIn h lcov p more r.diagnostics
    | .error e => do
      warnSkipped h p e.chain
      return none

/-- Captures the build directory of a project. -/
def capture (h : Host) (lcov : String) (p : Project) : Action (Option Path) :=
  captureIn h lcov p Strictness.attempts none

/-- Removes the ignored sources from a raw tracefile. -/
def filter (h : Host) (lcov : String) (p : Project) (raw : Path) (patterns : List String) :
    Action (Option Path) := do
  if patterns.isEmpty then return none
  else
    let outcome ← Action.invoke h (filterCommand lcov p raw patterns)
    if succeeded outcome then return some (filteredTracefile p)
    else
      Action.notify h .warning ("Filtering failed for " ++ p.name ++ "; using unfiltered coverage")
      showDiagnostics (troubleOf outcome)
      return none

/-- Captures, then filters. -/
def collect (h : Host) (lcov : String) (p : Project) (patterns : List String) :
    Action (Option Captured) := do
  match ← capture h lcov p with
  | none => return none
  | some raw => return some ⟨raw, ← filter h lcov p raw patterns⟩

/-- Merges tracefiles into one. -/
def merge (h : Host) (lcov : String) (inputs : List Path) (output cwd : Path) :
    Action (Except Fault Unit) := do
  let outcome ← Action.invoke h (mergeCommand lcov inputs output cwd)
  if succeeded outcome then return .ok ()
  else return .error (.mergeFailure inputs (troubleOf outcome))

end HostSuite.Coverage
