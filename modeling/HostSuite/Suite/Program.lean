import HostSuite.Suite.CoveragePhase

/-
  The whole program: load the session, carry the request out, and at the end show why it failed,
  if it did. Running is testing, a blank line, and coverage.
-/

namespace HostSuite.Suite

/-- Carries a request out. -/
def perform (h : Host) (s : Session) (selected : List String) : Request → Attempt Failure Unit
  | .test o => testPhase h s selected o
  | .coverage o => coveragePhase h s selected o
  | .run t c => do
    testPhase h s selected t
    Action.sayLine ""
    coveragePhase h s selected c

/-- The host as a command line wants it: without styling or with echoes. -/
def hostFor (h : Host) (l : CommandLine) : Host :=
  { h with
    style := if l.noColor then .plain else h.style
    echoes := l.verbose }

/-- Does what a command line asks for. -/
def attempt (h : Host) (l : CommandLine) : Attempt Failure Unit := do
  let m ← get
  match Session.load m.tree h.workingDir (l.root.map Path.mk) l.verbose with
  | .error f => throw (.fault f)
  | .ok s => perform h s l.projects l.request

/-- Does what a command line asks for and shows the failure, if there is one. -/
def runProgram (h : Host) (l : CommandLine) : Action (Option Failure) := do
  let h := hostFor h l
  match ← (attempt h l).run with
  | .ok _ => return none
  | .error failure =>
    Action.say .err (failure.display h.style)
    return some failure

end HostSuite.Suite
