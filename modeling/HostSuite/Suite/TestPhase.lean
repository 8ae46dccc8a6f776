import HostSuite.CommandLine.Basic
import HostSuite.Project.Tool
import HostSuite.Suite.ProjectRun
import HostSuite.Suite.Session

/-
  Testing. The build tool has to be there before anything is done. The projects are run in order;
  the first failure ends the phase with its own reason, or, when the phase keeps going, is shown
  and the names of all projects that failed are the reason at the end.
-/

namespace HostSuite.Suite

/-- The texts that ask for a clean build. -/
def truthyTexts : List String := ["1", "true", "yes", "on"]

/-- The environment asks for a clean build: one of a few words in any case, with blanks around. -/
def asksForCleanBuild (value : Option Text.Bytes) : Bool :=
  match value.bind Text.decode? with
  | some text =>
    truthyTexts.contains (String.ofList ((Text.trim text).toList.map Number.lowerAscii))
  | none => false

/-- Attempts with faults are attempts with failures. -/
def failing {α : Type} (x : Attempt Fault α) : Attempt Failure α :=
  ExceptT.mk do return (← x.run).mapError Failure.fault

/-- Looks a needed tool up. -/
def requireTool (h : Host) (name requiredFor : String) : Attempt Failure Tool :=
  failing do
    let m ← get
    ExceptT.mk (pure (Tool.require h m.tree name requiredFor))

/-- Tells the version of a tool, where the session is verbose and the tool answers. -/
def tellVersion (h : Host) (s : Session) (tool : Tool) : Action Unit := do
  if s.verbose then
    match ← Tool.version? h tool.name s.root with
    | some version =>
      s.remark ("Using " ++ tool.name ++ " at " ++ tool.path.text ++ " (" ++ version ++ ")")
    | none => pure ()

/-- Runs projects in order and adds their results to those before. -/
def testAll (h : Host) (tools : ToolSettings) (clean keepGoing : Bool) :
    List Project → RunSummary → Attempt Failure RunSummary
  | [], done => return done
  | p :: ps, done => do
    let result ← runProject h tools clean p
    match result.failure? with
    | none => testAll h tools clean keepGoing ps (done.add result)
    | some failure =>
      if keepGoing then
        match failure.fault? with
        | some fault => Action.say .err (fault.display h.style)
        | none => pure ()
        testAll h tools clean keepGoing ps (done.add result)
      else throw failure

/-- What comes after the last project. -/
def closeTests (h : Host) (keepGoing : Bool) (summary : RunSummary) : Attempt Failure Unit := do
  if keepGoing then Action.say .out (summary.table h.style)
  if summary.allPassed then
    Action.sayLine ""
    Action.notify h .success (toString summary.passedCount ++ " project(s) built and passed")
  else throw (.fault (.projectsFailed summary.failedNames summary.results.length))

/-- Builds and tests the selected projects. -/
def testPhase (h : Host) (s : Session) (selected : List String) (o : TestOptions) :
    Attempt Failure Unit := do
  let tool ← requireTool h s.config.tools.idf "building host tests"
  tellVersion h s tool
  let projects ← failing (s.projects h selected)
  if projects.isEmpty then
    Action.notify h .warning ("No test projects found in " ++ s.root.text)
  else
    let clean := o.clean || asksForCleanBuild h.cleanBuild
    let summary ← testAll h s.config.tools clean o.keepGoing projects {}
    closeTests h o.keepGoing summary

end HostSuite.Suite
