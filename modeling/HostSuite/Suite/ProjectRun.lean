import HostSuite.Config.Basic
import HostSuite.Machine
import HostSuite.Project.Counters
import HostSuite.Project.TestBinary
import HostSuite.Suite.Result

/-
  One project from its sources to a finished test. A clean run first removes the build directory
  and selects the target anew. Then old coverage counters are dropped, the project is built, its
  test binary is looked for in what the build left, and run. The first stage that fails ends the
  run with a fault of its own; nothing is tried twice.
-/

namespace HostSuite.Suite

/-- A command in the root of a project whose output goes to the terminal. -/
def stageCommand (p : Project) (program : String) (args : List String) : Command :=
  ((Command.new program p.root).addArgs args).inheriting

def setTargetCommand (tools : ToolSettings) (p : Project) : Command :=
  stageCommand p tools.idf ["--preview", "set-target", tools.target]

def buildCommand (tools : ToolSettings) (p : Project) : Command :=
  stageCommand p tools.idf ["build"]

def testCommand (p : Project) (binary : Path) : Command := stageCommand p binary.text []

/-- What a stage makes of the outcome of its command. -/
def verdict (launchFault : LaunchError → Fault) (exitFault : CommandResult → Fault) :
    Outcome → Except Fault Unit
  | .error e => .error (launchFault e)
  | .ok r => if r.success then .ok () else .error (exitFault r)

/-- Sends the command of a stage. -/
def stage (h : Host) (c : Command) (launchFault : LaunchError → Fault)
    (exitFault : CommandResult → Fault) : Attempt Fault Unit := do
  let outcome ← Action.invoke h c
  ExceptT.mk (pure (verdict launchFault exitFault outcome))

/-- Removes the build directory; what is left of it is only worth a warning. -/
def removeBuild (h : Host) (p : Project) : Action Unit := do
  match ← Action.removeDir h p.buildDir with
  | none => pure ()
  | some e =>
    Action.notify h .warning ("Could not fully remove " ++ p.buildDir.text ++ ": " ++ e.message)

def setTarget (h : Host) (tools : ToolSettings) (p : Project) : Attempt Fault Unit := do
  Action.notify h .info ("Setting target to " ++ tools.target)
  stage h (setTargetCommand tools p)
    (fun _ => .missingTool tools.idf "set-target" Hint.idf)
    (fun _ => .buildFailure p.name ("Failed to set target to " ++ tools.target)
      (some ("Ensure " ++ tools.idf ++ " is in PATH and the ESP-IDF environment is exported")))

/-- Starts from an empty build directory. -/
def cleanBuild (h : Host) (tools : ToolSettings) (p : Project) : Attempt Fault Unit := do
  Action.notify h .info ("Cleaning build directory in " ++ p.root.text)
  removeBuild h p
  setTarget h tools p

/-- Drops the coverage counters of earlier runs. -/
def dropCounters (h : Host) (p : Project) : Action Unit := do
  Action.notify h .info ("Cleaning old coverage data (.gcda) in " ++ p.root.text)
  let count ← Action.change (.dropCounters p.root) fun t => t.dropCounters h.workingDir p.root
  if 0 < count then Action.sayLine ("  removed " ++ toString count ++ " file(s)")

def build (h : Host) (tools : ToolSettings) (p : Project) : Attempt Fault Unit := do
  Action.notify h .info ("Building in " ++ p.root.text)
  stage h (buildCommand tools p)
    (fun _ => .missingTool tools.idf "building projects" Hint.idf)
    (fun r => .buildFailure p.name
      (tools.idf ++ " build exited with code " ++ toString r.exitCode) none)

/-- The test binary in what the build left. -/
def locate (h : Host) (p : Project) : Attempt Fault Path := do
  let m ← get
  match Project.findBinary m.tree h.workingDir p.buildDir with
  | some binary => return binary
  | none => throw (.executableNotFound p.name p.buildDir)

def execute (h : Host) (p : Project) (binary : Path) : Attempt Fault Unit := do
  Action.notify h .info ("Running executable: " ++ binary.text)
  stage h (testCommand p binary)
    (fun e => .buildFailure p.name ("Could not launch " ++ binary.text ++ ": " ++ e.outer) none)
    (fun r => .testFailure p.name r.exitCode)

/-- Builds the project and runs its test binary. -/
def buildAndTest (h : Host) (tools : ToolSettings) (p : Project) : Attempt Fault Path := do
  build h tools p
  let binary ← locate h p
  execute h p binary
  return binary

/-- All stages of a project. -/
def stages (h : Host) (tools : ToolSettings) (clean : Bool) (p : Project) : Attempt Fault Path := do
  Action.sayLine ""
  Action.announce h ("Processing: " ++ p.name)
  if clean then cleanBuild h tools p
  dropCounters h p
  buildAndTest h tools p

/-- Runs all stages of a project and takes the time. -/
def runProject (h : Host) (tools : ToolSettings) (clean : Bool) (p : Project) :
    Action ProjectResult := do
  let before ← get
  let outcome ← (stages h tools clean p).run
  let after ← get
  return ⟨p.name, after.clock - before.clock, outcome.mapError Failure.fault⟩

end HostSuite.Suite
