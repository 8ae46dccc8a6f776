import HostSuite.Coverage.Ignore
import HostSuite.Coverage.Unified
import HostSuite.Suite.TestPhase

/-
  Coverage. The threshold is checked and the tools are looked up before anything is done. After
  the report has been made, its page is opened on demand, and the unified line percentage is held
  against the threshold.
-/

namespace HostSuite.Suite

open Coverage

/-- The programs that may show a page, with their arguments, in the order they are tried. -/
def launchers : List (String × List String) :=
  [("xdg-open", []), ("gio", ["open"]), ("gnome-open", []), ("kde-open", [])]

/-- The reason for a launcher that ran and failed. -/
def launcherTrouble (program : String) (args : List String) (r : CommandResult) : String :=
  "Launcher " ++ " ".intercalate ((program :: args).map Text.quoted) ++
    " failed with ExitStatus(unix_wait_status(" ++ toString r.waitStatus ++ "))"

/-- Shows an address with the first launcher there is; the reason if none does. -/
def showAddress (h : Host) (url : String) :
    List (String × List String) → String → Action (Option String)
  | [], last => return some last
  | (program, args) :: more, _ => do
    let command := (Command.new program (Path.ofPlace h.workingDir)).addArgs (args ++ [url])
    match ← Action.send h command with
    | .ok r => return if r.success then none else some (launcherTrouble program (args ++ [url]) r)
    | .error e => showAddress h url more e.innermost

/-- Opens the page of a report. -/
def openPage (h : Host) (page : Path) : Action Unit := do
  let url := fileUrl page
  Action.sayLine "\nOpening report in browser..."
  match ← showAddress h url launchers "" with
  | none => pure ()
  | some reason =>
    Action.notify h .warning ("Failed to open browser: " ++ reason)
    Action.sayLine ("You can manually open: " ++ url)

/-- Holds a percentage against a threshold. -/
def checkReached (actual : Option Number.Binary64) (threshold : Number.Binary64) :
    Except Fault Unit :=
  match actual with
  | some p =>
    if threshold.le p then .ok () else .error (.belowThreshold (p.textOnePlace ++ "%") threshold)
  | none => .error (.belowThreshold "unknown" threshold)

/-- The threshold of the command line, or else the configured one. -/
def effectiveThreshold (c : Config) (o : CoverageOptions) : Option Number.Binary64 :=
  o.failUnder <|> c.coverage.failUnder

/-- A threshold has to be a percentage. -/
def checkGiven (threshold : Option Number.Binary64) : Except Fault Unit :=
  match threshold with
  | some x => (Config.checkThreshold x).mapError RuleFault.toFault
  | none => .ok ()

/-- Where the results are. -/
def tellResults (s : Session) (made : Unified) : Action Unit := do
  s.remark ("Merged " ++ toString made.merged.length ++ " tracefile(s):")
  made.merged.forM fun p => s.remark ("  " ++ p.text)
  Action.sayLine ("\nSuccess! Full report available at: " ++ fileUrl made.page)
  Action.sayLine ("Text summary available at: " ++
    (OutputPaths.inDir (s.config.outputDir s.root)).report.text)

/-- Makes the unified coverage of the selected projects. -/
def coveragePhase (h : Host) (s : Session) (selected : List String) (o : CoverageOptions) :
    Attempt Failure Unit := do
  let threshold := effectiveThreshold s.config o
  failing (ExceptT.mk (pure (checkGiven threshold)))
  let lcov ← requireTool h s.config.tools.lcov "coverage capture"
  let _ ← requireTool h s.config.tools.genhtml "HTML report generation"
  tellVersion h s lcov
  let projects ← failing (s.projects h selected)
  let ignoreFile := s.config.ignoreFile s.root
  let patterns ← loadPatterns h ignoreFile
  s.remark ("Loaded " ++ toString patterns.length ++ " ignore pattern(s) from " ++ ignoreFile.text)
  let made ← unify h s.config s.root projects patterns
  tellResults s made
  if o.openPage then openPage h made.page
  match threshold with
  | some x => failing (ExceptT.mk (pure (checkReached made.summary.percent? x)))
  | none => pure ()

end HostSuite.Suite
