import HostSuite.Number.Decimal
import HostSuite.Path.Basic
import HostSuite.Terminal

/-
  Faults that end a run. Each one is a cause with its own data; the message says what happened,
  the hint what to do about it, and the display puts both on the error output together with
  what the failed tool printed. A failure is a fault or a chain of plain reasons.
-/

namespace HostSuite

inductive Fault
  | config (message : String) (hint : Option String)
  | missingTool (tool requiredFor hint : String)
  | buildFailure (project message : String) (hint : Option String)
  | executableNotFound (project : String) (buildDir : Path)
  | testFailure (project : String) (exitCode : Int)
  | projectsFailed (failed : List String) (total : Nat)
  | noCoverageData
  | mergeFailure (inputs : List Path) (output : Option String)
  | reportFailure (tracefile : Path) (output : Option String)
  | belowThreshold (actual : String) (threshold : Number.Binary64)
  deriving DecidableEq, Repr

namespace Hint

def idf : String :=
  "Install ESP-IDF and export its environment before running:\n" ++
    "• . $IDF_PATH/export.sh\n" ++
    "• Or set [tools].idf in hostcov.toml to the idf.py location"

def lcov : String :=
  "Install lcov (provides both lcov and genhtml):\n" ++
    "• macOS: brew install lcov\n" ++
    "• Ubuntu: sudo apt install lcov"

def anyTool : String := "Install this tool and ensure it's in your PATH"

def invalidConfig : String :=
  "hostcov.toml is invalid. Common issues:\n" ++
    "• Unknown section or key (only [discovery], [tools], [coverage])\n" ++
    "• Invalid TOML syntax (check quotes, brackets, commas)"

def executableNotFound : String :=
  "The build finished but produced no runnable binary.\n" ++
    "Check that the project targets linux: idf.py --preview set-target linux\n" ++
    "or re-run with CLEAN_BUILD=1"

def noCoverageData : String :=
  "Run the host tests first: hostcov test\n" ++
    "Projects need a build/ directory containing .gcda files.\n" ++
    "If they have one, check the lcov output printed with the warnings above"

def mergeFailure : String :=
  "One of the tracefiles is probably corrupt. Re-run the tests with CLEAN_BUILD=1"

end Hint

namespace Fault

def message : Fault → String
  | config m _ => "Configuration error: " ++ m
  | missingTool tool _ _ => "Missing tool: " ++ tool
  | buildFailure project m _ => "Build failed for " ++ project ++ ": " ++ m
  | executableNotFound project dir =>
    "Could not find executable for " ++ project ++ " in " ++ dir.text
  | testFailure project code =>
    "Test execution failed for " ++ project ++ " (exit code " ++ toString code ++ ")"
  | projectsFailed failed total =>
    toString failed.length ++ " of " ++ toString total ++ " projects failed: " ++
      ", ".intercalate failed
  | noCoverageData => "No coverage data found. Please run tests first."
  | mergeFailure _ _ => "Failed to merge coverage data."
  | reportFailure _ _ => "Failed to generate HTML report. Tracefile might contain invalid paths."
  | belowThreshold actual threshold =>
    "Line coverage " ++ actual ++ " is below the required " ++ threshold.textOnePlace ++ "%"

def hint : Fault → Option String
  | config _ h => h
  | missingTool _ _ h => some h
  | buildFailure _ _ h => h
  | executableNotFound _ _ => some Hint.executableNotFound
  | testFailure project _ =>
    some ("Re-run with: hostcov test --project " ++ project ++ " to reproduce the failure")
  | projectsFailed _ _ => none
  | noCoverageData => some Hint.noCoverageData
  | mergeFailure _ _ => some Hint.mergeFailure
  | reportFailure tracefile _ =>
    some ("Inspect the SF: entries of " ++ tracefile.text ++
      " and make sure the sources still exist")
  | belowThreshold _ _ => none

/-- What the tool behind the fault printed. -/
def toolOutput : Fault → Option String
  | mergeFailure _ output => output
  | reportFailure _ output => output
  | _ => none

private def requirement : Fault → String
  | missingTool _ requiredFor _ => "  required for: " ++ requiredFor ++ "\n"
  | _ => ""

private def outputBlock (s : Style) (f : Fault) : String :=
  f.toolOutput.elim "" fun o => "\n" ++ s.label .cyan "OUTPUT:" ++ "\n" ++ indented o

private def hintBlock (s : Style) (f : Fault) : String :=
  f.hint.elim "" fun h => "\n" ++ s.label .yellow "HINT:" ++ " " ++ h ++ "\n"

private def inputsBlock (s : Style) : Fault → String
  | mergeFailure inputs _ =>
    if inputs.isEmpty then ""
    else
      "\n" ++ s.label .cyan "INPUTS:" ++ "\n" ++
        String.join (inputs.map fun p => "  • " ++ p.text ++ "\n")
  | _ => ""

/-- Everything there is to say about a fault. -/
def display (s : Style) (f : Fault) : String :=
  "\n" ++ s.label .red "ERROR:" ++ " " ++ f.message ++ "\n" ++ requirement f ++ outputBlock s f ++
    hintBlock s f ++ inputsBlock s f ++ "\n"

end Fault

/-- Why an operation failed: a fault, or plain reasons from the outermost to the innermost. -/
inductive Failure
  | fault (f : Fault)
  | other (outer : String) (causes : List String)
  deriving DecidableEq, Repr

namespace Failure

/-- The outermost reason. -/
def message : Failure → String
  | fault f => f.message
  | other outer _ => outer

/-- The reasons from the outermost to the innermost. -/
def chain : Failure → String
  | fault f => f.message
  | other outer causes => ": ".intercalate (outer :: causes)

/-- The fault, if it is one. -/
def fault? : Failure → Option Fault
  | fault f => some f
  | other _ _ => none

/-- What the end of a failed run puts on the error output. -/
def display (s : Style) : Failure → String
  | fault f => f.display s
  | other outer causes => Notice.error.line s (other outer causes).chain

end Failure

end HostSuite
