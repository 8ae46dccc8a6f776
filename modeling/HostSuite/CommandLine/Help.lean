import HostSuite.CommandLine.Parse

/-
  Help and version texts. A table has a left column as wide as its widest entry and descriptions
  that are wrapped at a hundred columns; the option for the root tells what the environment gives.
-/

namespace HostSuite.CommandLine

/-- How wide a help text is. -/
def helpWidth : Nat := 100

/-- The words of a text, each with the blanks after it. -/
def wordsOf : List Char → List (List Char)
  | [] => []
  | c :: cs =>
    match wordsOf cs with
    | [] => [[c]]
    | w :: ws => if c = ' ' && w.head? ≠ some ' ' then [c] :: w :: ws else (c :: w) :: ws

/-- Drops the blanks at the end. -/
def withoutTail (cs : List Char) : List Char := (cs.reverse.dropWhile (· = ' ')).reverse

/-- Puts words on lines of a width as long as they fit; `line` is the line begun. -/
def fillLines (width : Nat) (line : List Char) : List (List Char) → List (List Char)
  | [] => [line]
  | w :: ws =>
    if line.isEmpty || line.length + (withoutTail w).length ≤ width then
      fillLines width (line ++ w) ws
    else withoutTail line :: fillLines width w ws

/-- The text on lines of a width. -/
def wrap (width : Nat) (text : String) : List String :=
  (fillLines width [] (wordsOf text.toList)).map String.ofList

def blanks (n : Nat) : String := String.ofList (List.replicate n ' ')

/-- One row of a table with a left column of a given width. -/
def row (left : Nat) (entry : String × String) : String :=
  let margin := left + 4
  let body := ("\n" ++ blanks margin).intercalate (wrap (helpWidth - margin) entry.2)
  "  " ++ entry.1 ++ blanks (left - entry.1.length) ++ "  " ++ body ++ "\n"

/-- A titled table. -/
def table (title : String) (entries : List (String × String)) : String :=
  let left := (entries.map (·.1.length)).foldl max 0
  title ++ ":\n" ++ String.join (entries.map (row left))

def Opt.describe (environment : Option String) : Opt → String
  | .project => "Only process this project (repeatable)"
  | .root =>
    "Host test root directory (defaults to the current directory) [env: HOSTCOV_ROOT=" ++
      environment.getD "" ++ "]"
  | .clean => "Delete build directories and re-run set-target first (also CLEAN_BUILD=1)"
  | .openPage => "Open the HTML report in the default browser"
  | .verbose => "Enable verbose output"
  | .keepGoing => "Continue with the remaining projects after a failure"
  | .failUnder => "Fail when unified line coverage is below PERCENT"
  | .noColor => "Disable colored output"
  | .help => "Print help"
  | .version => "Print version"

/-- The left column for an option. -/
def Opt.entry (o : Opt) : String :=
  (match o.short? with
    | some c => String.ofList ['-', c] ++ ", "
    | none => "    ") ++ o.shown

def Word.describe : Word → String
  | .test => "Build and run every host test project"
  | .coverage => "Capture, merge and render coverage for built projects"
  | .run => "Test, then generate coverage"

def helpDescription : String := "Print this message or the help of the given subcommand(s)"

def programName : String := "hostcov"

def programVersion : String := "0.3.0"

def optionTable (l : Level) (environment : Option String) : String :=
  table "Options" (l.options.map fun o => (o.entry, o.describe environment))

def commandTable : String :=
  table "Commands"
    (Word.all.map (fun w => (w.text, w.describe)) ++ [(helpWord, helpDescription)])

/-- The help of a level. -/
def helpText (l : Level) (environment : Option String) : String :=
  match l with
  | .top =>
    programName ++ " - host test and coverage runner\n\nUsage: " ++ programName ++
      " [OPTIONS] <COMMAND>\n\n" ++ commandTable ++ "\n" ++ optionTable l environment
  | .under w =>
    w.describe ++ "\n\nUsage: " ++ programName ++ " " ++ w.text ++ " [OPTIONS]\n\n" ++
      optionTable l environment

/-- The help of the word that asks for help. -/
def helpOfHelp : String :=
  helpDescription ++ "\n\nUsage: " ++ programName ++ " " ++ helpWord ++ " [COMMAND]...\n\n" ++
    table "Arguments" [("[COMMAND]...", "Print help for the subcommand(s)")]

def versionText : Level → String
  | .top => programName ++ " " ++ programVersion ++ "\n"
  | .under w => programName ++ "-" ++ w.text ++ " " ++ programVersion ++ "\n"

/-- What a refusal shows: a whole text, or the line that tells an error. -/
def Refusal.display (environment : Option String) : Refusal → String
  | .showHelp l => helpText l environment
  | .showHelpOfHelp => helpOfHelp
  | .showVersion l => versionText l
  | .nothingAsked => helpText .top environment
  | r => r.message

end HostSuite.CommandLine
