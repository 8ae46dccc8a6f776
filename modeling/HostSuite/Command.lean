import HostSuite.Number.Decimal
import HostSuite.Path.Basic
import HostSuite.Text.Blank

/-
  Commands and what comes of them. A command names its program, arguments and working
  directory and says whether its output goes straight to the terminal. The echo of a command
  puts quotes around the arguments that hold a space; `echoWords` cuts an echo at the spaces
  outside quotes and drops the quotes.
-/

namespace HostSuite

structure Command where
  program : String
  args : List String
  cwd : Path
  inheritsOutput : Bool := false
  deriving DecidableEq, Repr

namespace Command

/-- A command without arguments whose output is captured. -/
def new (program : String) (cwd : Path) : Command := ⟨program, [], cwd, false⟩

def arg (c : Command) (a : String) : Command := { c with args := c.args ++ [a] }

def addArgs (c : Command) (as : List String) : Command := { c with args := c.args ++ as }

def pathArg (c : Command) (p : Path) : Command := c.arg p.text

/-- Lets the output through to the terminal. -/
def inheriting (c : Command) : Command := { c with inheritsOutput := true }

/-- An argument as the echo shows it. -/
def echoArg (a : String) : List Char :=
  if a.toList.contains ' ' then '"' :: a.toList ++ ['"'] else a.toList

/-- The echo of a command as characters. -/
def echoChars (c : Command) : List Char :=
  c.program.toList ++ c.args.flatMap fun a => ' ' :: echoArg a

/-- The command as one line: the program and its arguments, each after one space. -/
def echo (c : Command) : String := String.ofList c.echoChars

/-- Cuts at the spaces outside quotes and drops the quotes; `word` is the word begun so far. -/
def echoWordsFrom (inQuotes : Bool) (word : List Char) : List Char → List (List Char)
  | [] => [word]
  | c :: cs =>
    if c = '"' then echoWordsFrom (!inQuotes) word cs
    else if c = ' ' && !inQuotes then word :: echoWordsFrom false [] cs
    else echoWordsFrom inQuotes (word ++ [c]) cs

/-- The words of an echo. -/
def echoWords (s : String) : List String := (echoWordsFrom false [] s.toList).map String.ofList

end Command

/-- What a command that ran left behind. The exit code is -1 when a signal ended it; the signal is
then the low byte of the wait status. -/
structure CommandResult where
  success : Bool
  exitCode : Int
  stdout : String
  stderr : String
  elapsed : Number.Duration
  signal : Option Nat := none
  deriving DecidableEq, Repr

namespace CommandResult

/-- Reads a raw wait status: the low seven bits name a signal, the next byte is the exit code. -/
def ofStatus (status : Nat) (stdout stderr : String) (elapsed : Number.Duration) :
    CommandResult where
  success := status = 0
  exitCode := if status &&& 127 = 0 then ((status >>> 8) &&& 255 : Nat) else -1
  stdout := stdout
  stderr := stderr
  elapsed := elapsed
  signal := if status &&& 127 = 0 then none else some (status &&& 255)

/-- The raw wait status that says the same. -/
def waitStatus (r : CommandResult) : Int := r.signal.elim (r.exitCode * 256) fun s => (s : Int)

/-- The output, closed by a line feed if it has none, then the error output. -/
def combinedChars (out err : List Char) : List Char :=
  if out.isEmpty || out.getLast? = some '\n' then out ++ err else out ++ '\n' :: err

/-- Both outputs as one text. -/
def combined (r : CommandResult) : String :=
  String.ofList (combinedChars r.stdout.toList r.stderr.toList)

/-- Both outputs without the blanks around them, unless only blanks were printed. -/
def diagnostics (r : CommandResult) : Option String :=
  let trimmed := Text.trim r.combined
  if trimmed = "" then none else some trimmed

end CommandResult

/-- Why a command could not be launched, the outermost reason first. -/
structure LaunchError where
  outer : String
  causes : List String := []
  deriving DecidableEq, Repr

namespace LaunchError

/-- The reasons from the outermost to the innermost. -/
def chain (e : LaunchError) : String := ": ".intercalate (e.outer :: e.causes)

/-- The innermost reason. -/
def innermost (e : LaunchError) : String := e.causes.getLastD e.outer

end LaunchError

/-- A command either ran or could not be launched. -/
abbrev Outcome := Except LaunchError CommandResult

end HostSuite
