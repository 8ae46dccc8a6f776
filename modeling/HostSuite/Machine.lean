import HostSuite.Command
import HostSuite.Terminal
import HostSuite.Tree.Edit
import HostSuite.Tree.Lookup

/-
  The machine a run works on: a tree, a clock, and a log of everything that happened, in order.
  What was printed, which commands were sent and which changes were asked for are views of the
  log. A host answers commands: from the commands it was sent before, the command and the tree
  it gives the outcome, the tree afterwards and what the command itself put on the terminal. It
  looks programs up, and on an attended terminal it draws spinners.
  An action works on a machine; an attempt is an action that may end in a failure.
-/

namespace HostSuite

/-- Changes of the tree that a run asks for itself. -/
inductive Change
  | readyDir (path : Path)
  | removeDir (path : Path)
  | removeFile (path : Path)
  | writeText (path : Path) (text : String)
  | dropCounters (dir : Path)
  deriving DecidableEq, Repr

inductive Event
  | printed (stream : Stream) (text : String)
  | relayed (stream : Stream) (bytes : Text.Bytes)
  | drawn (bytes : Text.Bytes)
  | ran (command : Command)
  | changed (change : Change)
  deriving DecidableEq, Repr

namespace Event

def command? : Event → Option Command
  | ran c => some c
  | _ => none

def change? : Event → Option Change
  | changed c => some c
  | _ => none

/-- What the event puts on a stream; spinners are drawn on the error output. -/
def bytesOn (s : Stream) : Event → Text.Bytes
  | printed t text => if t = s then Text.encode text else []
  | relayed t bytes => if t = s then bytes else []
  | drawn bytes => if s = .err then bytes else []
  | _ => []

end Event

structure Machine where
  tree : Tree
  log : List Event := []
  clock : Number.Duration := 0

namespace Machine

/-- The commands sent so far. -/
def commands (m : Machine) : List Command := m.log.filterMap Event.command?

/-- The changes asked for so far. -/
def changes (m : Machine) : List Change := m.log.filterMap Event.change?

/-- Everything on a stream so far. -/
def bytesOn (m : Machine) (s : Stream) : Text.Bytes := m.log.flatMap (Event.bytesOn s)

/-- Everything on a stream so far, as text. -/
def textOn (m : Machine) (s : Stream) : String := Text.decodeLossy (m.bytesOn s)

end Machine

/-- The answer to a command. -/
structure Reply where
  outcome : Outcome
  tree : Tree
  relayed : List (Stream × Text.Bytes) := []

/-- How commands are answered, given the ones before, the command and the tree. -/
abbrev Runner := List Command → Command → Tree → Reply

/-- What a run finds around it. -/
structure Host where
  runner : Runner
  style : Style := .plain
  echoes : Bool := false
  /-- What a spinner with a text draws in a time until it is cleared, if anybody is watching. -/
  spinner : Option (String → Number.Duration → Text.Bytes) := none
  workingDir : Place := []
  searchPath : List Path := []
  /-- How a program is looked up from a place along some directories. -/
  lookUp : Place → List Path → Tree → String → Option Path := Tree.lookUp
  timestamp : String := ""
  cleanBuild : Option Text.Bytes := none

/-- Something done to a machine. -/
abbrev Action := StateM Machine

/-- Something done to a machine that may fail with an `ε`. -/
abbrev Attempt (ε : Type) := ExceptT ε Action

namespace Action

/-- Adds an event to the log. -/
def note (e : Event) : Action Unit := modify fun m => { m with log := m.log ++ [e] }

def say (s : Stream) (text : String) : Action Unit := note (.printed s text)

/-- Prints a text and a line feed on the output. -/
def sayLine (text : String) : Action Unit := say .out (text ++ "\n")

/-- Prints a labelled line. -/
def notify (h : Host) (n : Notice) (message : String) : Action Unit :=
  say n.stream (n.line h.style message)

/-- Prints a title. -/
def announce (h : Host) (title : String) : Action Unit := sayLine (h.style.bold (banner title))

/-- Asks for a change and carries it out. -/
def change {α : Type} (c : Change) (edit : Tree → Tree × α) : Action α := do
  note (.changed c)
  let m ← get
  let (tree, answer) := edit m.tree
  set { m with tree := tree }
  return answer

/-- Makes a directory ready. -/
def readyDir (h : Host) (p : Path) : Action (Option IoError) :=
  change (.readyDir p) fun t => t.ensureDir h.workingDir p

/-- Removes a directory with everything in it; a missing one is fine. -/
def removeDir (h : Host) (p : Path) : Action (Option IoError) :=
  change (.removeDir p) fun t => t.removeDirsIfThere h.workingDir p

/-- Removes a file; a missing one is fine. -/
def removeFile (h : Host) (p : Path) : Action (Option IoError) :=
  change (.removeFile p) fun t => t.removeFileIfThere h.workingDir p

/-- Writes a text file. -/
def writeText (h : Host) (p : Path) (text : String) : Action (Option IoError) :=
  change (.writeText p text) fun t =>
    match t.write h.workingDir p (Text.encode text) with
    | .ok written => (written, none)
    | .error e => (t, some e)

/-- The time a command took, with one digit after the point. -/
def elapsedText (d : Number.Duration) : String := d.seconds.textOnePlace

/-- How long a reply took. -/
def elapsedOf : Outcome → Number.Duration
  | .ok r => r.elapsed
  | .error _ => 0

/-- Sends a command to the host. -/
def send (h : Host) (c : Command) : Action Outcome := do
  let m ← get
  let reply := h.runner m.commands c m.tree
  set { m with
    tree := reply.tree
    log := m.log ++ Event.ran c :: reply.relayed.map fun (s, bytes) => Event.relayed s bytes
    clock := m.clock + elapsedOf reply.outcome }
  return reply.outcome

/-- Sends a command; a host that echoes shows it before and its exit code after. -/
def invoke (h : Host) (c : Command) : Action Outcome := do
  if h.echoes then
    say .err (h.style.dim "$" ++ " " ++ c.echo ++ " (in " ++ c.cwd.text ++ ")\n")
  let outcome ← send h c
  match outcome with
  | .ok r =>
    if h.echoes then
      say .err (h.style.dim "$" ++ " exit " ++ toString r.exitCode ++ " after " ++
        elapsedText r.elapsed ++ "s\n")
  | .error _ => pure ()
  return outcome

/-- Draws a spinner for a time; a host that echoes has none. -/
def spin (h : Host) (s : Spinner) (d : Number.Duration) : Action Unit :=
  match h.spinner with
  | some draw => if h.echoes then pure () else note (.drawn (draw s.message d))
  | none => pure ()

/-- Does something behind a spinner. -/
def behind {α : Type} (h : Host) (s : Spinner) (a : Action α) : Action α := do
  let before ← get
  let answer ← a
  let after ← get
  spin h s (after.clock - before.clock)
  return answer

end Action

end HostSuite
