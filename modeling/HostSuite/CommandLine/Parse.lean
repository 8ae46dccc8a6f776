import HostSuite.CommandLine.Options

/-
  Reading a command line. On each level the words are taken in order. An option that was written
  without an equals sign waits for its value, and a value is only checked when the next option is
  acted on or the level ends; a word that is unknown is reported before that. The level after the
  command word is finished before the level in front of it. A shared option holds for both levels,
  and for the root the level after the command word wins over the one before it, and both win over
  the environment.
-/

namespace HostSuite.CommandLine

/-- What one level has set. -/
structure Settings where
  root : Option String := none
  verbose : Bool := false
  noColor : Bool := false
  clean : Bool := false
  keepGoing : Bool := false
  openPage : Bool := false
  failUnder : Option Number.Binary64 := none
  projects : List String := []
  deriving DecidableEq, Repr

namespace Settings

/-- A root directory has a name. -/
def readRoot (v : String) : Except Refusal String :=
  if v = "" then .error (.valueMissing .root) else .ok v

def readPercent (v : String) : Except Refusal Number.Binary64 :=
  (Number.readBinary64 v).mapError (Refusal.badValue v .failUnder)

/-- Sets a flag that is not set yet. -/
def setFlag (o : Opt) (old : Bool) (s : Settings) : Except Refusal Settings :=
  if old then .error (.repeated o) else .ok s

/-- Acts on an option without a value; two of them show something at once. -/
def flag (l : Level) (s : Settings) (o : Opt) : Except Refusal Settings :=
  match o with
  | .verbose => setFlag o s.verbose { s with verbose := true }
  | .noColor => setFlag o s.noColor { s with noColor := true }
  | .clean => setFlag o s.clean { s with clean := true }
  | .keepGoing => setFlag o s.keepGoing { s with keepGoing := true }
  | .openPage => setFlag o s.openPage { s with openPage := true }
  | .help => .error (.showHelp l)
  | .version => .error (.showVersion l)
  | _ => .error (.valueMissing o)

/-- Acts on an option with its value. -/
def value (s : Settings) (o : Opt) (v : String) : Except Refusal Settings :=
  match o with
  | .project => .ok { s with projects := s.projects ++ [v] }
  | .root =>
    if s.root.isSome then .error (.repeated o)
    else (readRoot v).map fun r => { s with root := some r }
  | .failUnder =>
    if s.failUnder.isSome then .error (.repeated o)
    else (readPercent v).map fun x => { s with failUnder := some x }
  | _ => .error (.valueNotTaken v o)

end Settings

/-- An option whose value is still to come, or has come but is not yet acted on. -/
inductive Pending
  | nothing
  | awaiting (o : Opt)
  | held (o : Opt) (value : String)
  deriving DecidableEq, Repr

/-- A level while it is read. -/
structure Reader where
  level : Level
  settings : Settings := {}
  pending : Pending := .nothing
  deriving DecidableEq, Repr

namespace Reader

/-- Acts on what is pending. -/
def settle (r : Reader) : Except Refusal Settings :=
  match r.pending with
  | .nothing => .ok r.settings
  | .awaiting o => .error (.valueMissing o)
  | .held o v => r.settings.value o v

def isAwaiting (r : Reader) : Bool :=
  match r.pending with
  | .awaiting _ => true
  | _ => false

/-- The level with settings and nothing pending. -/
def settled (r : Reader) (s : Settings) : Reader := ⟨r.level, s, .nothing⟩

def actFlag (r : Reader) (o : Opt) : Except Refusal Reader := do
  let s ← r.settle
  return r.settled (← s.flag r.level o)

def actValue (r : Reader) (o : Opt) (v : String) : Except Refusal Reader := do
  let s ← r.settle
  return r.settled (← s.value o v)

/-- Waits for the value of an option. -/
def await (r : Reader) (o : Opt) : Except Refusal Reader := do
  let s ← r.settle
  return ⟨r.level, s, .awaiting o⟩

/-- A name of an option up to the first equals sign, and what follows that. -/
def cutAtEquals (cs : List Char) : String × Option String :=
  let name := String.ofList (cs.takeWhile (· ≠ '='))
  match cs.dropWhile (· ≠ '=') with
  | _ :: v => (name, some (String.ofList v))
  | [] => (name, none)

/-- Reads a word in two dashes; `cs` is what follows them. -/
def long (r : Reader) (cs : List Char) : Except Refusal Reader :=
  let (name, v?) := cutAtEquals cs
  match r.level.options.find? (·.long = name) with
  | none => .error (.unknownArgument ("--" ++ name))
  | some o =>
    match o.takesValue, v? with
    | true, some v => r.actValue o v
    | true, none => r.await o
    | false, some v => .error (.valueNotTaken v o)
    | false, none => r.actFlag o

/-- What follows a letter of an option that takes a value; an equals sign in front is dropped. -/
def attached? : List Char → Option String
  | [] => none
  | '=' :: cs => some (String.ofList cs)
  | cs => some (String.ofList cs)

/-- Reads the letters after one dash. -/
def short (r : Reader) : List Char → Except Refusal Reader
  | [] => .ok r
  | c :: cs =>
    match r.level.options.find? (·.short? = some c) with
    | none => .error (.unknownArgument (String.ofList ['-', c]))
    | some o =>
      if o.takesValue then
        match attached? cs with
        | some v => r.actValue o v
        | none => r.await o
      else
        match r.actFlag o with
        | .ok r => short r cs
        | .error e => .error e

/-- Any other word: the value that is awaited, or nothing that belongs here. -/
def plain (r : Reader) (word : String) : Except Refusal Reader :=
  match r.pending with
  | .awaiting o => .ok ⟨r.level, r.settings, .held o word⟩
  | _ =>
    match r.level with
    | .top => .error (.unknownCommand word)
    | .under _ => .error (.unknownArgument word)

/-- Reads one word that is no command. -/
def word (r : Reader) (w : String) : Except Refusal Reader :=
  match w.toList with
  | '-' :: '-' :: cs => r.long cs
  | '-' :: c :: cs => r.short (c :: cs)
  | _ => r.plain w

end Reader

/-- The word can stand in the place of the command. -/
def isCommandWord (w : String) : Bool := (Word.ofText? w).isSome || w = helpWord

/-- What the words after the one that asks for help ask for. -/
def helpFor : List String → Refusal
  | [] => .showHelp .top
  | w :: rest =>
    match Word.ofText? w, rest with
    | some c, [] => .showHelp (.under c)
    | some _, x :: _ => .unknownCommand x
    | none, [] => if w = helpWord then .showHelpOfHelp else .unknownCommand w
    | none, x :: _ => .unknownCommand (if w = helpWord then x else w)

/-- After two dashes alone nothing may follow. -/
def afterDashes (l : Level) : List String → Except Refusal Unit
  | [] => .ok ()
  | w :: _ =>
    match l with
    | .top => .error (if isCommandWord w then .unknownArgument w else .unknownCommand w)
    | .under _ => .error (.unknownArgument w)

/-- Reads the words in front of the command, the command word and those after it. -/
def readTop (r : Reader) : List String → Except Refusal (Reader × Option (Word × List String))
  | [] => .ok (r, none)
  | w :: rest =>
    if !r.isAwaiting && w = helpWord then .error (helpFor rest)
    else
      match if r.isAwaiting then none else Word.ofText? w with
      | some c => .ok (r, some (c, rest))
      | none =>
        if w = "--" then (afterDashes r.level rest).map fun _ => (r, none)
        else
          match r.word w with
          | .ok r => readTop r rest
          | .error e => .error e

/-- Reads the words after the command. -/
def readUnder (r : Reader) : List String → Except Refusal Reader
  | [] => .ok r
  | w :: rest =>
    if w = "--" then (afterDashes r.level rest).map fun _ => r
    else
      match r.word w with
      | .ok r => readUnder r rest
      | .error e => .error e

/-- A level without a root takes the one of the environment, which has to have a name too. -/
def checkEnvironment (s : Settings) (environment : Option String) : Except Refusal Unit :=
  match s.root, environment with
  | none, some v => (Settings.readRoot v).map fun _ => ()
  | _, _ => .ok ()

/-- Finishes a level. -/
def finish (r : Reader) (environment : Option String) : Except Refusal Settings := do
  let s ← r.settle
  checkEnvironment s environment
  return s

def Word.request (s : Settings) : Word → Request
  | .test => .test ⟨s.clean, s.keepGoing⟩
  | .coverage => .coverage ⟨s.openPage, s.failUnder⟩
  | .run => .run ⟨s.clean, s.keepGoing⟩ ⟨s.openPage, s.failUnder⟩

/-- Both levels together. -/
def ofLevels (environment : Option String) (top sub : Settings) (w : Word) : CommandLine where
  root := sub.root <|> top.root <|> environment
  verbose := top.verbose || sub.verbose
  noColor := top.noColor || sub.noColor
  projects := sub.projects
  request := w.request sub

/-- Reads the words of a command line; `environment` is the root that the environment gives. -/
def parse (words : List String) (environment : Option String) : Except Refusal CommandLine := do
  let (r, command) ← readTop ⟨.top, {}, .nothing⟩ words
  match command with
  | none => do
    let s ← finish r environment
    if s = {} && environment.isNone then throw .nothingAsked else throw .noCommand
  | some (w, rest) => do
    let under ← readUnder ⟨.under w, {}, .nothing⟩ rest
    let sub ← finish under environment
    let top ← finish r environment
    return ofLevels environment top sub w

end HostSuite.CommandLine
