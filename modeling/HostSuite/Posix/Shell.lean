import HostSuite.Posix.Arithmetic
import HostSuite.Posix.Glob
import HostSuite.Posix.Process
import HostSuite.Posix.Script
import HostSuite.Text.Lines

/-
  The state of a shell and the use of words in it. Parameters that are not quoted are split at
  blanks, and what is left of a word with pattern characters is replaced by the paths that fit.
  What is printed goes to the place that the stream leads to: a stream of the shell, a file, or
  nowhere.
-/

namespace HostSuite.Posix

/-- Where a stream leads. -/
inductive Sink
  | stream (s : Stream)
  | file (p : Place)
  | nowhere
  deriving DecidableEq, Repr

structure Shell where
  tree : Tree
  cwd : Place
  params : List (String × String)
  exported : List String
  zero : String
  args : List String
  status : Nat := 0
  strict : Bool := false
  input : Text.Bytes := []
  out : Sink := .stream .out
  err : Sink := .stream .err
  printed : List (Stream × Text.Bytes) := []

/-- How a script goes on after a command. -/
inductive Flow
  | next
  | leave (code : Nat)
  | broken (levels : Nat)
  | continued (levels : Nat)
  | killed (signal : Nat)
  deriving DecidableEq, Repr

namespace Shell

/-- The number of the process, as scripts see it. -/
def ownNumber : String := "4242"

/-- The place where nothing is kept. -/
def nullDevice : Place := ["dev", "null"]

def sink (s : Shell) : Stream → Sink
  | .out => s.out
  | .err => s.err

/-- Prints bytes to a sink. -/
def emitTo (s : Shell) (bytes : Text.Bytes) : Sink → Shell
  | .stream t => { s with printed := s.printed ++ [(t, bytes)] }
  | .nowhere => s
  | .file p =>
    match s.tree.lookup p with
    | some (.file content mode) => { s with tree := s.tree.set p (.file (content ++ bytes) mode) }
    | _ => s

def emit (s : Shell) (t : Stream) (bytes : Text.Bytes) : Shell := s.emitTo bytes (s.sink t)

def say (s : Shell) (t : Stream) (text : String) : Shell := s.emit t (Text.encode text)

/-- Prints what a child printed. -/
def relay (s : Shell) (printed : List (Stream × Text.Bytes)) : Shell :=
  printed.foldl (fun s (t, bytes) => s.emit t bytes) s

/-- Prints a complaint of the shell. -/
def complain (s : Shell) (line : Nat) (text : String) : Shell :=
  s.say .err (s.zero ++ ": " ++ toString line ++ ": " ++ text ++ "\n")

def ended (s : Shell) (code : Nat) : Shell := { s with status := code }

def param? (s : Shell) (name : String) : Option String :=
  match name with
  | "*" => some (" ".intercalate s.args)
  | "@" => some (" ".intercalate s.args)
  | "#" => some (toString s.args.length)
  | "?" => some (toString s.status)
  | "$" => some ownNumber
  | "0" => some s.zero
  | "PWD" => some (Path.ofPlace s.cwd).text
  | _ =>
    match name.toNat? with
    | some n => if n = 0 then none else s.args[n - 1]?
    | none => s.params.lookup name

def setParam (s : Shell) (name value : String) : Shell :=
  { s with params := (name, value) :: s.params.filter (·.1 ≠ name) }

/-- The environment that a child gets. -/
def environment (s : Shell) : List (String × String) :=
  s.params.filter fun e => s.exported.contains e.1

/-! Words -/

/-- Pieces of a word in use: a character, how it came about, or a mark between fields. -/
inductive Atom
  | char (c : Char) (quoted split : Bool)
  | empty
  | gap
  deriving DecidableEq, Repr

/-- The pieces of a value. A quoted one is a field even if it is empty. -/
def atomsOf (value : String) (quoted split : Bool) : List Atom :=
  let cs := value.toList.map fun c => Atom.char c quoted split
  if quoted then .empty :: cs else cs

/-- The characters of a pattern with whether each one is quoted. -/
def patternChars (atoms : List Atom) : List (Char × Bool) :=
  atoms.filterMap fun
    | .char c q _ => some (c, q)
    | _ => none

/-- The first cut of a list at which `fits` holds of what is taken off. -/
def cutWhere (cuts : List Nat) (fits : Nat → Bool) : Option Nat := cuts.find? fits

/-- The value without what a pattern takes off. -/
def trimValue (how : Trimming) (pattern : List Glob) (value : String) : String :=
  let cs := value.toList
  let n := cs.length
  let upwards := List.range (n + 1)
  match how with
  | .shortFront => front cs (cutWhere upwards fun k => Glob.fits pattern (cs.take k))
  | .longFront => front cs (cutWhere upwards.reverse fun k => Glob.fits pattern (cs.take k))
  | .shortBack => back cs (cutWhere upwards.reverse fun k => Glob.fits pattern (cs.drop k))
  | .longBack => back cs (cutWhere upwards fun k => Glob.fits pattern (cs.drop k))
where
  front (cs : List Char) (k : Option Nat) : String := String.ofList (cs.drop (k.getD 0))
  back (cs : List Char) (k : Option Nat) : String := String.ofList (cs.take (k.getD cs.length))

/-- Each argument as a field of its own. -/
def argumentAtoms (args : List String) : List Atom :=
  (args.map fun a => atomsOf a true false).intersperse [.gap] |>.flatten

/-- Runs the text of a command and gives what it printed. -/
abbrev Capture := String → StateM Shell String

mutual

/-- The pieces of one part. -/
def partAtoms (capture : Capture) : Part → StateM Shell (List Atom)
  | .text t quoted => return atomsOf t quoted false
  | .param name quoted => do
    let s ← get
    if name = "@" && quoted then return argumentAtoms s.args
    else return atomsOf ((s.param? name).getD "") quoted !quoted
  | .size name quoted => do
    let s ← get
    return atomsOf (toString ((s.param? name).getD "").length) quoted !quoted
  | .trimmed name how pattern quoted => do
    let atoms ← phraseAtoms capture pattern
    let s ← get
    let value := trimValue how (Glob.read (patternChars atoms)) ((s.param? name).getD "")
    return atomsOf value quoted !quoted
  | .instead name use emptyCounts word quoted => do
    let s ← get
    let present :=
      match s.param? name with
      | some v => !(emptyCounts && v = "")
      | none => false
    match use, present with
    | .whenMissing, true => return atomsOf ((s.param? name).getD "") quoted !quoted
    | .whenPresent, false => return atomsOf "" quoted false
    | _, _ => phraseAtoms capture word
  | .output source quoted => return atomsOf (← capture source) quoted !quoted
  | .computed expression quoted => do
    let s ← get
    let valueOf (name : String) : Int := integerOf ((s.param? name).getD "")
    let value := (Arithmetic.read? expression).bind (Arithmetic.value? valueOf)
    return atomsOf ((value.map toString).getD "") quoted !quoted

/-- The pieces of a word. -/
def phraseAtoms (capture : Capture) : List Part → StateM Shell (List Atom)
  | [] => return []
  | p :: ps => do
    let first ← partAtoms capture p
    let rest ← phraseAtoms capture ps
    return first ++ rest

end

/-- One field: its characters with whether each one is quoted. -/
abbrev Lettering := List (Char × Bool)

/-- The fields of pieces; `begun` is the field that is open. -/
def fieldsFrom (begun : Option Lettering) : List Atom → List Lettering
  | [] => begun.toList
  | .gap :: rest => begun.toList ++ fieldsFrom none rest
  | .empty :: rest => fieldsFrom (some (begun.getD [])) rest
  | .char c quoted split :: rest =>
    if split && (c = ' ' || c = '\t' || c = '\n') then begun.toList ++ fieldsFrom none rest
    else fieldsFrom (some (begun.getD [] ++ [(c, quoted)])) rest

def plainText (l : Lettering) : String := String.ofList (l.map Prod.fst)

/-- The field holds a pattern character. -/
def isPattern (l : Lettering) : Bool :=
  l.any fun (c, quoted) => !quoted && (c = '*' || c = '?' || c = '[')

/-- The parts of a field between slashes. -/
def slashParts : Lettering → List Lettering
  | [] => [[]]
  | (c, quoted) :: rest =>
    if c = '/' then [] :: slashParts rest
    else
      match slashParts rest with
      | [] => [[(c, quoted)]]
      | p :: ps => ((c, quoted) :: p) :: ps

/-- The paths that fit the parts of a pattern after the path `before`. -/
def fitting (t : Tree) (cwd : Place) : String → List Lettering → List String
  | before, [] => [before]
  | before, part :: rest =>
    let last := rest.isEmpty
    let names :=
      if isPattern part then
        let dir : Path := ⟨if before = "" then "." else before⟩
        ((t.list cwd dir).toOption.getD []).filter fun n =>
          Glob.fits (Glob.read part) n.toList &&
            (n.toList.head? ≠ some '.' || part.head?.map Prod.fst = some '.')
      else [plainText part]
    names.flatMap fun n =>
      let path := before ++ n
      if last then
        if isPattern part || (t.find cwd ⟨path⟩ false).isOk then [path] else []
      else fitting t cwd (path ++ "/") rest

/-- A field, or the paths it stands for. -/
def spread (t : Tree) (cwd : Place) (l : Lettering) : List String :=
  if isPattern l then
    match fitting t cwd "" (slashParts l) with
    | [] => [plainText l]
    | paths => paths
  else [plainText l]

/-- The fields of a word. -/
def fields (capture : Capture) (p : Phrase) : StateM Shell (List String) := do
  let atoms ← phraseAtoms capture p
  let s ← get
  return (fieldsFrom none atoms).flatMap (spread s.tree s.cwd)

/-- The fields of words. -/
def allFields (capture : Capture) : List Phrase → StateM Shell (List String)
  | [] => return []
  | p :: ps => do
    let first ← fields capture p
    let rest ← allFields capture ps
    return first ++ rest

/-- A word as one text. -/
def textOf (capture : Capture) (p : Phrase) : StateM Shell String := do
  let atoms ← phraseAtoms capture p
  return String.ofList (atoms.filterMap fun
    | .char c _ _ => some c
    | .gap => some ' '
    | .empty => none)

/-- A word as a pattern. -/
def globOf (capture : Capture) (p : Phrase) : StateM Shell (List Glob) := do
  return Glob.read (patternChars (← phraseAtoms capture p))

/-! Redirections -/

/-- Leads a stream elsewhere; the reason if that is not possible. -/
def leadTo (s : Shell) (number : Nat) (k : Sink) : Shell :=
  if number = 1 then { s with out := k } else if number = 2 then { s with err := k } else s

/-- Opens a file for writing. -/
def openFile (s : Shell) (keep : Bool) (p : Path) : Except IoError (Shell × Sink) :=
  match s.tree.resolve s.cwd p with
  | .error e => .error e
  | .ok place =>
    if place = nullDevice then .ok (s, .nowhere)
    else
      let old := ((s.tree.read s.cwd p).toOption).getD []
      match s.tree.write s.cwd p (if keep then old else []) with
      | .ok t => .ok ({ s with tree := t }, .file place)
      | .error e => .error e

/-- What the shell says about a file it cannot open. -/
def reasonText : IoError → String
  | .noEntry => "Directory nonexistent"
  | .isDirectory => "Is a directory"
  | .permissionDenied => "Permission denied"
  | .notDirectory => "Directory nonexistent"
  | _ => "Error"

/-- Carries one redirection out; a complaint if that fails. -/
def redirect (s : Shell) (r : Redirect) (target : String) : Except String Shell :=
  match r.leading with
  | .same =>
    if target = "1" then .ok (s.leadTo r.number s.out)
    else if target = "2" then .ok (s.leadTo r.number s.err)
    else if target = "-" then .ok (s.leadTo r.number .nowhere)
    else .error (target ++ ": bad file descriptor")
  | .read =>
    if s.tree.resolve s.cwd ⟨target⟩ |>.toOption |>.any (· = nullDevice) then
      .ok { s with input := [] }
    else
      match s.tree.read s.cwd ⟨target⟩ with
      | .ok bytes => .ok { s with input := bytes }
      | .error _ => .error ("cannot open " ++ target ++ ": No such file")
  | .write => opened s r.number (s.openFile false ⟨target⟩) target
  | .append => opened s r.number (s.openFile true ⟨target⟩) target
where
  opened (_ : Shell) (number : Nat) (r : Except IoError (Shell × Sink)) (target : String) :
      Except String Shell :=
    match r with
    | .ok (s, k) => .ok (s.leadTo number k)
    | .error e => .error ("cannot create " ++ target ++ ": " ++ reasonText e)

/-- Carries redirections out in order. -/
def redirectAll (capture : Capture) : List Redirect → Shell → Except (Shell × String) Shell
  | [], s => .ok s
  | r :: rs, s =>
    let (target, s) := (textOf capture r.target).run s
    match s.redirect r target with
    | .ok s => redirectAll capture rs s
    | .error text => .error (s, text)

/-- The shell `t` after a command with some redirections, with the streams of `s` before it. -/
def restoring (redirects : List Redirect) (s t : Shell) : Shell :=
  let input := if redirects.any Redirect.feeds then s.input else t.input
  { t with out := s.out, err := s.err, input := input }

end Shell

end HostSuite.Posix
