import HostSuite.Toml.Scalar

/-
  Whole documents. Values nest by a depth: an array or a table in braces has values one level
  down, at level zero only scalars are left. A document is read line by line into a draft: the
  finished tables, and the table whose header was read last, kept apart until the next header
  puts it in its place. A header may name a table that is so far only implied; every other
  second definition is refused.
-/

namespace HostSuite.Toml

/-- How deep arrays and tables in braces may nest. -/
def maxDepth : Nat := 79

/-- How many parts a dotted key may have. -/
def maxKeyParts : Nat := 79

/-! Keys -/

def isKeyChar (c : Char) : Bool :=
  ('A' ≤ c && c ≤ 'Z') || ('a' ≤ c && c ≤ 'z') || Number.isDigit c || c = '_' || c = '-'

/-- One part of a key: bare, or a string on one line. -/
def keyPart (cs : List Char) : Reading String :=
  match cs with
  | '"' :: rest => (basicString rest).map fun r => (String.ofList r.1, r.2)
  | '\'' :: rest => (literalString rest).map fun r => (String.ofList r.1, r.2)
  | _ =>
    let bare := cs.takeWhile isKeyChar
    if bare.isEmpty then none else some (String.ofList bare, cs.dropWhile isKeyChar)

/-- The parts of a key, with their number bounded. -/
def keyParts : Nat → List Char → Reading (List String)
  | 0, _ => none
  | more + 1, cs =>
    match keyPart (skipSpace cs) with
    | none => none
    | some (part, rest) =>
      match skipSpace rest with
      | '.' :: rest => (keyParts more rest).map fun r => (part :: r.1, r.2)
      | rest => some ([part], rest)

/-- A key: the parts before the last, and the last. -/
def key (cs : List Char) : Reading (List String × String) :=
  (keyParts maxKeyParts cs).bind fun (parts, rest) =>
    parts.getLast?.map fun last => ((parts.dropLast, last), rest)

/-! Values -/

/-- The rest after spaces, line ends and comments; a comment needs its line end. -/
def skipFiller : Nat → List Char → Option (List Char)
  | 0, cs => some cs
  | fuel + 1, cs =>
    match skipSpace cs with
    | '#' :: rest => (newline? (skipComment ('#' :: rest))).bind (skipFiller fuel)
    | '\n' :: rest => skipFiller fuel rest
    | '\r' :: rest => (newline? ('\r' :: rest)).bind (skipFiller fuel)
    | rest => some rest

def filler (cs : List Char) : Option (List Char) := skipFiller cs.length cs

/-- Reads one value. -/
abbrev ValueReader := List Char → Reading Value

/-- The values of an array up to its closing bracket. -/
def arrayItems (read : ValueReader) : Nat → List Char → Reading (List Value)
  | 0, _ => none
  | fuel + 1, cs =>
    match filler cs with
    | none => none
    | some (']' :: rest) => some ([], rest)
    | some cs =>
      match read cs with
      | none => none
      | some (v, rest) =>
        match filler rest with
        | some (',' :: rest) => (arrayItems read fuel rest).map fun r => (v :: r.1, r.2)
        | some (']' :: rest) => some ([v], rest)
        | _ => none

/-- A key, an equals sign and a value. -/
def keyValue (read : ValueReader) (cs : List Char) : Reading ((List String × String) × Value) :=
  match key cs with
  | some (k, '=' :: rest) => (read (skipSpace rest)).map fun r => ((k, r.1), r.2)
  | _ => none

/-- The entries of a table in braces up to the closing one. -/
def braceEntries (read : ValueReader) : Nat → Entries → List Char → Reading Entries
  | 0, _, _ => none
  | fuel + 1, es, cs =>
    match keyValue read cs with
    | none => none
    | some (((path, last), v), rest) =>
      match es.addDotted .inline path last v, skipSpace rest with
      | some es, ',' :: rest => braceEntries read fuel es rest
      | some es, '}' :: rest => some (es, rest)
      | _, _ => none

/-- A table in braces, after the opening one. -/
def braceTable (read : ValueReader) (cs : List Char) : Reading Entries :=
  match skipSpace cs with
  | '}' :: rest => some ([], rest)
  | _ => braceEntries read cs.length [] cs

/-- A value that holds no others. -/
def scalar (cs : List Char) : Reading Value :=
  match cs with
  | 't' :: 'r' :: 'u' :: 'e' :: rest => some (.boolean true, rest)
  | 'f' :: 'a' :: 'l' :: 's' :: 'e' :: rest => some (.boolean false, rest)
  | '"' :: _ => (stringValue cs).map fun r => (.string r.1, r.2)
  | '\'' :: _ => (stringValue cs).map fun r => (.string r.1, r.2)
  | _ => numberOrMoment cs

/-- A value with others in it to a depth. -/
def value : Nat → ValueReader
  | 0, cs => scalar cs
  | depth + 1, cs =>
    match cs with
    | '[' :: rest => (arrayItems (value depth) cs.length rest).map fun r => (.array r.1, r.2)
    | '\x7b' :: rest =>
      (braceTable (value depth) rest).map fun r => (.table .inline r.1, r.2)
    | _ => scalar cs

/-! Documents -/

/-- Where the table that is being written goes. -/
inductive Seat
  | top
  | table (path : List String) (key : String)
  | item (path : List String) (key : String)
  deriving DecidableEq, Repr

/-- The finished tables, and the one that is being written. -/
structure Draft where
  done : Entries := []
  seat : Seat := .top
  current : Entries := []

namespace Draft

/-- Adds a table at the end of an array of tables, which may be new. -/
def pushItem (key : String) (item : Entries) (es : Entries) : Option (Entries × Unit) :=
  match es.get? key with
  | none => some (es ++ [(key, .tables [item])], ())
  | some (.tables items) => some (es.replace key (.tables (items ++ [item])), ())
  | some _ => none

/-- Puts the table that is being written in its place. -/
def settle (d : Draft) : Option Entries :=
  match d.seat with
  | .top => some d.current
  | .table path key =>
    (d.done.alter .implied (fun _ => Entries.add key (.table .header d.current)) .header path).map
      Prod.fst
  | .item path key =>
    (d.done.alter .implied (fun _ => pushItem key d.current) .header path).map Prod.fst

/-- Takes out a table that is only implied, or nothing where there is nothing. -/
def takeImplied (key : String) (es : Entries) : Option (Entries × Entries) :=
  match es.get? key with
  | none => some (es, [])
  | some (.table .implied inner) => some (es.erase key, inner)
  | some _ => none

/-- Makes sure that a key has an array of tables. -/
def openItems (key : String) (es : Entries) : Option (Entries × Unit) :=
  match es.get? key with
  | none => some (es ++ [(key, .tables [])], ())
  | some (.tables _) => some (es, ())
  | some _ => none

/-- The draft after the header of a table. -/
def openTable (d : Draft) (path : List String) (key : String) : Option Draft :=
  d.settle.bind fun done =>
    (done.alter .implied (fun _ => takeImplied key) .header path).map fun (done, inner) =>
      ⟨done, .table path key, inner⟩

/-- The draft after the header of an item of an array of tables. -/
def openItem (d : Draft) (path : List String) (key : String) : Option Draft :=
  d.settle.bind fun done =>
    (done.alter .implied (fun _ => openItems key) .header path).map fun (done, _) =>
      ⟨done, .item path key, []⟩

/-- The draft after a key and its value. -/
def addKeyValue (d : Draft) (path : List String) (key : String) (v : Value) : Option Draft :=
  (d.current.addDotted .header path key v).map fun es => ⟨d.done, d.seat, es⟩

/-- Reads one line. -/
def readLine (d : Draft) (cs : List Char) : Reading Draft :=
  match cs with
  | '[' :: '[' :: rest =>
    match key rest with
    | some ((path, last), ']' :: ']' :: rest) =>
      (lineEnd? rest).bind fun rest => (d.openItem path last).map (·, rest)
    | _ => none
  | '[' :: rest =>
    match key rest with
    | some ((path, last), ']' :: rest) =>
      (lineEnd? rest).bind fun rest => (d.openTable path last).map (·, rest)
    | _ => none
  | '#' :: _ => (lineEnd? cs).map (d, ·)
  | '\n' :: _ => (newline? cs).map (d, ·)
  | '\r' :: _ => (newline? cs).map (d, ·)
  | _ =>
    match keyValue (value maxDepth) cs with
    | some (((path, last), v), rest) =>
      (lineEnd? rest).bind fun rest => (d.addKeyValue path last v).map (·, rest)
    | none => none

/-- Reads lines up to the end of the text. -/
def readLines : Nat → Draft → List Char → Option Entries
  | 0, _, _ => none
  | fuel + 1, d, cs =>
    match skipSpace cs with
    | [] => d.settle
    | cs =>
      match d.readLine cs with
      | some (d, rest) => readLines fuel d rest
      | none => none

end Draft

/-- The mark that may stand before a text. -/
def byteOrderMark : Char := '\ufeff'

/-- Reads a document. -/
def document? (text : String) : Option Entries :=
  let cs := text.toList
  let body := if cs.head? = some byteOrderMark then cs.tail else cs
  Draft.readLines (body.length + 1) {} body

end HostSuite.Toml
