import HostSuite.Number.Decimal

/-
  Values of a TOML document. The entries of a table keep the order in which they were written.
  A table remembers how it came about, because that decides what may be added to it later: one
  that is only implied by longer headers may still get a header of its own, one made by dotted
  keys may get more dotted keys, and one in braces is complete.
-/

namespace HostSuite.Toml

/-- How a table came about. -/
inductive Origin
  | header
  | implied
  | dotted
  | inline
  deriving DecidableEq, Repr

inductive Value
  | string (s : String)
  | integer (i : Int)
  | float (x : Number.Binary64)
  | boolean (b : Bool)
  | moment
  | array (items : List Value)
  | table (origin : Origin) (entries : List (String × Value))
  | tables (items : List (List (String × Value)))

abbrev Entries := List (String × Value)

namespace Entries

/-- The value of a key. -/
def get? (es : Entries) (key : String) : Option Value := es.lookup key

/-- The entries without a key. -/
def erase (es : Entries) (key : String) : Entries := es.filter fun e => e.1 != key

/-- The entries with another value for a key, in its place. -/
def replace (es : Entries) (key : String) (v : Value) : Entries :=
  es.map fun e => if e.1 = key then (key, v) else e

/-- A table of this origin may be passed through by keys that make tables of origin `maker`. -/
def passable (maker : Origin) : Origin → Bool
  | .inline => false
  | .header => maker != .dotted
  | _ => true

/-- Changes the table that a path of keys leads to from a table of origin `self`. Missing tables
on the way are made; an array of tables is passed through its last one; nothing else is a way. -/
def alter {α : Type} (maker : Origin) (change : Origin → Entries → Option (Entries × α))
    (self : Origin) : List String → Entries → Option (Entries × α)
  | [], es => change self es
  | key :: path, es =>
    match es.get? key with
    | none => (alter maker change maker path []).map fun r => (es ++ [(key, .table maker r.1)], r.2)
    | some (.table origin inner) =>
      if passable maker origin then
        (alter maker change origin path inner).map fun r =>
          (es.replace key (.table origin r.1), r.2)
      else none
    | some (.tables items) =>
      match items.getLast? with
      | some last =>
        (alter maker change .header path last).map fun r =>
          (es.replace key (.tables (items.dropLast ++ [r.1])), r.2)
      | none => none
    | some _ => none

/-- Adds a value for a key that has none yet. -/
def add (key : String) (v : Value) (es : Entries) : Option (Entries × Unit) :=
  match es.get? key with
  | none => some (es ++ [(key, v)], ())
  | some _ => none

/-- Adds a value at the end of a dotted key. The keys before the last lead only to tables made by
dotted keys, and the table a plain key goes to is not one of them. -/
def addDotted (self : Origin) (path : List String) (key : String) (v : Value) (es : Entries) :
    Option Entries :=
  let change (origin : Origin) (inner : Entries) : Option (Entries × Unit) :=
    if decide (origin = .dotted) = path.isEmpty then none else add key v inner
  (alter .dotted change self path es).map Prod.fst

end Entries

end HostSuite.Toml
