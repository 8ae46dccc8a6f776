import HostSuite.Posix.Glob
import HostSuite.Text.Lines

/-
  Substitutions in lines. A pattern is a row of items, each of which stands for one character or,
  with a star, for any number of them; it may be bound to the start and the end of the line. The
  leftmost occurrence counts, and at one place the longest one.
-/

namespace HostSuite.Posix

/-- One character of a pattern, maybe any number of times. -/
structure RegexItem where
  one : Glob
  starred : Bool
  deriving DecidableEq, Repr

structure Regex where
  atStart : Bool
  items : List RegexItem
  atEnd : Bool
  deriving DecidableEq, Repr

namespace Regex

/-- The item in front of a text, without a star after it. -/
def item? : List Char → Option (Glob × List Char)
  | [] => none
  | '\\' :: 'n' :: rest => some (.one '\n', rest)
  | '\\' :: c :: rest => some (.one c, rest)
  | '.' :: rest => some (.anyOne, rest)
  | '[' :: rest =>
    match Glob.bracket? (rest.map (·, false)) with
    | some (g, rest) => some (g, rest.map Prod.fst)
    | none => some (.one '[', rest)
  | c :: rest => some (.one c, rest)

def readItems : Nat → List Char → List RegexItem × Bool
  | 0, _ => ([], false)
  | _, ['$'] => ([], true)
  | fuel + 1, cs =>
    match item? cs with
    | none => ([], false)
    | some (g, '*' :: rest) =>
      let (more, ended) := readItems fuel rest
      (⟨g, true⟩ :: more, ended)
    | some (g, rest) =>
      let (more, ended) := readItems fuel rest
      (⟨g, false⟩ :: more, ended)

/-- Reads a pattern. -/
def read (cs : List Char) : Regex :=
  let (atStart, body) :=
    match cs with
    | '^' :: rest => (true, rest)
    | _ => (false, cs)
  let (is, atEnd) := readItems (body.length + 1) body
  ⟨atStart, is, atEnd⟩

/-- How many characters in front the items stand for, as many as possible. -/
def matchItems (atEnd : Bool) : List RegexItem → List Char → Option Nat
  | [], cs => if atEnd && !cs.isEmpty then none else some 0
  | ⟨g, false⟩ :: is, c :: cs =>
    if g.admits c then (matchItems atEnd is cs).map (· + 1) else none
  | ⟨_, false⟩ :: _, [] => none
  | ⟨_, true⟩ :: is, [] => matchItems atEnd is []
  | ⟨g, true⟩ :: is, c :: cs =>
    if g.admits c then
      match matchItems atEnd (⟨g, true⟩ :: is) cs with
      | some n => some (n + 1)
      | none => matchItems atEnd is (c :: cs)
    else matchItems atEnd is (c :: cs)
termination_by is cs => is.length + cs.length

/-- What takes the place of an occurrence; an ampersand stands for the occurrence. -/
def replacement (found : List Char) : List Char → List Char
  | [] => []
  | '\\' :: 'n' :: rest => '\n' :: replacement found rest
  | '\\' :: c :: rest => c :: replacement found rest
  | '&' :: rest => found ++ replacement found rest
  | c :: rest => c :: replacement found rest

/-- Substitutes from here on; `start` says that the line starts here. -/
def substitute (r : Regex) (by' : List Char) (all : Bool) (start : Bool) : List Char → List Char
  | [] =>
    match if r.atStart && !start then none else matchItems r.atEnd r.items [] with
    | some _ => replacement [] by'
    | none => []
  | c :: cs =>
    match if r.atStart && !start then none else matchItems r.atEnd r.items (c :: cs) with
    | none => c :: substitute r by' all false cs
    | some 0 =>
      replacement [] by' ++ c :: (if all then substitute r by' all false cs else cs)
    | some (n + 1) =>
      let rest := cs.drop n
      replacement (c :: cs.take n) by' ++
        (if all && !rest.isEmpty then substitute r by' all false rest else rest)
termination_by cs => cs.length

end Regex

/-- A substitution as it is written: the letter, then pattern, replacement and flags between
marks. -/
def readSubstitution? : List Char → Option (Regex × List Char × Bool)
  | 's' :: mark :: rest =>
    match cut mark rest with
    | some (pattern, rest) =>
      match cut mark rest with
      | some (by', flags) => some (Regex.read pattern, by', flags.contains 'g')
      | none => none
    | none => none
  | _ => none
where
  /-- The text up to a mark; a mark after a backslash is part of the text. -/
  cut (mark : Char) : List Char → Option (List Char × List Char)
    | [] => none
    | '\\' :: c :: rest =>
      (cut mark rest).map fun r => ((if c = mark then [c] else ['\\', c]) ++ r.1, r.2)
    | c :: rest =>
    if c = mark then some ([], rest) else (cut mark rest).map fun r => (c :: r.1, r.2)

end HostSuite.Posix
