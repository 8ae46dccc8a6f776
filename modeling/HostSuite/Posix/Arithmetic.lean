import HostSuite.Number.Numeral

/-
  Integer expressions of scripts: names, numbers, parentheses, signs, and the operators of sums and
  products. Operators of one rank bind to the left. A name stands for the integer its value writes.
-/

namespace HostSuite.Posix

/-- The integer that a text writes, zero if none. -/
def integerOf (s : String) : Int :=
  let (negative, ds) := Number.takeSign s.toList
  let n : Int := Number.digitsValue (ds.takeWhile Number.isDigit)
  if negative then -n else n

inductive Arithmetic
  | number (n : Int)
  | name (s : String)
  | negative (a : Arithmetic)
  | joined (op : Char) (a b : Arithmetic)
  deriving Repr

namespace Arithmetic

/-- The ranks of the operators, the weakest first. -/
def ranks : List (List Char) := [['+', '-'], ['*', '/', '%']]

def isBlank (c : Char) : Bool := c = ' ' || c = '\t' || c = '\n'

mutual

/-- An expression of the operators of these ranks, and the rest. -/
def readRanks : Nat → List (List Char) → List Char → Option (Arithmetic × List Char)
  | 0, _, _ => none
  | fuel + 1, [], cs => readLeaf fuel (cs.dropWhile isBlank)
  | fuel + 1, ops :: weaker, cs => do
    let (first, rest) ← readRanks fuel weaker cs
    readMore fuel ops weaker first rest

/-- The operands that follow a first one. -/
def readMore : Nat → List Char → List (List Char) → Arithmetic → List Char →
    Option (Arithmetic × List Char)
  | 0, _, _, _, _ => none
  | fuel + 1, ops, weaker, first, cs =>
    match cs.dropWhile isBlank with
    | c :: rest =>
      if ops.contains c then do
        let (second, rest) ← readRanks fuel weaker rest
        readMore fuel ops weaker (.joined c first second) rest
      else some (first, c :: rest)
    | [] => some (first, [])

/-- A number, a name, a sign with its operand, or an expression in parentheses. -/
def readLeaf : Nat → List Char → Option (Arithmetic × List Char)
  | 0, _ => none
  | fuel + 1, cs =>
    match cs with
    | '-' :: rest => (readLeaf fuel (rest.dropWhile isBlank)).map fun r => (.negative r.1, r.2)
    | '+' :: rest => readLeaf fuel (rest.dropWhile isBlank)
    | '(' :: rest => do
      let (a, rest) ← readRanks fuel ranks rest
      match rest with
      | ')' :: rest => return (a, rest)
      | _ => none
    | '$' :: rest => readLeaf fuel rest
    | c :: _ =>
      let isNameChar (c : Char) : Bool := c.isAlphanum || c = '_'
      let (word, rest) := (cs.takeWhile isNameChar, cs.dropWhile isNameChar)
      if word.isEmpty then none
      else if Number.isDigit c then
        if word.all Number.isDigit then some (.number (Number.digitsValue word), rest) else none
      else some (.name (String.ofList word), rest)
    | [] => none

end

/-- Reads an expression; nothing at all is zero. -/
def read? (text : String) : Option Arithmetic :=
  let cs := text.toList
  if cs.all isBlank then some (.number 0)
  else
    match readRanks (4 * cs.length + 8) ranks cs with
    | some (a, []) => some a
    | _ => none

/-- The value, if no division by zero comes up. Quotients are cut toward zero. -/
def value? (valueOf : String → Int) : Arithmetic → Option Int
  | .number n => some n
  | .name s => some (valueOf s)
  | .negative a => (value? valueOf a).map (- ·)
  | .joined op a b => do
    let x ← value? valueOf a
    let y ← value? valueOf b
    match op with
    | '+' => return x + y
    | '-' => return x - y
    | '*' => return x * y
    | '/' => if y = 0 then none else return x.tdiv y
    | _ => if y = 0 then none else return x.tmod y

end Arithmetic

end HostSuite.Posix
