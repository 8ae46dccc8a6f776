import HostSuite.Number.Decimal

/-
  Numerals: digits, at most one point, at most one exponent, with at least one digit before or
  after the point; or one of the words for infinity and NaN in any case. A sign may stand in
  front. Nothing else, no blanks and no separators.
-/

namespace HostSuite.Number

def isDigit (c : Char) : Bool := '0' ≤ c && c ≤ '9'

def digitValue (c : Char) : Nat := c.toNat - '0'.toNat

/-- The natural that these digits write. -/
def digitsValue (ds : List Char) : Nat := ds.foldl (fun n c => 10 * n + digitValue c) 0

/-- Why a text is no number. -/
inductive NumeralFault
  | empty
  | invalid
  deriving DecidableEq, Repr

def NumeralFault.message : NumeralFault → String
  | .empty => "cannot parse float from empty string"
  | .invalid => "invalid float literal"

/-- A sign in front, if there is one. -/
def takeSign : List Char → Bool × List Char
  | '-' :: cs => (true, cs)
  | '+' :: cs => (false, cs)
  | cs => (false, cs)

/-- The exponent part: empty, or `e` with an optional sign and at least one digit. -/
def readExponent : List Char → Option Int
  | [] => some 0
  | c :: cs =>
    if c = 'e' || c = 'E' then
      let (negative, ds) := takeSign cs
      if ds.isEmpty || !ds.all isDigit then none
      else some (if negative then -(digitsValue ds : Int) else digitsValue ds)
    else none

/-- Digits, point, digits, exponent. -/
def readMagnitude (negative : Bool) (cs : List Char) : Option Decimal :=
  let whole := cs.takeWhile isDigit
  let rest := cs.dropWhile isDigit
  let (fraction, tail) :=
    match rest with
    | '.' :: r => (r.takeWhile isDigit, r.dropWhile isDigit)
    | _ => ([], rest)
  if whole.isEmpty && fraction.isEmpty then none
  else
    (readExponent tail).map fun e =>
      ⟨negative, digitsValue (whole ++ fraction), e - fraction.length⟩

def lowerAscii (c : Char) : Char := if 'A' ≤ c && c ≤ 'Z' then Char.ofNat (c.toNat + 32) else c

/-- Reads a numeral. -/
def readBinary64 (s : String) : Except NumeralFault Binary64 :=
  let cs := s.toList
  if cs.isEmpty then .error .empty
  else
    let (negative, body) := takeSign cs
    let word := String.ofList (body.map lowerAscii)
    if word = "inf" || word = "infinity" then .ok (.infinite negative)
    else if word = "nan" then .ok (.nan negative)
    else
      match readMagnitude negative body with
      | some d => .ok d.toBinary64
      | none => .error .invalid

end HostSuite.Number
