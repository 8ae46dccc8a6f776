import HostSuite.Number.Binary64

/-
  Decimal text of a binary64 number.
  Reading: a numeral is a natural times a power of ten; the nearest number to it is taken.
  Shortest: among the decimals that read back as the number, those on the coarsest grid
  `10^p` are the shortest; of these the nearest is written, the upper one of two equally near.
  Fixed: one digit after the point, a half to the even neighbour.
  All texts are positional, however long that makes them.
-/

namespace HostSuite.Number

open Binary64

/-- A signed natural times a power of ten. -/
structure Decimal where
  negative : Bool
  digits : Nat
  exponent : Int
  deriving DecidableEq, Repr

/-- A power of ten. -/
def tenTo (k : Nat) : Nat := Nat.pow 10 k

/-- How many decimal digits a natural has; zero has none. -/
def digitCount (n : Nat) : Nat := if n = 0 then 0 else (Nat.toDigits 10 n).length

namespace Decimal

/-- The nearest binary64 number. Magnitudes far outside the range are decided by their size, so
that no huge power is computed. -/
def toBinary64 (d : Decimal) : Binary64 :=
  let size : Int := digitCount d.digits + d.exponent
  if d.digits = 0 || size < -400 then .finite d.negative 0
  else if 400 < size then .infinite d.negative
  else if 0 ≤ d.exponent then ofRatio d.negative (d.digits * tenTo d.exponent.toNat) 1
  else ofRatio d.negative d.digits (tenTo d.exponent.natAbs)

/-- The digits with the point in its place. -/
def positional (digits : Nat) (exponent : Int) : String :=
  let ds := Nat.toDigits 10 digits
  if 0 ≤ exponent then
    if digits = 0 then "0" else String.ofList (ds ++ List.replicate exponent.toNat '0')
  else
    let places := exponent.natAbs
    let padded := List.replicate (places + 1 - ds.length) '0' ++ ds
    let split := padded.length - places
    String.ofList (padded.take split ++ '.' :: padded.drop split)

end Decimal

namespace Binary64

/-- The reals that round to a number of `units > 0`, in quarter units, ends and whether the ends
belong to it. -/
def roundingRange (units : Nat) : Nat × Nat × Bool :=
  let gap := twoTo (gapLog units)
  let lowerGap := if units = twoTo 52 * gap && 1 < gap then gap / 2 else gap
  (4 * units - 2 * lowerGap, 4 * units + 2 * gap, units / gap % 2 = 0)

/-- The multiple of `10^p` that is nearest to `units` among the two around it that read back. -/
def onGrid (units : Nat) (p : Int) : Option Nat :=
  let (low, high, closed) := roundingRange units
  -- quarter units are compared on the scale `10^p = up / down`
  let up := if 0 ≤ p then tenTo p.toNat else 1
  let down := if 0 ≤ p then 1 else tenTo p.natAbs
  let whole := 4 * unitsPerOne * up
  let value := 4 * units * down
  let inside (k : Nat) : Bool :=
    let x := k * whole
    if closed then low * down ≤ x && x ≤ high * down else low * down < x && x < high * down
  let below := value / whole
  let above := below + 1
  match inside below, inside above with
  | true, true => if value - below * whole < above * whole - value then some below else some above
  | true, false => some below
  | false, true => some above
  | false, false => none

/-- The coarsest grid with a hit, trying `fuel` grids from `10^p` downwards. -/
def coarsest (units : Nat) : Nat → Int → Nat × Int
  | 0, p => (0, p)
  | fuel + 1, p =>
    match onGrid units p with
    | some k => (k, p)
    | none => coarsest units fuel (p - 1)

/-- A power of ten above the number of `units`. -/
def startGrid (units : Nat) : Int :=
  ((units.log2 : Int) - 1074) * 30103 / 100000 + 2

/-- The shortest digits that read back, and their exponent. -/
def shortest (units : Nat) : Nat × Int := coarsest units 25 (startGrid units)

private def signText (negative : Bool) : String := if negative then "-" else ""

/-- The shortest text that reads back. -/
def text : Binary64 → String
  | .nan _ => "NaN"
  | .infinite s => signText s ++ "inf"
  | .finite s 0 => signText s ++ "0"
  | .finite s u =>
    let (k, p) := shortest u
    signText s ++ Decimal.positional k p

/-- The shortest text, with `.0` for a whole number. -/
def textWithPoint (x : Binary64) : String :=
  match x with
  | .finite _ u => if u % unitsPerOne = 0 then x.text ++ ".0" else x.text
  | _ => x.text

/-- One digit after the point. -/
def textOnePlace : Binary64 → String
  | .nan _ => "NaN"
  | .infinite s => signText s ++ "inf"
  | .finite s u => signText s ++ Decimal.positional (divNearestEven (10 * u) unitsPerOne) (-1)

end Binary64

/-- A span of time in nanoseconds. -/
abbrev Duration := Nat

/-- A duration in seconds: whole seconds and the fraction are each rounded, then their sum. -/
def Duration.seconds (d : Duration) : Binary64 :=
  addPositive (ofNat (d / 1000000000)) (ofRatio false (d % 1000000000) 1000000000)

end HostSuite.Number
