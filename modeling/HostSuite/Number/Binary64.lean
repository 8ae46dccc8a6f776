/-
  Binary64 numbers, exactly. Every finite one is a whole multiple of the smallest subnormal
  `2^-1074`, so a finite number is a sign and that multiple (its units). Rounding takes a
  quotient of naturals to the nearest representable multiple, ties to the even mantissa, and to
  infinity from `2^1024` on. The bit pattern is read off the units and back.
-/

namespace HostSuite.Number

inductive Binary64
  | nan (negative : Bool)
  | infinite (negative : Bool)
  | finite (negative : Bool) (units : Nat)
  deriving DecidableEq, Repr, Inhabited

/-- A power of two. -/
def twoTo (k : Nat) : Nat := Nat.pow 2 k

/-- How many units make one: `2^1074`. -/
def unitsPerOne : Nat := twoTo 1074

/-- The first magnitude that is too large, in units. -/
def overflowUnits : Nat := twoTo 2098

/-- The distance between neighbours around `units`, as a power of two. -/
def gapLog (units : Nat) : Nat := units.log2 - 52

/-- `n / d` to the nearest natural, a half to the even one. -/
def divNearestEven (n d : Nat) : Nat :=
  let q := n / d
  let r := n % d
  if 2 * r < d then q
  else if d < 2 * r then q + 1
  else q + q % 2

/-- The units nearest to `n / d` units among the representable multiples. -/
def roundUnits (n d : Nat) : Nat :=
  let gap := twoTo (gapLog (n / d))
  divNearestEven n (d * gap) * gap

namespace Binary64

/-- A magnitude of rounded units as a number: infinite when it is too large. -/
def ofUnits (negative : Bool) (units : Nat) : Binary64 :=
  if overflowUnits ≤ units then .infinite negative else .finite negative units

/-- The number nearest to `± n / d`, for a positive `d`. -/
def ofRatio (negative : Bool) (n d : Nat) : Binary64 :=
  ofUnits negative (roundUnits (n * unitsPerOne) d)

def ofNat (n : Nat) : Binary64 := ofRatio false n 1

/-- The nearest number to an integer. Zero is positive. -/
def ofInt (i : Int) : Binary64 := ofRatio (i < 0) i.natAbs 1

/-- The sum of two numbers that are not negative. -/
def addPositive : Binary64 → Binary64 → Binary64
  | .finite _ a, .finite _ b => ofUnits false (roundUnits (a + b) 1)
  | .nan s, _ => .nan s
  | _, .nan s => .nan s
  | _, _ => .infinite false

/-- The 64-bit pattern: sign, 11 bits of exponent, 52 of fraction. -/
def toBits : Binary64 → UInt64
  | .nan s => signBit s ||| 0x7FF8000000000000
  | .infinite s => signBit s ||| 0x7FF0000000000000
  | .finite s u =>
    if u < twoTo 52 then signBit s ||| UInt64.ofNat u
    else
      let e := gapLog u
      signBit s ||| UInt64.ofNat ((e + 1) * twoTo 52 + (u / twoTo e - twoTo 52))
where
  signBit (negative : Bool) : UInt64 := if negative then 0x8000000000000000 else 0

/-- Reads a bit pattern. All NaN payloads are one. -/
def ofBits (bits : UInt64) : Binary64 :=
  let n := bits.toNat
  let negative := twoTo 63 ≤ n
  let exponent := n / twoTo 52 % twoTo 11
  let fraction := n % twoTo 52
  if exponent = 0x7FF then
    if fraction = 0 then .infinite negative else .nan negative
  else if exponent = 0 then .finite negative fraction
  else .finite negative ((twoTo 52 + fraction) * twoTo (exponent - 1))

/-- The value in units, for the finite ones. -/
def units? : Binary64 → Option Int
  | .finite true u => some (-(u : Int))
  | .finite false u => some u
  | _ => none

/-- Less or equal. A NaN is comparable with nothing, both zeros are equal. -/
def le : Binary64 → Binary64 → Bool
  | .nan _, _ => false
  | _, .nan _ => false
  | .infinite true, _ => true
  | _, .infinite false => true
  | .infinite false, _ => false
  | _, .infinite true => false
  | .finite s a, .finite t b =>
    let x : Int := if s then -(a : Int) else a
    let y : Int := if t then -(b : Int) else b
    x ≤ y

end Binary64

end HostSuite.Number
