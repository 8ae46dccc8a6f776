import HostSuite.Number.Numeral
import HostSuite.Toml.Value

/-
  Strings, numbers and moments of time as a TOML document writes them. A reader takes what it
  needs from the front of the text and leaves the rest; it gives nothing where the text is not
  of its form. Digits may be parted by single underscores, integers fit 64 bits, decimal numerals
  have no leading zeros, and a moment is a date, a time of day or both.
-/

namespace HostSuite.Toml

open Number

/-- What a reader took, and the rest. -/
abbrev Reading (α : Type) := Option (α × List Char)

def isSpace (c : Char) : Bool := c = ' ' || c = '\t'

def skipSpace (cs : List Char) : List Char := cs.dropWhile isSpace

/-- Not a control character, the tab apart. -/
def isPlain (c : Char) : Bool := c = '\t' || (' ' ≤ c && c != '\x7f')

/-- The rest after a line end. -/
def newline? : List Char → Option (List Char)
  | '\n' :: cs => some cs
  | '\r' :: '\n' :: cs => some cs
  | _ => none

/-- A comment without its line end. -/
def skipComment (cs : List Char) : List Char :=
  match cs with
  | '#' :: rest => rest.dropWhile isPlain
  | _ => cs

/-- Spaces, a comment, and a line end or the end of the text. -/
def lineEnd? (cs : List Char) : Option (List Char) :=
  match skipComment (skipSpace cs) with
  | [] => some []
  | rest => newline? rest

/-! Strings -/

def hexValue? (c : Char) : Option Nat :=
  if isDigit c then some (c.toNat - '0'.toNat)
  else if 'a' ≤ c && c ≤ 'f' then some (c.toNat - 'a'.toNat + 10)
  else if 'A' ≤ c && c ≤ 'F' then some (c.toNat - 'A'.toNat + 10)
  else none

/-- The number written by `n` hexadecimal digits. -/
def hexNumber? (n : Nat) (cs : List Char) : Option Nat :=
  let ds := cs.take n
  if ds.length = n then ds.foldlM (fun v c => (hexValue? c).map (16 * v + ·)) 0 else none

/-- The character with a number, if that is a code point that is no surrogate. -/
def charOf? (n : Nat) : Option Char := if n.isValidChar then some (Char.ofNat n) else none

/-- The character that an escape stands for, and how many characters after the backslash say so. -/
def escape? : List Char → Option (Char × Nat)
  | 'b' :: _ => some ('\x08', 1)
  | 't' :: _ => some ('\t', 1)
  | 'n' :: _ => some ('\n', 1)
  | 'f' :: _ => some ('\x0c', 1)
  | 'r' :: _ => some ('\r', 1)
  | '"' :: _ => some ('"', 1)
  | '\\' :: _ => some ('\\', 1)
  | 'u' :: cs => ((hexNumber? 4 cs).bind charOf?).map (·, 5)
  | 'U' :: cs => ((hexNumber? 8 cs).bind charOf?).map (·, 9)
  | _ => none

/-- One more character in front of a string that was read. -/
def withChar (c : Char) (r : List Char × List Char) : List Char × List Char := (c :: r.1, r.2)

/-- A string in quotes, after the opening one. -/
def basicString : List Char → Reading (List Char)
  | [] => none
  | '"' :: cs => some ([], cs)
  | '\\' :: cs =>
    match escape? cs with
    | some (c, n) => (basicString (cs.drop n)).map (withChar c)
    | none => none
  | c :: cs => if isPlain c then (basicString cs).map (withChar c) else none
termination_by cs => cs.length

/-- A string in apostrophes, after the opening one. -/
def literalString : List Char → Reading (List Char)
  | [] => none
  | '\'' :: cs => some ([], cs)
  | c :: cs => if isPlain c then (literalString cs).map (withChar c) else none

/-- The rest after spaces and line ends. -/
def skipBlankLines : List Char → List Char
  | '\r' :: '\n' :: cs => skipBlankLines cs
  | c :: cs => if isSpace c || c = '\n' then skipBlankLines cs else c :: cs
  | [] => []

theorem length_skipBlankLines (cs : List Char) : (skipBlankLines cs).length ≤ cs.length := by
  fun_induction skipBlankLines cs <;> simp_all <;> omega

/-- The rest after a backslash that only blanks part from the end of its line, without the blanks
and line ends that follow. -/
def foldedLine? (cs : List Char) : Option (List Char) :=
  (newline? (skipSpace cs)).map fun _ => skipBlankLines cs

theorem length_foldedLine {cs rest : List Char} (h : foldedLine? cs = some rest) :
    rest.length ≤ cs.length := by
  obtain ⟨_, _, rfl⟩ := Option.map_eq_some_iff.1 h
  exact length_skipBlankLines cs

/-- The quotes `q` at the end of a long string: the last three close it, up to two before them
belong to it. -/
def closing (q : Char) (cs : List Char) : List Char × List Char :=
  let extra := min (((cs.takeWhile (· = q)).length) - 3) 2
  (List.replicate extra q, cs.drop (extra + 3))

/-- A string in three quotes, after the opening ones. -/
def longBasicString : List Char → Reading (List Char)
  | [] => none
  | '\\' :: cs =>
    match h : foldedLine? cs with
    | some rest =>
      have := length_foldedLine h
      longBasicString rest
    | none =>
      match escape? cs with
      | some (c, n) => (longBasicString (cs.drop n)).map (withChar c)
      | none => none
  | '\r' :: '\n' :: cs => (longBasicString cs).map (withChar '\n')
  | c :: cs =>
    if ['"', '"', '"'].isPrefixOf (c :: cs) then some (closing '"' (c :: cs))
    else if c = '\n' || isPlain c then (longBasicString cs).map (withChar c)
    else none
termination_by cs => cs.length

/-- A string in three apostrophes, after the opening ones. -/
def longLiteralString : List Char → Reading (List Char)
  | [] => none
  | '\r' :: '\n' :: cs => (longLiteralString cs).map (withChar '\n')
  | c :: cs =>
    if ['\'', '\'', '\''].isPrefixOf (c :: cs) then some (closing '\'' (c :: cs))
    else if c = '\n' || isPlain c then (longLiteralString cs).map (withChar c)
    else none

/-- A line end right after the opening quotes does not belong to a long string. -/
def afterOpening (cs : List Char) : List Char := (newline? cs).getD cs

/-- A string in any of the four forms. -/
def stringValue (cs : List Char) : Reading String :=
  let chars :=
    match cs with
    | '"' :: '"' :: '"' :: rest => longBasicString (afterOpening rest)
    | '"' :: rest => basicString rest
    | '\'' :: '\'' :: '\'' :: rest => longLiteralString (afterOpening rest)
    | '\'' :: rest => literalString rest
    | _ => none
  chars.map fun r => (String.ofList r.1, r.2)

/-! Numbers -/

/-- The rest of a run of digits that single underscores may part. -/
def moreDigits (isOne : Char → Bool) : List Char → List Char × List Char
  | '_' :: c :: cs => if isOne c then withChar c (moreDigits isOne cs) else ([], '_' :: c :: cs)
  | c :: cs => if isOne c then withChar c (moreDigits isOne cs) else ([], c :: cs)
  | [] => ([], [])

/-- One digit or more, without the underscores between them. -/
def digitRun (isOne : Char → Bool) : List Char → Reading (List Char)
  | c :: cs => if isOne c then some (withChar c (moreDigits isOne cs)) else none
  | [] => none

/-- A decimal numeral without leading zeros. -/
def wholeDigits : List Char → Reading (List Char)
  | '0' :: cs => some (['0'], cs)
  | cs => digitRun isDigit cs

/-- A sign, if there is one, as a numeral shows it. -/
def signOf : List Char → List Char × List Char
  | '-' :: cs => (['-'], cs)
  | '+' :: cs => (['+'], cs)
  | cs => ([], cs)

/-- The digits after a point, the point included. -/
def fractionPart : List Char → Reading (List Char)
  | '.' :: cs => (digitRun isDigit cs).map (withChar '.')
  | cs => some ([], cs)

/-- The exponent, its letter included. -/
def exponentPart : List Char → Reading (List Char)
  | c :: cs =>
    if c = 'e' || c = 'E' then
      let (sign, rest) := signOf cs
      (digitRun isDigit rest).map fun r => ('e' :: sign ++ r.1, r.2)
    else some ([], c :: cs)
  | [] => some ([], [])

/-- The range of integers. -/
def fitsInteger (i : Int) : Bool := -9223372036854775808 ≤ i && i < 9223372036854775808

/-- A value that is in the range of integers. -/
def integerOf? (i : Int) (cs : List Char) : Reading Value :=
  if fitsInteger i then some (.integer i, cs) else none

/-- A number that is not too large; one that is too small is minus infinity. -/
def floatOf? (numeral : List Char) (cs : List Char) : Reading Value :=
  match readBinary64 (String.ofList numeral) with
  | .ok (.infinite false) => none
  | .ok x => some (.float x, cs)
  | .error _ => none

/-- An integer in another base. -/
def basedInteger (base : Nat) (cs : List Char) : Reading Value :=
  let isOne (c : Char) : Bool := (hexValue? c).any (· < base)
  (digitRun isOne cs).bind fun (ds, rest) =>
    integerOf? (ds.foldl (fun v c => base * v + (hexValue? c).getD 0) 0 : Nat) rest

/-- An integer or a float in decimal digits. -/
def decimalNumber (cs : List Char) : Option (Value × List Char) := do
  let (sign, unsigned) := signOf cs
  let (whole, afterWhole) ← wholeDigits unsigned
  let (fraction, afterFraction) ← fractionPart afterWhole
  let (exponent, rest) ← exponentPart afterFraction
  if fraction.isEmpty && exponent.isEmpty then
    let n : Int := digitsValue whole
    integerOf? (if sign = ['-'] then -n else n) rest
  else floatOf? (sign ++ whole ++ fraction ++ exponent) rest

/-- An integer, a float, or one of the words for infinity and NaN. -/
def number (cs : List Char) : Reading Value :=
  match cs with
  | '0' :: 'x' :: rest => basedInteger 16 rest
  | '0' :: 'o' :: rest => basedInteger 8 rest
  | '0' :: 'b' :: rest => basedInteger 2 rest
  | _ =>
    let (sign, unsigned) := signOf cs
    match unsigned with
    | 'i' :: 'n' :: 'f' :: rest => some (.float (.infinite (sign = ['-'])), rest)
    | 'n' :: 'a' :: 'n' :: rest => some (.float (.nan (sign = ['-'])), rest)
    | _ => decimalNumber cs

/-! Moments -/

/-- A number of exactly `n` digits that lies between two bounds. -/
def fixedNumber (n low high : Nat) (cs : List Char) : Reading Nat :=
  let ds := cs.take n
  if ds.length = n && ds.all isDigit && low ≤ digitsValue ds && digitsValue ds ≤ high then
    some (digitsValue ds, cs.drop n)
  else none

/-- A given character. -/
def oneOf (allowed : List Char) : List Char → Option (List Char)
  | c :: cs => if allowed.contains c then some cs else none
  | [] => none

def isLeapYear (year : Nat) : Bool := year % 4 = 0 && (year % 100 != 0 || year % 400 = 0)

def daysIn (year month : Nat) : Nat :=
  if month = 2 then if isLeapYear year then 29 else 28
  else if month = 4 || month = 6 || month = 9 || month = 11 then 30
  else 31

/-- A date; the rest follows it. -/
def date? (cs : List Char) : Option (List Char) := do
  let (year, cs) ← fixedNumber 4 0 9999 cs
  let cs ← oneOf ['-'] cs
  let (month, cs) ← fixedNumber 2 1 12 cs
  let cs ← oneOf ['-'] cs
  let (_, cs) ← fixedNumber 2 1 (daysIn year month) cs
  return cs

/-- Hours and the colon after them. -/
def hours? (cs : List Char) : Option (List Char) := do
  let (_, cs) ← fixedNumber 2 0 23 cs
  oneOf [':'] cs

/-- Minutes, seconds and the part of a second, after the hours. -/
def afterHours? (cs : List Char) : Option (List Char) := do
  let (_, cs) ← fixedNumber 2 0 59 cs
  let cs ← oneOf [':'] cs
  let (_, cs) ← fixedNumber 2 0 60 cs
  match cs with
  | '.' :: rest => if (rest.takeWhile isDigit).isEmpty then none else some (rest.dropWhile isDigit)
  | _ => some cs

/-- The distance from universal time, if it is given. -/
def offset? (cs : List Char) : Option (List Char) :=
  match oneOf ['Z', 'z'] cs, oneOf ['+', '-'] cs with
  | some rest, _ => some rest
  | none, some rest => do
    let rest ← hours? rest
    let (_, rest) ← fixedNumber 2 0 59 rest
    return rest
  | none, none => some cs

/-- What may follow a date: a time of day with an offset. -/
def timeOfDate? (cs : List Char) : Option (List Char) :=
  match (oneOf ['T', 't', ' '] cs).bind hours? with
  | some rest => (afterHours? rest).bind offset?
  | none => some cs

/-- The text begins like a date. -/
def looksLikeDate (cs : List Char) : Bool :=
  ((fixedNumber 4 0 9999 cs).bind fun r => oneOf ['-'] r.2).isSome

/-- The text begins like a time of day. -/
def looksLikeTime (cs : List Char) : Bool := (hours? cs).isSome

/-- A number, or a moment where the text begins like one. -/
def numberOrMoment (cs : List Char) : Reading Value :=
  if looksLikeDate cs then ((date? cs).bind timeOfDate?).map (Value.moment, ·)
  else if looksLikeTime cs then ((hours? cs).bind afterHours?).map (Value.moment, ·)
  else number cs

end HostSuite.Toml
