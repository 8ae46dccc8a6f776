/-
  Bytes and text. `encode` writes a text in UTF-8. `decodeSteps` reads bytes with one pending
  character at a time: each step yields a character or `none` for a maximal run of bytes that
  begins a character but does not finish it. Reading strictly asks for no `none`; reading
  leniently puts U+FFFD in its place.
-/

namespace HostSuite.Text

abbrev Bytes := List UInt8

/-- The UTF-8 form of one character. -/
def encodeChar (c : Char) : Bytes :=
  let n := c.toNat
  if n < 0x80 then [n.toUInt8]
  else if n < 0x800 then [(0xC0 + n / 64).toUInt8, (0x80 + n % 64).toUInt8]
  else if n < 0x10000 then
    [(0xE0 + n / 4096).toUInt8, (0x80 + n / 64 % 64).toUInt8, (0x80 + n % 64).toUInt8]
  else
    [(0xF0 + n / 262144).toUInt8, (0x80 + n / 4096 % 64).toUInt8, (0x80 + n / 64 % 64).toUInt8,
      (0x80 + n % 64).toUInt8]

/-- The UTF-8 form of a text. -/
def encode (s : String) : Bytes := s.toList.flatMap encodeChar

/-- A character begun: how many bytes are missing, its bits so far, and the range the next byte
has to lie in. -/
structure Begun where
  missing : Nat
  bits : Nat
  low : Nat := 0x80
  high : Nat := 0xBF

/-- What a byte does where a character may begin. -/
inductive Lead
  | whole (c : Char)
  | begins (b : Begun)
  | stray

/-- Lead bytes and the ranges after them: no overlong forms, no surrogates, nothing above
U+10FFFF. -/
def leadOf (b : UInt8) : Lead :=
  let n := b.toNat
  if n < 0x80 then .whole (Char.ofNat n)
  else if n < 0xC2 then .stray
  else if n < 0xE0 then .begins ⟨1, n - 0xC0, 0x80, 0xBF⟩
  else if n = 0xE0 then .begins ⟨2, 0, 0xA0, 0xBF⟩
  else if n = 0xED then .begins ⟨2, 0xD, 0x80, 0x9F⟩
  else if n < 0xF0 then .begins ⟨2, n - 0xE0, 0x80, 0xBF⟩
  else if n = 0xF0 then .begins ⟨3, 0, 0x90, 0xBF⟩
  else if n < 0xF4 then .begins ⟨3, n - 0xF0, 0x80, 0xBF⟩
  else if n = 0xF4 then .begins ⟨3, 4, 0x80, 0x8F⟩
  else .stray

/-- The characters of a byte sequence, `none` for each piece that is not one. -/
def decodeSteps : Option Begun → Bytes → List (Option Char)
  | none, [] => []
  | some _, [] => [none]
  | none, b :: bs =>
    match leadOf b with
    | .whole c => some c :: decodeSteps none bs
    | .begins p => decodeSteps (some p) bs
    | .stray => none :: decodeSteps none bs
  | some p, b :: bs =>
    if p.low ≤ b.toNat ∧ b.toNat ≤ p.high then
      let bits := p.bits * 64 + b.toNat % 64
      if p.missing ≤ 1 then some (Char.ofNat bits) :: decodeSteps none bs
      else decodeSteps (some ⟨p.missing - 1, bits, 0x80, 0xBF⟩) bs
    else
      match leadOf b with
      | .whole c => none :: some c :: decodeSteps none bs
      | .begins q => none :: decodeSteps (some q) bs
      | .stray => none :: none :: decodeSteps none bs

/-- The text that these bytes are the UTF-8 form of, if there is one. -/
def decode? (bs : Bytes) : Option String :=
  let steps := decodeSteps none bs
  if steps.all Option.isSome then some (String.ofList (steps.filterMap id)) else none

/-- The text of these bytes with U+FFFD for what is not UTF-8. -/
def decodeLossy (bs : Bytes) : String :=
  String.ofList ((decodeSteps none bs).map (·.getD '\ufffd'))

end HostSuite.Text
