/-
  White space. A character is blank when it has the Unicode property White_Space; a text is
  trimmed by dropping the blanks at its two ends. Everything works on character lists, the
  functions on `String` only wrap them.
-/

namespace HostSuite.Text

/-- The characters with the Unicode property White_Space. -/
def isBlank (c : Char) : Bool :=
  let n := c.toNat
  (9 ≤ n && n ≤ 13) || n == 0x20 || n == 0x85 || n == 0xA0 || n == 0x1680 ||
    (0x2000 ≤ n && n ≤ 0x200A) || n == 0x2028 || n == 0x2029 || n == 0x202F || n == 0x205F ||
    n == 0x3000

/-- Drops the blanks at the end. -/
def trimRight (cs : List Char) : List Char := (cs.reverse.dropWhile isBlank).reverse

/-- Drops the blanks at both ends. -/
def trimChars (cs : List Char) : List Char := trimRight (cs.dropWhile isBlank)

/-- Drops the blanks at both ends of a text. -/
def trim (s : String) : String := String.ofList (trimChars s.toList)

/-- Nothing but blanks, possibly nothing at all. -/
def isBlankText (s : String) : Bool := s.toList.all isBlank

/-- `small` occurs in `big` as a block. -/
def occursIn (small : List Char) : List Char → Bool
  | [] => small.isEmpty
  | c :: cs => small.isPrefixOf (c :: cs) || occursIn small cs

/-- `small` is part of the text `s`. -/
def contains (s small : String) : Bool := occursIn small.toList s.toList

end HostSuite.Text
