import HostSuite.Text.Unquotable

/-
  Quoted text, as messages show it: double quotes around it, a backslash before a quote or a
  backslash, short escapes for NUL, tab, line feed and carriage return, and `\u` with the code
  point in braces for every other character that cannot stand for itself.
-/

namespace HostSuite.Text

/-- The code point in lower-case hexadecimal. -/
def hexText (n : Nat) : String := String.ofList (Nat.toDigits 16 n)

def quotedChar (c : Char) : List Char :=
  if c = '"' then ['\\', '"']
  else if c = '\\' then ['\\', '\\']
  else if c = '\x00' then ['\\', '0']
  else if c = '\t' then ['\\', 't']
  else if c = '\n' then ['\\', 'n']
  else if c = '\r' then ['\\', 'r']
  else if isUnquotable c then ("\\u\x7b" ++ hexText c.toNat ++ "\x7d").toList
  else [c]

/-- The text in quotes. -/
def quoted (s : String) : String :=
  String.ofList ('"' :: s.toList.flatMap quotedChar ++ ['"'])

end HostSuite.Text
