import HostSuite.Posix.Arithmetic
import HostSuite.Text.Utf8

/-
  What `echo` and `printf` print. A backslash and a letter stand for a control character, and a
  backslash and up to three octal digits for a byte; `echo` wants a zero before the digits. A
  format is used again as long as there are arguments left.
-/

namespace HostSuite.Posix

/-- The byte of a control letter. -/
def controlByte? : Char → Option UInt8
  | 'a' => some 7
  | 'b' => some 8
  | 'f' => some 12
  | 'n' => some 10
  | 'r' => some 13
  | 't' => some 9
  | 'v' => some 11
  | '\\' => some 92
  | _ => none

def isOctal (c : Char) : Bool := '0' ≤ c && c ≤ '7'

/-- The byte that octal digits write. -/
def octalByte (ds : List Char) : UInt8 :=
  (ds.foldl (fun n c => 8 * n + (c.toNat - '0'.toNat)) 0).toUInt8

/-- The octal digits in front, at most `n`. -/
def octalRun (n : Nat) (cs : List Char) : List Char := (cs.take n).takeWhile isOctal

/-- The bytes of a text with its escapes, and whether `\c` ended it. -/
def unescape (zeroed : Bool) : Nat → List Char → Text.Bytes × Bool
  | 0, _ => ([], false)
  | _, [] => ([], false)
  | fuel + 1, '\\' :: c :: rest =>
    let more (bytes : Text.Bytes) (rest : List Char) :=
      let (tail, ended) := unescape zeroed fuel rest
      (bytes ++ tail, ended)
    if c = 'c' && zeroed then ([], true)
    else if zeroed && c = '0' then
      let ds := octalRun 3 rest
      more [octalByte ds] (rest.drop ds.length)
    else if !zeroed && isOctal c then
      let ds := octalRun 3 (c :: rest)
      more [octalByte ds] ((c :: rest).drop ds.length)
    else
      match controlByte? c with
      | some b => more [b] rest
      | none => more (Text.encodeChar '\\') (c :: rest)
  | fuel + 1, c :: rest =>
    let (tail, ended) := unescape zeroed fuel rest
    (Text.encodeChar c ++ tail, ended)

def unescapeAll (zeroed : Bool) (cs : List Char) : Text.Bytes × Bool :=
  unescape zeroed (cs.length + 1) cs

/-- What `echo` prints. -/
def echoBytes (args : List String) : Text.Bytes :=
  let (silent, words) :=
    match args with
    | "-n" :: rest => (true, rest)
    | _ => (false, args)
  let (bytes, ended) := unescapeAll true (" ".intercalate words).toList
  if silent || ended then bytes else bytes ++ [10]

/-- Blanks or zeros around a text up to a width. -/
def padTo (left zeros : Bool) (width : Nat) (s : String) : String :=
  let gap := width - s.length
  if left then s ++ String.ofList (List.replicate gap ' ')
  else String.ofList (List.replicate gap (if zeros then '0' else ' ')) ++ s

/-- One pass over a format: the bytes, and the arguments that are left. -/
def formatPass : Nat → List Char → List String → Text.Bytes × List String
  | 0, _, args => ([], args)
  | _, [], args => ([], args)
  | fuel + 1, '%' :: '%' :: rest, args =>
    let (tail, left) := formatPass fuel rest args
    (37 :: tail, left)
  | fuel + 1, '%' :: rest, args =>
    let flags := rest.takeWhile fun c => c = '-' || c = '0'
    let afterFlags := rest.drop flags.length
    let digits := afterFlags.takeWhile Number.isDigit
    let width := Number.digitsValue digits
    let arg := args.headD ""
    let pad := padTo (flags.contains '-') (flags.contains '0') width
    let more (bytes : Text.Bytes) (rest : List Char) :=
      let (tail, left) := formatPass fuel rest args.tail
      (bytes ++ tail, left)
    match afterFlags.drop digits.length with
    | 's' :: rest => more (Text.encode (pad arg)) rest
    | 'd' :: rest => more (Text.encode (pad (toString (integerOf arg)))) rest
    | 'i' :: rest => more (Text.encode (pad (toString (integerOf arg)))) rest
    | 'c' :: rest => more (Text.encode (pad (String.ofList (arg.toList.take 1)))) rest
    | 'b' :: rest => more (unescapeAll true arg.toList).1 rest
    | rest =>
      let (tail, left) := formatPass fuel rest args
      (37 :: tail, left)
  | fuel + 1, '\\' :: c :: rest, args =>
    let ds := octalRun 3 (c :: rest)
    let (bytes, rest) :=
      if ds.isEmpty then
        match controlByte? c with
        | some b => ([b], rest)
        | none => (Text.encodeChar '\\', c :: rest)
      else ([octalByte ds], (c :: rest).drop ds.length)
    let (tail, left) := formatPass fuel rest args
    (bytes ++ tail, left)
  | fuel + 1, c :: rest, args =>
    let (tail, left) := formatPass fuel rest args
    (Text.encodeChar c ++ tail, left)

/-- Uses a format until no arguments are left. -/
def formatAll (format : List Char) : Nat → List String → Text.Bytes
  | 0, _ => []
  | fuel + 1, args =>
    let (bytes, left) := formatPass (format.length + 1) format args
    if left.isEmpty || left.length = args.length then bytes else bytes ++ formatAll format fuel left

/-- What `printf` prints. -/
def printfBytes : List String → Text.Bytes
  | [] => []
  | format :: args => formatAll format.toList (args.length + 1) args

end HostSuite.Posix
