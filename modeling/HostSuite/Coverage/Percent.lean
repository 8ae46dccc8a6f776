import HostSuite.Number.Numeral
import HostSuite.Text.Blank
import HostSuite.Text.Lines

/-
  Percentages in the output of the summarizer. The lines about lines and functions are kept; the
  line percentage is the number on the first one of the form `lines`, dots, a colon and a numeral
  with a percent sign, where blanks may stand around the colon.
-/

namespace HostSuite.Coverage

/-- The line tells a percentage of lines or functions. -/
def isSummaryLine (line : String) : Bool :=
  Text.contains line ":" && (Text.contains line "lines" || Text.contains line "functions")

/-- The lines that tell percentages, without the blanks around them. -/
def summaryLines (output : String) : List String :=
  ((Text.lines output).filter isSummaryLine).map Text.trim

/-- The text after `front`, if it begins with it. -/
def after? (front : List Char) (cs : List Char) : Option (List Char) :=
  if front.isPrefixOf cs then some (cs.drop front.length) else none

/-- Digits, and a point with digits if there is one; the rest follows. -/
def numeral? (cs : List Char) : Option (List Char × List Char) :=
  let whole := cs.takeWhile Number.isDigit
  let rest := cs.dropWhile Number.isDigit
  if whole.isEmpty then none
  else
    match rest with
    | '.' :: tail =>
      let places := tail.takeWhile Number.isDigit
      if places.isEmpty then some (whole, rest)
      else some (whole ++ '.' :: places, tail.dropWhile Number.isDigit)
    | _ => some (whole, rest)

/-- The numeral of a line that tells the percentage of lines. -/
def percentNumeral? (line : List Char) : Option (List Char) := do
  let rest ← after? "lines".toList line
  let rest ← after? [':'] ((rest.dropWhile (· = '.')).dropWhile Text.isBlank)
  let (numeral, rest) ← numeral? (rest.dropWhile Text.isBlank)
  if rest.head? = some '%' then some numeral else none

/-- The percentage that the first such line tells. -/
def linePercent? (lines : List String) : Option Number.Binary64 :=
  (lines.findSome? fun line => percentNumeral? line.toList).bind fun numeral =>
    (Number.readBinary64 (String.ofList numeral)).toOption

end HostSuite.Coverage
