/-
  Lines of a text. A line ends at a line feed; a carriage return right before that line feed
  belongs to the line end, one before the end of the text does not. A final line feed does not
  open another line.
-/

namespace HostSuite.Text

/-- The pieces between the occurrences of `sep`, always one more than there are occurrences. -/
def pieces (sep : Char) : List Char → List (List Char)
  | [] => [[]]
  | c :: cs =>
    if c = sep then [] :: pieces sep cs
    else
      match pieces sep cs with
      | [] => [[c]]
      | p :: ps => (c :: p) :: ps

theorem pieces_ne_nil (sep : Char) (cs : List Char) : pieces sep cs ≠ [] := by
  cases cs with
  | nil => simp [pieces]
  | cons c cs =>
    simp only [pieces]
    split
    · simp
    · split <;> simp

/-- Drops one carriage return at the end. -/
def chopReturn (cs : List Char) : List Char :=
  if cs.getLast? = some '\r' then cs.dropLast else cs

/-- The line after the last line feed, if there is anything on it. -/
def openLine (last : List Char) : List (List Char) := if last.isEmpty then [] else [last]

/-- The lines of a character list, without their ends. -/
def linesOf (cs : List Char) : List (List Char) :=
  let ps := pieces '\n' cs
  ps.dropLast.map chopReturn ++ openLine (ps.getLastD [])

/-- The lines of a text, without their ends. -/
def lines (s : String) : List String := (linesOf s.toList).map String.ofList

/-- The parts of a text between the occurrences of `sep`. -/
def splitAt (sep : Char) (s : String) : List String := (pieces sep s.toList).map String.ofList

end HostSuite.Text
