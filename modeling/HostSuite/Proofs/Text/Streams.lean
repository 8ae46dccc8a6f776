import Mathlib.Data.List.DropRight
import Mathlib.Data.List.TakeWhile
import HostSuite.Command
import HostSuite.Proofs.Path.Lexical

/-
  Lines of two streams. A line feed separates lines, so a text in front of one has its lines to
  itself (`linesOf_append`). Put together as the diagnostics of a command, two streams keep their
  lines, first those of one and then those of the other: the line feed between them is added only
  where the last line lacks its own, and up to the blanks around them the lines are the same
  (`trimmedLines_combined`).
-/

namespace HostSuite.Text

/-! ## Occurrences -/

theorem occursIn_iff {small big : List Char} : occursIn small big = true ↔ small <:+: big := by
  induction big with
  | nil =>
    rw [List.infix_nil]
    exact List.isEmpty_iff
  | cons c cs ih =>
    rw [occursIn, Bool.or_eq_true, ih, List.isPrefixOf_iff_prefix, List.infix_cons_iff]

theorem contains_iff {s small : String} : contains s small = true ↔ small.toList <:+: s.toList :=
  occursIn_iff

theorem trimRight_eq_rdropWhile (cs : List Char) : trimRight cs = cs.rdropWhile isBlank := rfl

theorem trimChars_isInfix (cs : List Char) : trimChars cs <:+: cs :=
  (List.rdropWhile_prefix isBlank _).isInfix.trans (List.dropWhile_suffix isBlank).isInfix

/-! ## Carriage returns -/

/-- A blank at the end does not survive trimming. -/
theorem trimChars_concat (cs : List Char) {c : Char} (hc : isBlank c = true) :
    trimChars (cs ++ [c]) = trimChars cs := by
  unfold trimChars
  rw [trimRight_eq_rdropWhile, trimRight_eq_rdropWhile, List.dropWhile_append]
  split
  · rename_i hnil
    rw [List.isEmpty_iff.mp hnil, List.dropWhile_cons_of_pos hc, List.dropWhile_nil]
  · exact List.rdropWhile_concat_pos isBlank _ c hc

theorem trimChars_chopReturn (cs : List Char) : trimChars (chopReturn cs) = trimChars cs := by
  unfold chopReturn
  split
  · rename_i hlast
    obtain ⟨front, rfl⟩ := List.getLast?_eq_some_iff.mp hlast
    rw [List.dropLast_concat, trimChars_concat front (by decide)]
  · rfl

theorem map_trimChars_chopReturn (ps : List (List Char)) :
    (ps.map chopReturn).map trimChars = ps.map trimChars := by
  rw [List.map_map]
  exact List.map_congr_left fun cs _ => trimChars_chopReturn cs

/-! ## Lines -/

theorem pieces_append (out err : List Char) :
    pieces '\n' (out ++ '\n' :: err) = pieces '\n' out ++ pieces '\n' err := by
  rw [pieces_eq_splitOn, pieces_eq_splitOn, pieces_eq_splitOn]
  exact List.splitOn_append_cons_self out err

/-- What stands before a line feed has its lines to itself. -/
theorem linesOf_append (out err : List Char) :
    linesOf (out ++ '\n' :: err) = (pieces '\n' out).map chopReturn ++ linesOf err := by
  show ((pieces '\n' (out ++ '\n' :: err)).dropLast.map chopReturn ++
    openLine ((pieces '\n' (out ++ '\n' :: err)).getLastD [])) = _
  rw [pieces_append, List.dropLast_append_of_ne_nil (pieces_ne_nil _ _), List.map_append,
    List.append_assoc, List.getLastD_eq_getLast?, List.getLast?_append_of_ne_nil _
      (pieces_ne_nil _ _), ← List.getLastD_eq_getLast?]
  rfl

/-- Without a line feed at the end the last line is open: no carriage return is taken off it. -/
theorem trimmed_open (cs : List Char) {c : Char} (hc : c ≠ '\n') :
    (linesOf (cs ++ [c])).map trimChars = (pieces '\n' (cs ++ [c])).map trimChars := by
  show ((pieces '\n' (cs ++ [c])).dropLast.map chopReturn ++
    openLine ((pieces '\n' (cs ++ [c])).getLastD [])).map trimChars = _
  have hopen : openLine ((pieces '\n' (cs ++ [c])).getLastD []) =
      [(pieces '\n' (cs ++ [c])).getLastD []] :=
    if_neg (by simpa using getLastD_pieces_concat cs hc)
  rw [hopen]
  have hne := pieces_ne_nil '\n' (cs ++ [c])
  generalize pieces '\n' (cs ++ [c]) = ps at hne
  conv => rhs; rw [← List.dropLast_append_getLast hne]
  rw [List.map_append, List.map_append, map_trimChars_chopReturn, List.getLastD_eq_getLast?,
    List.getLast?_eq_some_getLast hne]
  rfl

/-- Up to the blanks around them, the lines of both streams together are those of the output and
then those of the error output. -/
theorem trimmed_combined (out err : List Char) :
    (linesOf (CommandResult.combinedChars out err)).map trimChars =
      (linesOf out).map trimChars ++ (linesOf err).map trimChars := by
  unfold CommandResult.combinedChars
  obtain rfl | ⟨front, c, rfl⟩ := List.eq_nil_or_concat' out
  · rfl
  · by_cases hc : c = '\n'
    · subst hc
      have hnone : linesOf [] = [] := rfl
      rw [if_pos (by simp), List.append_assoc, List.singleton_append, linesOf_append,
        linesOf_append, hnone, List.append_nil, List.map_append]
    · rw [if_neg (by simpa using hc), linesOf_append, List.map_append, trimmed_open front hc,
        map_trimChars_chopReturn]

/-- The lines of a text without the blanks around them. -/
def trimmedLines (s : String) : List String := (lines s).map trim

theorem trimmedLines_eq (s : String) :
    trimmedLines s = ((linesOf s.toList).map trimChars).map String.ofList := by
  unfold trimmedLines lines
  rw [List.map_map, List.map_map]
  refine List.map_congr_left fun cs _ => ?_
  show String.ofList (trimChars (String.ofList cs).toList) = _
  rw [String.toList_ofList]
  rfl

theorem trimmedLines_combined (r : CommandResult) :
    trimmedLines r.combined = trimmedLines r.stdout ++ trimmedLines r.stderr := by
  rw [trimmedLines_eq, trimmedLines_eq, trimmedLines_eq, ← List.map_append, ← trimmed_combined]
  unfold CommandResult.combined
  rw [String.toList_ofList]

end HostSuite.Text
