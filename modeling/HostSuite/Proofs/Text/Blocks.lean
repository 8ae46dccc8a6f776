import HostSuite.Proofs.Text.Streams

/-
  Blocks of a text. A block is a stretch of lines that a blank line ends. Texts that are written as
  blocks of non-blank lines, with a blank line after each, are cut into just these blocks
  (`blockLines_unlines`).
-/

namespace HostSuite.Text

/-- Lines one below the other, each with its end. -/
def unlines (ls : List String) : String := String.join (ls.map (· ++ "\n"))

/-- The lines of a text that have their ends. -/
def endedLines (s : String) : List String := (splitAt '\n' s).dropLast

/-- The stretches of lines that are ended by a blank line. -/
def blockLines (s : String) : List (List String) := ((endedLines s).splitOn "").dropLast

/-- The same as texts. -/
def blocks (s : String) : List String := (blockLines s).map unlines

theorem unlines_cons (l : String) (ls : List String) :
    unlines (l :: ls) = l ++ "\n" ++ unlines ls := by
  unfold unlines
  rw [List.map_cons, String.join_cons]

theorem unlines_append (ls ms : List String) : unlines (ls ++ ms) = unlines ls ++ unlines ms := by
  unfold unlines
  rw [List.map_append, String.join_append]

/-- A line with its end splits off. -/
theorem endedLines_line {l : String} (hl : '\n' ∉ l.toList) (s : String) :
    endedLines (l ++ "\n" ++ s) = l :: endedLines s := by
  have hpieces : pieces '\n' (l ++ "\n" ++ s).toList = l.toList :: pieces '\n' s.toList := by
    have htext : (l ++ "\n" ++ s).toList = l.toList ++ '\n' :: s.toList := by simp
    have hone : pieces '\n' l.toList = [l.toList] := by
      rw [pieces_eq_splitOn, List.splitOn_eq_singleton hl]
    rw [htext, pieces_append, hone, List.singleton_append]
  have hne : (pieces '\n' s.toList).map String.ofList ≠ [] := by
    simpa using pieces_ne_nil '\n' s.toList
  unfold endedLines splitAt
  rw [hpieces, List.map_cons, String.ofList_toList, List.dropLast_cons_of_ne_nil hne]

theorem endedLines_unlines {ls : List String} (hls : ∀ l ∈ ls, '\n' ∉ l.toList) :
    endedLines (unlines ls) = ls := by
  induction ls with
  | nil => rfl
  | cons l ls ih =>
    rw [unlines_cons, endedLines_line (hls l List.mem_cons_self),
      ih fun m hm => hls m (List.mem_cons_of_mem l hm)]

/-- Lines that can stand in a block. -/
def AreBlock (ls : List String) : Prop := ∀ l ∈ ls, l ≠ "" ∧ '\n' ∉ l.toList

/-- Each block with the blank line after it. -/
def spaced (bs : List (List String)) : List String := bs.flatMap (· ++ [""])

theorem splitOn_spaced {bs : List (List String)} (hbs : ∀ b ∈ bs, AreBlock b) :
    (spaced bs).splitOn "" = bs ++ [[]] := by
  induction bs with
  | nil => rfl
  | cons b bs ih =>
    have hb : "" ∉ b := fun hmem => (hbs b List.mem_cons_self "" hmem).1 rfl
    have hspaced : spaced (b :: bs) = b ++ "" :: spaced bs := by simp [spaced]
    rw [hspaced, List.splitOn_append_cons_self, List.splitOn_eq_singleton hb,
      ih fun c hc => hbs c (List.mem_cons_of_mem b hc), List.singleton_append, List.cons_append]

theorem blockLines_unlines {bs : List (List String)} (hbs : ∀ b ∈ bs, AreBlock b) :
    blockLines (unlines (spaced bs)) = bs := by
  have hlines : ∀ l ∈ spaced bs, '\n' ∉ l.toList := by
    intro l hl
    obtain ⟨b, hb, hmem⟩ := List.mem_flatMap.mp hl
    obtain hmem | hmem := List.mem_append.mp hmem
    · exact (hbs b hb l hmem).2
    · rw [List.mem_singleton.mp hmem]
      decide
  unfold blockLines
  rw [endedLines_unlines hlines, splitOn_spaced hbs, List.dropLast_concat]

theorem unlines_spaced (bs : List (List String)) :
    unlines (spaced bs) = String.join (bs.map fun b => unlines b ++ "\n") := by
  induction bs with
  | nil => rfl
  | cons b bs ih =>
    have hspaced : spaced (b :: bs) = b ++ [""] ++ spaced bs := by simp [spaced]
    have hend : unlines [""] = "\n" := rfl
    rw [hspaced, unlines_append, unlines_append, ih, hend, List.map_cons, String.join_cons]

end HostSuite.Text
