import HostSuite.Proofs.Text.Streams

/-
  Trimmed texts. Trimming leaves no blank at either end (`trimmed_trimChars`) and nothing to do
  for a second time (`Trimmed.trimChars_eq`). What has no blanks at its ends itself occurs in a
  trimmed text exactly if it occurs in the text (`contains_trim`), so looking for it before or
  after trimming is the same. A line feed is a blank, so the lines of a text that have anything on
  them are its trimmed pieces (`nonblank_lines`). They are the same for a text that is trimmed as
  a whole (`nonblankLines_trim`) or has carriage returns at its line ends
  (`nonblankLines_withReturns`), texts with a line feed between them keep theirs
  (`nonblankLines_append`), and non-blank trimmed lines that are joined by line feeds come apart
  again (`nonblankLines_intercalate`).
-/

namespace HostSuite.Text

/-- No blank at either end. -/
structure Trimmed (cs : List Char) : Prop where
  first : ∀ c ∈ cs.head?, isBlank c = false
  last : ∀ c ∈ cs.getLast?, isBlank c = false

theorem trimmed_iff {cs : List Char} :
    Trimmed cs ↔ cs.head?.any isBlank = false ∧ cs.getLast?.any isBlank = false := by
  have hany (o : Option Char) : o.any isBlank = false ↔ ∀ c ∈ o, isBlank c = false := by
    cases o <;> simp
  rw [hany, hany]
  exact ⟨fun ⟨hf, hl⟩ => ⟨hf, hl⟩, fun ⟨hf, hl⟩ => ⟨hf, hl⟩⟩

instance : DecidablePred Trimmed := fun _ => decidable_of_iff _ trimmed_iff.symm

theorem trimmed_trimChars (cs : List Char) : Trimmed (trimChars cs) := by
  constructor
  · intro c hc
    have hprefix : trimChars cs <+: cs.dropWhile isBlank := List.rdropWhile_prefix isBlank _
    obtain ⟨rest, hrest⟩ := hprefix
    have hhead : (cs.dropWhile isBlank).head? = some c := by
      rw [← hrest, List.head?_append, hc, Option.some_or]
    have hnot := List.head?_dropWhile_not isBlank cs
    rw [hhead] at hnot
    exact hnot
  · intro c hc
    have hne : trimChars cs ≠ [] := by
      intro hnil
      rw [hnil] at hc
      cases hc
    have hlast := List.rdropWhile_last_not isBlank (cs.dropWhile isBlank) hne
    rw [List.getLast?_eq_some_getLast hne] at hc
    rw [← Option.some.inj hc]
    exact Bool.eq_false_iff.mpr hlast

theorem Trimmed.trimChars_eq {cs : List Char} (h : Trimmed cs) : trimChars cs = cs := by
  have hfirst : cs.dropWhile isBlank = cs := by
    rw [List.dropWhile_eq_self_iff]
    intro hl
    rw [Bool.not_eq_true]
    exact h.first _ (List.head?_eq_getElem? .. ▸ List.getElem?_eq_getElem hl)
  have hlast : cs.rdropWhile isBlank = cs := by
    rw [List.rdropWhile_eq_self_iff]
    intro hne
    rw [Bool.not_eq_true]
    exact h.last _ (List.getLast?_eq_some_getLast hne)
  unfold trimChars
  rw [trimRight_eq_rdropWhile, hfirst, hlast]

/-- Trimming leaves nothing exactly of what holds nothing but blanks. -/
theorem trimChars_eq_nil_iff {cs : List Char} :
    trimChars cs = [] ↔ ∀ c ∈ cs, isBlank c = true := by
  unfold trimChars
  rw [trimRight_eq_rdropWhile, List.rdropWhile_eq_nil_iff]
  constructor
  · intro hrest c hc
    rw [← List.takeWhile_append_dropWhile (p := isBlank) (l := cs)] at hc
    rcases List.mem_append.mp hc with hc | hc
    · exact List.mem_takeWhile_imp hc
    · exact hrest c hc
  · intro hall c hc
    exact hall c ((List.dropWhile_suffix isBlank).subset hc)

/-! ## Occurrences in a trimmed text -/

theorem infix_dropWhile_iff {small cs : List Char}
    (hs : ∀ c ∈ small.head?, isBlank c = false) :
    small <:+: cs.dropWhile isBlank ↔ small <:+: cs := by
  induction cs with
  | nil => rfl
  | cons c cs ih =>
    by_cases hc : isBlank c = true
    · rw [List.dropWhile_cons_of_pos hc, ih, List.infix_cons_iff]
      refine ⟨Or.inr, fun h => h.elim (fun hprefix => ?_) id⟩
      -- Nothing but the empty text can begin at the blank.
      cases small with
      | nil => exact List.nil_infix
      | cons d small =>
        obtain ⟨rfl, -⟩ := List.cons_prefix_cons.mp hprefix
        rw [hs d rfl] at hc
        cases hc
    · rw [List.dropWhile_cons_of_neg hc]

theorem Trimmed.reverse {cs : List Char} (h : Trimmed cs) : Trimmed cs.reverse :=
  ⟨fun c hc => h.last c (by rwa [List.head?_reverse] at hc),
    fun c hc => h.first c (by rwa [List.getLast?_reverse] at hc)⟩

theorem infix_trimChars_iff {small cs : List Char} (hs : Trimmed small) :
    small <:+: trimChars cs ↔ small <:+: cs := by
  have hrev : small <:+: trimChars cs ↔
      small.reverse <:+: ((cs.dropWhile isBlank).reverse.dropWhile isBlank) := by
    rw [← List.reverse_infix]
    unfold trimChars trimRight
    rw [List.reverse_reverse]
  rw [hrev, infix_dropWhile_iff hs.reverse.first, List.reverse_infix, infix_dropWhile_iff hs.first]

theorem contains_trim {small : String} (hs : Trimmed small.toList) (s : String) :
    contains (trim s) small = contains s small := by
  rw [Bool.eq_iff_iff, contains_iff, contains_iff, trim, String.toList_ofList,
    infix_trimChars_iff hs]

/-! ## Lines with anything on them -/

/-- What is between the line feeds of a text, trimmed, where there is anything. -/
def contents (cs : List Char) : List (List Char) :=
  ((pieces '\n' cs).map trimChars).filter (· ≠ [])

/-- Up to the blanks around them, what is on the lines of a text is what is between its line
feeds: the line ends are blanks, and a line that is not there has nothing on it. -/
theorem nonblank_lines (cs : List Char) :
    ((linesOf cs).map trimChars).filter (· ≠ []) = contents cs := by
  have hne := pieces_ne_nil '\n' cs
  have hopen (last : List Char) : ((openLine last).map trimChars).filter (· ≠ []) =
      ([last].map trimChars).filter (· ≠ []) := by
    cases last with
    | nil => rfl
    | cons c cs => rfl
  show (((pieces '\n' cs).dropLast.map chopReturn ++
    openLine ((pieces '\n' cs).getLastD [])).map trimChars).filter (· ≠ []) = _
  unfold contents
  generalize pieces '\n' cs = ps at hne
  conv => rhs; rw [← List.dropLast_append_getLast hne]
  rw [List.map_append, List.map_append, List.filter_append, List.filter_append, hopen,
    map_trimChars_chopReturn, List.getLastD_eq_getLast?, List.getLast?_eq_some_getLast hne]
  rfl

/-- No line holds a line feed. -/
theorem not_mem_of_mem_lines {s l : String} (hl : l ∈ lines s) : '\n' ∉ l.toList := by
  obtain ⟨cs, hcs, rfl⟩ := List.mem_map.mp hl
  rw [String.toList_ofList]
  have hne := pieces_ne_nil '\n' s.toList
  have hchop (p : List Char) : chopReturn p ⊆ p := by
    unfold chopReturn
    split
    · exact p.dropLast_subset
    · exact List.Subset.refl p
  rcases List.mem_append.mp hcs with hcs | hcs
  · obtain ⟨p, hp, rfl⟩ := List.mem_map.mp hcs
    exact fun hc => not_mem_of_mem_pieces (List.dropLast_subset _ hp) (hchop p hc)
  · have hlast : (pieces '\n' s.toList).getLastD [] ∈ pieces '\n' s.toList := by
      rw [List.getLastD_eq_getLast?, List.getLast?_eq_some_getLast hne]
      exact List.getLast_mem hne
    unfold openLine at hcs
    split at hcs
    · cases hcs
    · rw [List.mem_singleton.mp hcs]
      exact not_mem_of_mem_pieces hlast

/-- The trimmed lines of a text that have anything on them. -/
def nonblankLines (s : String) : List String := (trimmedLines s).filter (· ≠ "")

theorem nonblankLines_eq (s : String) :
    nonblankLines s = (contents s.toList).map String.ofList := by
  unfold nonblankLines
  rw [trimmedLines_eq, List.filter_map, ← nonblank_lines]
  congr 1
  refine List.filter_congr fun cs _ => ?_
  simp

/-- Texts with a line feed between them have their lines to themselves. -/
theorem contents_append (front back : List Char) :
    contents (front ++ '\n' :: back) = contents front ++ contents back := by
  unfold contents
  rw [pieces_append, List.map_append, List.filter_append]

theorem nonblankLines_append (s s' : String) :
    nonblankLines (s ++ "\n" ++ s') = nonblankLines s ++ nonblankLines s' := by
  have htext : (s ++ "\n" ++ s').toList = s.toList ++ '\n' :: s'.toList := by simp
  simp only [nonblankLines_eq]
  rw [htext, contents_append, List.map_append]

/-- A blank in front of a text, be it a line feed, does not change what is on its lines. -/
theorem contents_cons {c : Char} (hc : isBlank c = true) (cs : List Char) :
    contents (c :: cs) = contents cs := by
  by_cases hfeed : c = '\n'
  · subst hfeed
    exact contents_append [] cs
  · obtain ⟨p, ps, hps⟩ := List.exists_cons_of_ne_nil (pieces_ne_nil '\n' cs)
    have htrim : trimChars (c :: p) = trimChars p := by
      unfold trimChars
      rw [List.dropWhile_cons_of_pos hc]
    unfold contents
    rw [pieces, if_neg hfeed, hps]
    simp only [List.map_cons, htrim]

/-- A character that is no separator goes on with the last piece. -/
theorem pieces_concat (cs : List Char) {sep c : Char} (hc : c ≠ sep) :
    pieces sep (cs ++ [c]) = (pieces sep cs).dropLast ++ [(pieces sep cs).getLastD [] ++ [c]] := by
  induction cs with
  | nil => simp [pieces, hc]
  | cons d cs ih =>
    obtain ⟨p, ps, hps⟩ := List.exists_cons_of_ne_nil (pieces_ne_nil sep cs)
    rw [List.cons_append, pieces, pieces, ih, hps]
    split
    · rfl
    · cases ps <;> rfl

/-- The same for a blank after a text. -/
theorem contents_concat (cs : List Char) {c : Char} (hc : isBlank c = true) :
    contents (cs ++ [c]) = contents cs := by
  by_cases hfeed : c = '\n'
  · subst hfeed
    rw [contents_append]
    exact List.append_nil _
  · have hne := pieces_ne_nil '\n' cs
    have hlast : trimChars ((pieces '\n' cs).getLastD [] ++ [c]) =
        trimChars ((pieces '\n' cs).getLast hne) := by
      rw [trimChars_concat _ hc, List.getLastD_eq_getLast?, List.getLast?_eq_some_getLast hne]
      rfl
    unfold contents
    rw [pieces_concat cs hfeed, List.map_append, List.map_singleton, hlast, ← List.map_singleton,
      ← List.map_append, List.dropLast_append_getLast hne]

/-- Trimming a text as a whole takes nothing off its lines but blanks. -/
theorem contents_trimChars (cs : List Char) : contents (trimChars cs) = contents cs := by
  have hfirst : contents (cs.dropWhile isBlank) = contents cs := by
    induction cs with
    | nil => rfl
    | cons c cs ih =>
      by_cases hc : isBlank c = true
      · rw [List.dropWhile_cons_of_pos hc, ih, contents_cons hc]
      · rw [List.dropWhile_cons_of_neg hc]
  have hlast (ds : List Char) : contents (ds.rdropWhile isBlank) = contents ds := by
    induction ds using List.reverseRecOn with
    | nil => rfl
    | append_singleton ds c ih =>
      by_cases hc : isBlank c = true
      · rw [List.rdropWhile_concat_pos isBlank ds c hc, ih, contents_concat ds hc]
      · rw [List.rdropWhile_concat_neg isBlank ds c hc]
  unfold trimChars
  rw [trimRight_eq_rdropWhile, hlast, hfirst]

theorem nonblankLines_trim (s : String) : nonblankLines (trim s) = nonblankLines s := by
  rw [nonblankLines_eq, nonblankLines_eq, trim, String.toList_ofList,
    contents_trimChars]

/-- A character, with a carriage return in front of a line feed. -/
def lineEnd (c : Char) : List Char := if c = '\n' then ['\r', '\n'] else [c]

/-- The text with a carriage return in front of every line feed. -/
def withReturns (s : String) : String := String.ofList (s.toList.flatMap lineEnd)

/-- The carriage returns are blanks at the ends of lines. What stands before the text is kept in the
statement: it is the part of a line that has been gone through. -/
theorem contents_lineEnd (front cs : List Char) :
    contents (front ++ cs.flatMap lineEnd) = contents (front ++ cs) := by
  induction cs generalizing front with
  | nil => rfl
  | cons c cs ih =>
    by_cases hfeed : c = '\n'
    · subst hfeed
      have hsplit : front ++ ('\n' :: cs).flatMap lineEnd =
          (front ++ ['\r']) ++ '\n' :: cs.flatMap lineEnd := by simp [lineEnd]
      rw [hsplit, contents_append, contents_concat front (by decide), contents_append]
      congr 1
      exact ih []
    · have hgo : front ++ (c :: cs).flatMap lineEnd = (front ++ [c]) ++ cs.flatMap lineEnd := by
        simp [lineEnd, hfeed]
      rw [hgo, ih, List.append_assoc, List.singleton_append]

theorem nonblankLines_withReturns (s : String) :
    nonblankLines (withReturns s) = nonblankLines s := by
  rw [nonblankLines_eq, nonblankLines_eq, withReturns, String.toList_ofList]
  exact congrArg _ (contents_lineEnd [] s.toList)

theorem nonblankLines_combined (r : CommandResult) :
    nonblankLines r.combined = nonblankLines r.stdout ++ nonblankLines r.stderr := by
  unfold nonblankLines
  rw [trimmedLines_combined, List.filter_append]

/-- A line that has been trimmed and has something on it. -/
structure IsTrimmedLine (l : String) : Prop where
  trimmed : Trimmed l.toList
  nonblank : l ≠ ""
  one : '\n' ∉ l.toList

theorem isTrimmedLine_of_mem {s l : String} (hl : l ∈ nonblankLines s) : IsTrimmedLine l := by
  rw [nonblankLines_eq] at hl
  obtain ⟨cs, hcs, rfl⟩ := List.mem_map.mp hl
  obtain ⟨hmem, hne⟩ := List.mem_filter.mp hcs
  obtain ⟨p, hp, rfl⟩ := List.mem_map.mp hmem
  refine ⟨?_, ?_, ?_⟩
  · rw [String.toList_ofList]
    exact trimmed_trimChars p
  · intro hnil
    have := congrArg String.toList hnil
    rw [String.toList_ofList] at this
    simp [this] at hne
  · rw [String.toList_ofList]
    exact fun hc => not_mem_of_mem_pieces hp ((trimChars_isInfix p).subset hc)

/-- Such lines joined by line feeds come apart again. -/
theorem nonblankLines_intercalate {ls : List String} (hls : ∀ l ∈ ls, IsTrimmedLine l) :
    nonblankLines ("\n".intercalate ls) = ls := by
  have htrim : (ls.map String.toList).map trimChars = ls.map String.toList := by
    rw [List.map_map]
    exact List.map_congr_left fun l hl => (hls l hl).trimmed.trimChars_eq
  have hkeep : (ls.map String.toList).filter (· ≠ []) = ls.map String.toList := by
    rw [List.filter_eq_self]
    intro cs hcs
    obtain ⟨l, hl, rfl⟩ := List.mem_map.mp hcs
    simpa using (hls l hl).nonblank
  have hback : (ls.map String.toList).map String.ofList = ls := by simp
  rw [nonblankLines_eq, contents, String.toList_intercalate, pieces_eq_splitOn]
  cases ls with
  | nil => rfl
  | cons l rest =>
    rw [show "\n".toList = ['\n'] from rfl, List.splitOn_intercalate '\n' _ (by simp), htrim, hkeep,
      hback]
    intro cs hcs
    obtain ⟨m, hm, rfl⟩ := List.mem_map.mp hcs
    exact (hls m hm).one

/-- Some of the non-blank lines of a text are read again as they are when they are written one below
the other. -/
theorem filter_nonblankLines_intercalate (keep : String → Bool) (s : String) :
    (nonblankLines ("\n".intercalate ((nonblankLines s).filter keep))).filter keep =
      (nonblankLines s).filter keep := by
  rw [nonblankLines_intercalate fun l hl => isTrimmedLine_of_mem (List.mem_of_mem_filter hl),
    List.filter_filter]
  simp only [Bool.and_self]

end HostSuite.Text
