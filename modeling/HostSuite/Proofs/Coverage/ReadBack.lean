import HostSuite.Coverage.Summary
import HostSuite.Proofs.Coverage.SummaryLines
import HostSuite.Proofs.Text.Blocks

/-
  Reading a report back. A section is written as a block: its label with a colon and its lines,
  moved in by two spaces, or one line that says that there is no answer. Summary lines are neither
  blank nor longer than a line, so cutting the text after the header at its blank lines gives the
  blocks again, one for each section in the order in which they were added; and a label that does
  not begin with a space keeps the two kinds of blocks apart. So every section can be read in its
  block (`Summary.ofBlock_textLines`), and the text of a report fixes its sections
  (`report_reads_back`).
-/

namespace HostSuite.Coverage

namespace Summary

/-! ## Sections as blocks -/

def missing : String := "  Summary not available for "

/-- The lines of the block of a section. -/
def textLines (s : Summary) : List String :=
  match s.lines with
  | some ls => (s.label ++ ":") :: ls.map ("  " ++ ·)
  | none => [missing ++ s.label]

/-- The section that the lines of a block tell. -/
def ofBlock : List String → Summary
  | [] => ⟨"", none⟩
  | first :: rest =>
    if missing.toList.isPrefixOf first.toList then
      ⟨String.ofList (first.toList.drop missing.length), none⟩
    else ⟨String.ofList first.toList.dropLast,
      some (rest.map fun l => String.ofList (l.toList.drop 2))⟩

/-- The label is one line that does not begin with a space, and lines are what was read out of some
output. -/
structure Legible (s : Summary) : Prop where
  one : '\n' ∉ s.label.toList
  unindented : s.label.toList.head? ≠ some ' '
  read : ∀ ls, s.lines = some ls → ∃ output, ls = summaryLines output

theorem render_eq (s : Summary) : s.render = Text.unlines s.textLines := by
  obtain ⟨label, lines⟩ := s
  cases lines with
  | none => simp [render, textLines, missing, Text.unlines, String.join_cons]
  | some ls =>
    have hlabel : label ++ ":\n" = label ++ ":" ++ "\n" := by
      rw [String.append_assoc]
      rfl
    show label ++ ":\n" ++ _ = Text.unlines ((label ++ ":") :: ls.map ("  " ++ ·))
    rw [Text.unlines_cons, hlabel]
    unfold Text.unlines
    rw [List.map_map]
    rfl

/-- No line of a block is blank, or more than one line. -/
theorem Legible.of_mem_textLines {s : Summary} (hs : s.Legible) {l : String}
    (hl : l ∈ s.textLines) : Text.isBlankText l = false ∧ '\n' ∉ l.toList := by
  obtain ⟨label, lines⟩ := s
  have hlabel : '\n' ∉ label.toList := hs.one
  -- One character that is not blank is enough.
  have hblank {l : String} (c : Char) (hc : c ∈ l.toList) (hb : Text.isBlank c = false) :
      Text.isBlankText l = false := by
    unfold Text.isBlankText
    rw [List.all_eq_false]
    exact ⟨c, hc, by simp [hb]⟩
  cases lines with
  | none =>
    obtain rfl := List.mem_singleton.mp hl
    refine ⟨hblank 'S' ?_ (by decide), ?_⟩
    · exact String.toList_append ▸ List.mem_append_left _ (by decide)
    · rw [String.toList_append, List.mem_append, not_or]
      exact ⟨by decide, hlabel⟩
  | some ls =>
    obtain rfl | hl := List.mem_cons.mp hl
    · refine ⟨hblank ':' (by simp) (by decide), ?_⟩
      rw [String.toList_append, List.mem_append, not_or]
      exact ⟨hlabel, by decide⟩
    · obtain ⟨m, hm, rfl⟩ := List.mem_map.mp hl
      obtain ⟨output, rfl⟩ := hs.read ls rfl
      obtain ⟨htrimmed, hne, hone⟩ := isTrimmedLine_of_mem_summaryLines hm
      cases hchars : m.toList with
      | nil => exact absurd (String.toList_inj.mp hchars) hne
      | cons c cs =>
        refine ⟨hblank c (by simp [hchars]) (htrimmed.first c (by simp [hchars])), ?_⟩
        rw [String.toList_append, List.mem_append, not_or]
        exact ⟨by decide, hone⟩

theorem Legible.areBlock {s : Summary} (hs : s.Legible) : Text.AreBlock s.textLines := by
  intro l hl
  obtain ⟨hblank, hone⟩ := hs.of_mem_textLines hl
  refine ⟨?_, hone⟩
  rintro rfl
  cases hblank

/-- The label does not look like the line that says that there is no answer. -/
theorem Legible.not_missing {s : Summary} (hs : s.Legible) :
    missing.toList.isPrefixOf (s.label ++ ":").toList = false := by
  have hmissing : missing.toList = ' ' :: " Summary not available for ".toList := rfl
  rw [String.toList_append, hmissing]
  cases hchars : s.label.toList with
  | nil => rfl
  | cons c cs =>
    have hc : c ≠ ' ' := by
      rintro rfl
      exact hs.unindented (by rw [hchars]; rfl)
    have hbeq : (' ' == c) = false := by simpa using hc.symm
    rw [List.cons_append, List.isPrefixOf, hbeq, Bool.false_and]

/-- A section is what its block tells. -/
theorem ofBlock_textLines {s : Summary} (hs : s.Legible) : ofBlock s.textLines = s := by
  have hnot := hs.not_missing
  obtain ⟨label, lines⟩ := s
  cases lines with
  | none =>
    have hprefix : missing.toList.isPrefixOf (missing ++ label).toList = true := by
      rw [String.toList_append, List.isPrefixOf_iff_prefix]
      exact List.prefix_append _ _
    show ofBlock [missing ++ label] = _
    rw [ofBlock, if_pos hprefix, String.toList_append, ← String.length_toList, List.drop_left,
      String.ofList_toList]
  | some ls =>
    have hback : (ls.map ("  " ++ ·)).map (fun l => String.ofList (l.toList.drop 2)) = ls := by
      rw [List.map_map]
      conv => rhs; rw [← List.map_id ls]
      refine List.map_congr_left fun l _ => ?_
      simp
    show ofBlock ((label ++ ":") :: ls.map ("  " ++ ·)) = _
    rw [ofBlock, if_neg (Bool.not_eq_true _ ▸ hnot), hback]
    simp

end Summary

/-! ## Reports -/

/-- The report to which these sections were added one after the other. -/
def Report.filed (generated : String) (ss : List Summary) : Report :=
  ss.foldl Report.add ⟨generated, []⟩

theorem Report.filed_eq (generated : String) (ss : List Summary) :
    filed generated ss = ⟨generated, ss⟩ := by
  have hadded (r : Report) (ss : List Summary) :
      ss.foldl Report.add r = ⟨r.generated, r.sections ++ ss⟩ := by
    induction ss generalizing r with
    | nil => simp
    | cons s ss ih => rw [List.foldl_cons, ih, Report.add, List.append_assoc, List.singleton_append]
  unfold filed
  rw [hadded, List.nil_append]

/-- The text after the header. -/
def bodyOf (ss : List Summary) : String := Text.unlines (Text.spaced (ss.map Summary.textLines))

theorem Report.render_filed (generated : String) (ss : List Summary) :
    (filed generated ss).render = (filed generated []).header ++ bodyOf ss := by
  have hblocks : (ss.map Summary.textLines).map (fun b => Text.unlines b ++ "\n") =
      ss.map fun s => s.render ++ "\n" := by
    rw [List.map_map]
    refine List.map_congr_left fun s _ => ?_
    rw [Function.comp_apply, Summary.render_eq]
  unfold render bodyOf
  rw [filed_eq, filed_eq, Text.unlines_spaced, hblocks]
  rfl

theorem blockLines_bodyOf {ss : List Summary} (hs : ∀ s ∈ ss, s.Legible) :
    Text.blockLines (bodyOf ss) = ss.map Summary.textLines := by
  refine Text.blockLines_unlines fun b hb => ?_
  obtain ⟨s, hmem, rfl⟩ := List.mem_map.mp hb
  exact (hs s hmem).areBlock

theorem sections_of_bodyOf {ss : List Summary} (hs : ∀ s ∈ ss, s.Legible) :
    (Text.blockLines (bodyOf ss)).map Summary.ofBlock = ss := by
  rw [blockLines_bodyOf hs, List.map_map]
  conv => rhs; rw [← List.map_id ss]
  exact List.map_congr_left fun s hmem => Summary.ofBlock_textLines (hs s hmem)

/-- What can be read in the text of a report after its header: one block for each section, in the
order in which they were added, with no blank line in it, and in each block its section. -/
structure ReadsBack (generated : String) (ss : List Summary) (body : String) : Prop where
  text : (Report.filed generated ss).render = (Report.filed generated []).header ++ body
  blocks : Text.blocks body = ss.map Summary.render
  nonblank : ∀ b ∈ Text.blocks body, ∀ l ∈ Text.endedLines b, Text.isBlankText l = false
  sections : (Text.blockLines body).map Summary.ofBlock = ss

theorem readsBack_bodyOf (generated : String) {ss : List Summary} (hs : ∀ s ∈ ss, s.Legible) :
    ReadsBack generated ss (bodyOf ss) := by
  have hblocks : Text.blocks (bodyOf ss) = ss.map Summary.render := by
    unfold Text.blocks
    rw [blockLines_bodyOf hs, List.map_map]
    exact List.map_congr_left fun s _ => (Summary.render_eq s).symm
  refine ⟨Report.render_filed generated ss, hblocks, ?_, sections_of_bodyOf hs⟩
  intro b hb l hl
  rw [hblocks] at hb
  obtain ⟨s, hmem, rfl⟩ := List.mem_map.mp hb
  rw [Summary.render_eq, Text.endedLines_unlines fun m hm =>
    ((hs s hmem).of_mem_textLines hm).2] at hl
  exact ((hs s hmem).of_mem_textLines hl).1

/-- A report of legible sections can be read back: cut at its blank lines, the text after the header
gives the sections as they were added. So reports of one time with the same text have the same
sections, and sections with the same block are the same, whether there was an answer or not. -/
theorem report_reads_back {generated : String} {ss : List Summary} (hs : ∀ s ∈ ss, s.Legible) :
    (∃ body, ReadsBack generated ss body) ∧
    (∀ ss' : List Summary, (∀ s ∈ ss', s.Legible) →
      (Report.filed generated ss').render = (Report.filed generated ss).render → ss' = ss) ∧
    ∀ s s' : Summary, s.Legible → s'.Legible → s'.render = s.render → s' = s := by
  have hinj (ss ss' : List Summary) (hs : ∀ s ∈ ss, s.Legible) (hs' : ∀ s ∈ ss', s.Legible)
      (htext : (Report.filed generated ss').render = (Report.filed generated ss).render) :
      ss' = ss := by
    rw [Report.render_filed, Report.render_filed, String.append_right_inj] at htext
    rw [← sections_of_bodyOf hs', htext, sections_of_bodyOf hs]
  refine ⟨⟨bodyOf ss, readsBack_bodyOf generated hs⟩, fun ss' hs' => hinj ss ss' hs hs', ?_⟩
  intro s s' hs hs' htext
  -- Two sections with the same block make the same report.
  have hone : [s'] = [s] := by
    refine hinj [s] [s'] ?_ ?_ ?_
    · exact fun u hu => List.mem_singleton.mp hu ▸ hs
    · exact fun u hu => List.mem_singleton.mp hu ▸ hs'
    · rw [Report.filed_eq, Report.filed_eq]
      simp only [Report.render, List.map_cons, List.map_nil, htext]
      rfl
  exact List.singleton_inj.mp hone

/-- A section with a line, one without lines and one without an answer. -/
def threeSections : List Summary :=
  [⟨"a", some ["lines......: 1.0% (1 of 100 lines)"]⟩, ⟨"b", some []⟩, ⟨"UNIFIED REPORT", none⟩]

theorem legible_threeSections : ∀ s ∈ threeSections, s.Legible := by
  intro s hs
  simp only [threeSections, List.mem_cons, List.not_mem_nil, or_false] at hs
  obtain rfl | rfl | rfl := hs
  · refine ⟨by decide, by decide, ?_⟩
    rintro ls ⟨⟩
    exact ⟨"  lines......: 1.0% (1 of 100 lines)\n", by decide +kernel⟩
  · refine ⟨by decide, by decide, ?_⟩
    rintro ls ⟨⟩
    exact ⟨"", by decide +kernel⟩
  · exact ⟨by decide, by decide, nofun⟩

theorem report_reads_back_threeSections :
    (∀ s ∈ threeSections, s.Legible) ∧
      (∃ body, ReadsBack "2024-05-01 12:00:00" threeSections body ∧
        Text.blocks body = ["a:\n  lines......: 1.0% (1 of 100 lines)\n", "b:\n",
          "  Summary not available for UNIFIED REPORT\n"]) ∧
      (Report.filed "2024-05-01 12:00:00" []).render ≠
        (Report.filed "2024-05-01 12:00:00" threeSections).render := by
  obtain ⟨⟨body, hbody⟩, hinj, -⟩ :=
    @report_reads_back "2024-05-01 12:00:00" threeSections legible_threeSections
  refine ⟨legible_threeSections, ⟨body, hbody, ?_⟩, ?_⟩
  · rw [hbody.blocks]
    decide +kernel
  · intro htext
    cases hinj [] (fun s hs => absurd hs List.not_mem_nil) htext

end HostSuite.Coverage
