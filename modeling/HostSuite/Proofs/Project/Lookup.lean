import HostSuite.Machine
import HostSuite.Proofs.Path.Lexical
import HostSuite.Proofs.Tree.Walk

/-
  What is known of looking programs up. What is found may be executed; a name that goes through
  directories is a path from where the program itself works, and a plain name is found at the first
  program along the search path (`Host.LooksUp`). Directories that begin with a tilde are left
  open, since a look-up may take them for those of a user. A host that looks programs up as trees
  do knows all of this (`looksUp_of_lookUp`): names with a slash but no more than one part are
  looked for along the search path, where they could only lead to directories.
-/

namespace HostSuite

/-- What is known of how a host looks programs up. -/
structure Host.LooksUp (h : Host) : Prop where
  named : ∀ {base dirs t name q}, h.lookUp base dirs t name = some q → name ≠ ""
  program : ∀ {base dirs t name q}, h.lookUp base dirs t name = some q →
    t.isProgram base q = true
  throughDirs : ∀ {base dirs t name q}, h.lookUp base dirs t name = some q →
    '/' ∈ name.toList → q = (⟨name⟩ : Path).seenFrom base
  searched : ∀ {base dirs t name q}, h.lookUp base dirs t name = some q →
    '/' ∉ name.toList → (∀ d ∈ dirs, d.text.toList.head? ≠ some '~') →
    (dirs.map (·.join name)).find? (t.isProgram base ·) = some q

namespace Path

variable {name : String}

/-- A path with a character that is no slash has a segment. -/
theorem segments_ne_nil_of_mem {p : Path} {a : Char} (ha : a ≠ '/') (hm : a ∈ p.text.toList) :
    p.segments ≠ [] := by
  obtain ⟨s, hs, -⟩ := (mem_text_iff ha).mp hm
  exact List.ne_nil_of_mem hs

/-- A slash that is neither the first nor the last character stands between two segments. -/
theorem two_le_segments (hs : '/' ∈ name.toList) (hfirst : name.toList.head? ≠ some '/')
    (hlast : name.toList.getLast? ≠ some '/') : 2 ≤ (⟨name⟩ : Path).segments.length := by
  obtain ⟨front, back, hname⟩ := List.append_of_mem hs
  have hparts : (⟨name⟩ : Path).segments =
      (⟨String.ofList front⟩ : Path).segments ++ (⟨String.ofList back⟩ : Path).segments := by
    simp only [segments_eq, hname, String.toList_ofList]
    rw [List.splitOn_append_cons_self, List.map_append, List.filter_append]
  have hfront : (⟨String.ofList front⟩ : Path).segments ≠ [] := by
    cases front with
    | nil => simp [hname] at hfirst
    | cons a as =>
      refine segments_ne_nil_of_mem (a := a) ?_ (by simp)
      simpa [hname] using hfirst
  have hback : (⟨String.ofList back⟩ : Path).segments ≠ [] := by
    cases hb : back.getLast? with
    | none =>
      rw [List.getLast?_eq_none_iff] at hb
      simp [hname, hb] at hlast
    | some a =>
      refine segments_ne_nil_of_mem (a := a) ?_ (by simpa using List.mem_of_getLast? hb)
      simpa [hname, List.getLast?_append, List.getLast?_cons, hb] using hlast
  rw [hparts, List.length_append]
  have := List.length_pos_iff.mpr hfront
  have := List.length_pos_iff.mpr hback
  omega

/-- A name with a slash and no more than one part ends in place. -/
theorem getLast?_segments_of_partCount (hs : '/' ∈ name.toList)
    (hlast : name.toList.getLast? ≠ some '/') (hc : (⟨name⟩ : Path).partCount ≤ 1) :
    (⟨name⟩ : Path).segments.getLast? = some "." := by
  obtain ⟨a, ha⟩ : ∃ a, name.toList.getLast? = some a :=
    Option.ne_none_iff_exists'.mp fun hn => by
      rw [List.getLast?_eq_none_iff] at hn
      rw [hn] at hs
      cases hs
  have hne : (⟨name⟩ : Path).segments ≠ [] :=
    segments_ne_nil_of_mem (a := a) (fun h => hlast (h ▸ ha)) (List.mem_of_getLast? ha)
  rw [List.getLast?_eq_some_getLast hne]
  congr 1
  unfold partCount steps at hc
  by_cases habs : (⟨name⟩ : Path).isAbsolute = true
  · -- the top is a part already, so all segments stay in place
    rw [if_pos habs] at hc
    have hnone : (⟨name⟩ : Path).segments.filter (· ≠ ".") = [] :=
      List.eq_nil_of_length_eq_zero (by omega)
    simpa using List.filter_eq_nil_iff.mp hnone _ (List.getLast_mem hne)
  · rw [if_neg habs] at hc
    have htwo := two_le_segments hs (by simpa [isAbsolute] using habs) hlast
    obtain ⟨first, rest, hsegs⟩ := List.exists_cons_of_ne_nil hne
    have hrest : rest ≠ [] := by
      rintro rfl
      rw [hsegs] at htwo
      simp at htwo
    -- the first segment is a part, whether it stays in place or not
    have hnone : rest.filter (· ≠ ".") = [] := by
      refine List.eq_nil_of_length_eq_zero ?_
      rw [hsegs, List.head?_cons] at hc
      by_cases hf : first = "."
      · rw [if_pos (by rw [hf]), List.filter_cons_of_neg (by simp [hf])] at hc
        omega
      · rw [if_neg (by simpa using hf), List.filter_cons_of_pos (by simpa using hf),
          List.length_cons] at hc
        omega
    simp only [hsegs, List.getLast_cons hrest]
    simpa using List.filter_eq_nil_iff.mp hnone _ (List.getLast_mem hrest)

/-- Joined to any path it asks for a directory. -/
theorem getLast?_walkSteps_join (dir : Path) (hs : '/' ∈ name.toList)
    (hc : (⟨name⟩ : Path).partCount ≤ 1) :
    (Tree.walkSteps (dir.join name)).getLast? = some "." := by
  unfold Tree.walkSteps
  split
  · exact List.getLast?_concat
  · rename_i hends
    have hne : name.toList ≠ [] := List.ne_nil_of_mem hs
    have hlast : name.toList.getLast? ≠ some '/' := by
      obtain ⟨front, hf⟩ := text_join dir name
      intro hl
      apply hends
      simp [endsInSlash, hf, List.getLast?_append, hl]
    have hin := getLast?_segments_of_partCount hs hlast hc
    by_cases hhead : name.toList.head? = some '/'
    · unfold join
      rw [if_pos hhead]
      exact hin
    · rw [segments_join dir hhead, List.getLast?_append, hin]
      rfl

end Path

namespace Tree

variable {t : Tree} {base place : Place}

/-- A walk that ends with a step in place ends in a directory. -/
theorem Reaches.searchable_of_dot {follow : Bool} {links : Nat} {here q : Place}
    {steps : List String} (hr : Reaches t follow links here steps q)
    (hdot : steps.getLast? = some ".") : t.Searchable q := by
  have hrest {step : String} {rest : List String} (hne : step ≠ ".")
      (hl : (step :: rest).getLast? = some ".") : rest.getLast? = some "." := by
    cases rest with
    | nil => exact absurd (Option.some.inj hl) hne
    | cons _ _ => rwa [List.getLast?_cons_cons] at hl
  induction hr with
  | stop => cases hdot
  | @stay _ _ _ rest hs hr ih =>
    cases rest with
    | nil =>
      cases hr
      exact hs
    | cons _ _ => exact ih (by rwa [List.getLast?_cons_cons] at hdot)
  | up _ _ ih => exact ih (hrest (by decide) hdot)
  | down _ hn _ _ ih => exact ih (hrest hn.ne_dot hdot)
  | halt _ hn => exact absurd (Option.some.inj hdot) hn.ne_dot
  | link _ hn _ _ _ ih =>
    refine ih ?_
    rw [List.getLast?_append, hrest hn.ne_dot hdot]
    rfl

/-- What asks for a directory is no program. -/
theorem not_isProgram_of_dot {p : Path} (hdot : (walkSteps p).getLast? = some ".") :
    t.isProgram base p = false := by
  rw [Bool.eq_false_iff]
  intro hp
  obtain ⟨place, content, mode, hf, -⟩ := isProgram_iff.mp hp
  obtain ⟨hr, hl⟩ := find_eq_ok_iff.mp hf
  obtain ⟨bits, hd, -⟩ := (resolve_eq_ok_iff.mp hr).2.2.searchable_of_dot hdot
  rw [hl] at hd
  cases hd

/-- A plain name has one part. -/
theorem programPaths_plain {dirs : List Path} {name : String} (he : name ≠ "")
    (hs : '/' ∉ name.toList) : programPaths base dirs name = dirs.map (·.join name) := by
  have habs : (⟨name⟩ : Path).isAbsolute = false := by
    simpa [Path.isAbsolute] using Path.head_ne_slash hs
  have hparts : (⟨name⟩ : Path).partCount = 1 := by
    unfold Path.partCount Path.steps
    rw [habs, Path.segments_plain he hs]
    by_cases hd : name = "." <;> simp [hd]
  unfold programPaths
  rw [if_neg he, if_neg (by rw [hparts]; decide)]

end Tree

/-- Looking programs up in the tree is looking them up. -/
theorem Host.looksUp_of_lookUp {h : Host} (hl : h.lookUp = Tree.lookUp) : h.LooksUp where
  named := by
    rintro base dirs t name q hq rfl
    rw [hl] at hq
    cases hq
  program := by
    intro base dirs t name q hq
    rw [hl] at hq
    exact List.find?_some hq
  throughDirs := by
    intro base dirs t name q hq hs
    rw [hl] at hq
    have hmem := List.mem_of_find?_eq_some hq
    unfold Tree.programPaths at hmem
    split at hmem
    · cases hmem
    · split at hmem
      · exact List.mem_singleton.mp hmem
      · rename_i hc
        obtain ⟨dir, -, rfl⟩ := List.mem_map.mp hmem
        have hprogram := List.find?_some hq
        rw [Tree.not_isProgram_of_dot (Path.getLast?_walkSteps_join dir hs (by omega))] at hprogram
        cases hprogram
  searched := by
    intro base dirs t name q hq hs _
    have he : name ≠ "" := by
      rintro rfl
      rw [hl] at hq
      cases hq
    rw [← Tree.programPaths_plain he hs, ← hq, hl]
    rfl

end HostSuite
