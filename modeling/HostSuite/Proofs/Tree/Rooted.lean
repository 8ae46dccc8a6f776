import HostSuite.Proofs.Tree.Layouts
import HostSuite.Proofs.Tree.Names
import HostSuite.Proofs.Tree.SameSteps

/-
  Everything is in a directory. In a rooted tree each name stands in a directory, and the top has no
  entry of its own; every tree that is laid out is rooted (`rooted_putAll`). What is not there has
  nothing below it, so two rooted trees with the same at every place are the same (`Rooted.ext`),
  and a directory that was emptied name by name has nothing left below it. A removal that succeeds
  leaves nothing at the place and below it (`removeDirs_gone`).
-/

namespace HostSuite.Tree

/-- Every name is in a directory. -/
structure Rooted (t : Tree) : Prop where
  top : t.nodes[([] : Place)]? = none
  parent : ∀ q name node, t.lookup (q ++ [name]) = some node → ∃ mode, t.lookup q = some (.dir mode)

variable {t t' : Tree} {p q : Place}

/-! ## What is below -/

namespace Rooted

theorem ext (ht : t.Rooted) (ht' : t'.Rooted) (h : ∀ q, t'.lookup q = t.lookup q) : t' = t := by
  have hnodes : t'.nodes = t.nodes := by
    apply Std.ExtTreeMap.ext_getElem?
    intro q
    by_cases hq : q = []
    · rw [hq, ht.top, ht'.top]
    · have hlookup := h q
      unfold lookup at hlookup
      rwa [if_neg hq, if_neg hq] at hlookup
  exact congrArg Tree.mk hnodes

/-- Above anything there are directories. -/
theorem above (ht : t.Rooted) {n : Node} (hq : t.lookup q = some n) (hp : p <+: q) (hne : p ≠ q) :
    ∃ mode, t.lookup p = some (.dir mode) := by
  obtain ⟨rest, rfl⟩ := hp
  induction rest using List.reverseRecOn generalizing n with
  | nil => exact absurd (List.append_nil p).symm hne
  | append_singleton rest name ih =>
    rw [← List.append_assoc] at hq
    obtain ⟨mode, hdir⟩ := ht.parent _ name n hq
    by_cases hrest : p = p ++ rest
    · exact ⟨mode, hrest ▸ hdir⟩
    · exact ih hdir hrest

theorem gone_below (ht : t.Rooted) (hgone : t.lookup p = none) (hp : p <+: q) :
    t.lookup q = none := by
  by_cases hne : p = q
  · rw [← hne, hgone]
  · refine Option.eq_none_iff_forall_ne_some.mpr fun n hq => ?_
    obtain ⟨mode, hdir⟩ := ht.above hq hp hne
    rw [hgone] at hdir
    cases hdir

theorem none_in (ht : t.Rooted) (hp : ∀ mode, t.lookup p ≠ some (.dir mode)) (name : String) :
    t.lookup (p ++ [name]) = none := by
  refine Option.eq_none_iff_forall_ne_some.mpr fun n hn => ?_
  obtain ⟨mode, hdir⟩ := ht.parent p name n hn
  exact hp mode hdir

/-- A place with nothing in it may be cleared. -/
theorem clear (ht : t.Rooted) (hempty : ∀ name, t.lookup (p ++ [name]) = none) :
    (t.clear p).Rooted := by
  refine ⟨?_, ?_⟩
  · show (t.nodes.erase p)[([] : Place)]? = none
    rw [Std.ExtTreeMap.getElem?_erase, ht.top, ite_self]
  · intro q name node hl
    have hne : p ≠ q ++ [name] := by
      rintro rfl
      rw [lookup_clear_self t _ (by simp)] at hl
      cases hl
    rw [lookup_clear_ne t hne] at hl
    have hne' : p ≠ q := by
      rintro rfl
      rw [hempty name] at hl
      cases hl
    obtain ⟨mode, hdir⟩ := ht.parent q name node hl
    exact ⟨mode, (lookup_clear_ne t hne').trans hdir⟩

/-- Something may be put into a directory, but not in the place of a directory, unless it is one. -/
theorem set (ht : t.Rooted) (hp : p ≠ []) (hparent : ∃ mode, t.lookup p.dropLast = some (.dir mode))
    {n : Node} (hn : (∃ mode, n = .dir mode) ∨ ∀ mode, t.lookup p ≠ some (.dir mode)) :
    (t.set p n).Rooted := by
  refine ⟨?_, ?_⟩
  · show (t.nodes.insert p n)[([] : Place)]? = none
    rw [Std.ExtTreeMap.getElem?_insert, if_neg (by simpa using hp), ht.top]
  · intro q name node hl
    by_cases hq : p = q ++ [name]
    · subst hq
      rw [List.dropLast_concat] at hparent
      rwa [lookup_set_ne t n (by simp)]
    · rw [lookup_set_ne t n hq] at hl
      obtain ⟨mode, hdir⟩ := ht.parent q name node hl
      by_cases hpq : p = q
      · subst hpq
        obtain ⟨m, rfl⟩ := hn.resolve_right fun h => h mode hdir
        exact ⟨m, lookup_set_self t p _ hp⟩
      · exact ⟨mode, (lookup_set_ne t n hpq).trans hdir⟩

/-- Something may be put into a directory where nothing is. -/
theorem put (ht : t.Rooted) (hnone : t.lookup p = none)
    (hparent : ∃ mode, t.lookup p.dropLast = some (.dir mode)) (n : Node) : (t.set p n).Rooted := by
  have hp : p ≠ [] := by
    rintro rfl
    cases hnone
  refine ht.set hp hparent (.inr fun mode hd => ?_)
  rw [hnone] at hd
  cases hd

end Rooted

theorem rooted_empty : empty.Rooted := by
  refine ⟨by simp [empty], fun q name node hl => ?_⟩
  simp [lookup, empty] at hl

/-! ## Removing -/

/-- Emptying keeps trees rooted, and leaves nothing in a place where it succeeds. -/
def Empties (empty : Tree → Place → Tree × Option IoError) : Prop :=
  ∀ t p, t.Rooted → (empty t p).1.Rooted ∧
    ((empty t p).2 = none → ∀ name, (empty t p).1.lookup (p ++ [name]) = none)

theorem emptied_empties {empty : Tree → Place → Tree × Option IoError} (he : Empties empty) :
    Empties (emptied empty) := by
  intro t p ht
  unfold emptied
  split
  · exact he t p ht
  · rename_i hnot
    exact ⟨ht, fun _ => ht.none_in hnot⟩

/-- By the names: each one is gone after its turn, and stays so. -/
theorem removeNames_empties {empty : Tree → Place → Tree × Option IoError} (he : Empties empty)
    (hclears : ∀ t p, OnlyClears (p <+: ·) t (empty t p).1) (mode : Nat) (here : Place)
    (names : List String) (ht : t.Rooted) :
    (removeNames empty mode here names t).1.Rooted ∧
      ((removeNames empty mode here names t).2 = none →
        ∀ name ∈ names,
          (removeNames empty mode here names t).1.lookup (here ++ [name]) = none) := by
  induction names generalizing t with
  | nil => exact ⟨ht, fun _ _ hm => absurd hm List.not_mem_nil⟩
  | cons name names ih =>
    obtain ⟨hr, hgone⟩ := emptied_empties he t (here ++ [name]) ht
    rw [removeNames_cons]
    generalize emptied empty t (here ++ [name]) = x at hr hgone ⊢
    obtain ⟨t', o⟩ := x
    cases o with
    | some e => exact ⟨hr, nofun⟩
    | none =>
      dsimp only at hr hgone ⊢
      split
      · obtain ⟨hr', hrest⟩ := ih (hr.clear (hgone rfl))
        refine ⟨hr', fun hok m hm => ?_⟩
        obtain rfl | hm := List.mem_cons.mp hm
        · exact (removeNames_onlyClears hclears mode here names _).stays_gone
            (lookup_clear_self t' _ (by simp))
        · exact hrest hok m hm
      · exact ⟨hr, nofun⟩

/-- By the depth. -/
theorem emptyDir_empties (depth : Nat) : Empties (emptyDir depth) := by
  induction depth with
  | zero => exact fun t p ht => ⟨ht, nofun⟩
  | succ depth ih =>
    intro t p ht
    unfold emptyDir
    split
    · rename_i mode hl
      split
      · obtain ⟨hr, hgone⟩ :=
          removeNames_empties ih (emptyDir_onlyClears depth) mode p (t.namesIn p) ht
        refine ⟨hr, fun hok name => ?_⟩
        by_cases hm : name ∈ t.namesIn p
        · exact hgone hok name hm
        · have hnone : t.lookup (p ++ [name]) = none :=
            Option.eq_none_iff_forall_ne_some.mpr fun n hn => hm (mem_namesIn.mpr ⟨n, hn⟩)
          exact (removeNames_onlyClears (emptyDir_onlyClears depth) mode p _ t).stays_gone hnone
      · exact ⟨ht, nofun⟩
    · exact ⟨ht, nofun⟩

variable {base : Place} {path : Path}

theorem Removal.rooted {x : Tree × Option IoError} (hr : Removal t base path x) (ht : t.Rooted) :
    x.1.Rooted := by
  cases hr with
  | refused e => exact ht
  | unlinked hf =>
    refine ht.clear (ht.none_in fun mode hd => ?_)
    rw [(find_eq_ok_iff.mp hf).2] at hd
    cases hd
  | @stopped q mode hf e => exact (emptyDir_empties _ t q ht).1
  | @removed q mode t' hf hempty hne =>
    have := emptyDir_empties t.depthBound t q ht
    rw [hempty] at this
    exact this.1.clear (this.2 rfl)

theorem Rooted.removeDirs (ht : t.Rooted) : (t.removeDirs base path).1.Rooted :=
  (removeDirs_removal t base path).rooted ht

/-- A directory that was removed is gone, with everything below it. -/
theorem removeDirs_gone (ht : t.Rooted) {mode : Nat}
    (hf : t.find base path false = .ok (p, .dir mode)) (hok : (t.removeDirs base path).2 = none)
    (hq : p <+: q) : (t.removeDirs base path).1.lookup q = none := by
  have hr := removeDirs_removal t base path
  have hrooted : (t.removeDirs base path).1.Rooted := ht.removeDirs
  refine hrooted.gone_below ?_ hq
  generalize t.removeDirs base path = x at hr hok ⊢
  cases hr with
  | refused e => cases hok
  | unlinked hf' =>
    rw [hf] at hf'
    cases hf'
  | stopped hf' e => cases hok
  | @removed q' mode' t' hf' hempty hne =>
    rw [hf] at hf'
    cases hf'
    exact lookup_clear_self t' p hne

theorem Rooted.removeFile (ht : t.Rooted) (hr : t.removeFile base path = .ok t') : t'.Rooted := by
  obtain ⟨q, ⟨n, hf, hnd⟩, rfl⟩ := removeFile_eq_ok hr
  refine ht.clear (ht.none_in fun mode hd => ?_)
  rw [(find_eq_ok_iff.mp hf).2] at hd
  exact hnd mode (Option.some.inj hd)

/-! ## Layouts -/

theorem parent_of_mayChangeAround (h : t.mayChangeAround p = true) :
    ∃ mode, t.lookup p.dropLast = some (.dir mode) := by
  unfold mayChangeAround at h
  split at h
  · rename_i mode hd
    exact ⟨mode, hd⟩
  · cases h

theorem Rooted.parent_of_lookup (ht : t.Rooted) {n : Node} (hp : p ≠ [])
    (hl : t.lookup p = some n) : ∃ mode, t.lookup p.dropLast = some (.dir mode) := by
  obtain ⟨front, last, rfl⟩ := (List.eq_nil_or_concat' p).resolve_left hp
  rw [List.dropLast_concat]
  exact ht.parent front last n hl

theorem Rooted.makeDir (ht : t.Rooted) (hm : t.makeDir base path = .ok t') : t'.Rooted := by
  unfold Tree.makeDir at hm
  split at hm
  · cases hm
  · rename_i place hp
    split at hm
    · cases hm
    · rename_i hnone
      split at hm
      · rename_i hchange
        cases hm
        have hnone : t.lookup place = none := by simpa using hnone
        exact ht.put hnone (parent_of_mayChangeAround hchange) _
      · cases hm

/-- By the depth, as for what is added. -/
theorem Rooted.makeDirsWith (depth : Nat) (ht : t.Rooted) :
    (makeDirsWith depth t base path).1.Rooted := by
  induction depth generalizing t path with
  | zero => exact ht
  | succ depth ih =>
    unfold Tree.makeDirsWith
    extract_lets settle
    have hsettle {t : Tree} (ht : t.Rooted) : (settle t).1.Rooted := by
      simp only [settle]
      cases hm : t.makeDir base path with
      | ok made => exact ht.makeDir hm
      | error e =>
        simp only
        split <;> exact ht
    split
    · exact ht
    · split
      · rename_i above _ hp
        have ha : (Tree.makeDirsWith depth t base above).1.Rooted := ih ht
        cases hd : Tree.makeDirsWith depth t base above with
        | mk made o =>
          rw [hd] at ha
          cases o with
          | none => exact hsettle ha
          | some e => exact ha
      · exact hsettle ht

theorem Rooted.write (ht : t.Rooted) {content : Text.Bytes}
    (hw : t.write base path content = .ok t') : t'.Rooted := by
  unfold Tree.write at hw
  split at hw
  · cases hw
  · rename_i place hp
    split at hw
    · rename_i old mode hl
      split at hw
      · cases hw
        have hne := ne_nil_of_lookup hl (by simp)
        exact ht.set hne (ht.parent_of_lookup hne hl) (.inr (by simp [hl]))
      · cases hw
    · cases hw
    · rename_i hnone
      split at hw
      · rename_i hchange
        cases hw
        exact ht.put hnone (parent_of_mayChangeAround hchange) _
      · cases hw

theorem Rooted.setMode (ht : t.Rooted) {mode : Nat} (hm : t.setMode base path mode = .ok t') :
    t'.Rooted := by
  unfold Tree.setMode at hm
  split at hm
  · cases hm
  · rename_i place content old hf
    cases hm
    have hl := (find_eq_ok_iff.mp hf).2
    have hne := ne_nil_of_lookup hl (by simp)
    exact ht.set hne (ht.parent_of_lookup hne hl) (.inr (by simp [hl]))
  · cases hm
  · rename_i place old hne hf
    cases hm
    have hne : place ≠ [] := hne
    exact ht.set hne (ht.parent_of_lookup hne (find_eq_ok_iff.mp hf).2) (.inl ⟨_, rfl⟩)
  · cases hm
    exact ht

/-- The steps of a path that is not empty. -/
theorem walkSteps_ne_nil (hp : path.text.toList ≠ []) : walkSteps path ≠ [] := by
  unfold walkSteps
  split
  · simp
  · rename_i hends
    intro hnone
    obtain ⟨front, last, hlast⟩ := (List.eq_nil_or_concat' path.text.toList).resolve_left hp
    have hslash : last ≠ '/' := by
      rintro rfl
      exact hends (by simp [Path.endsInSlash, hlast])
    obtain ⟨step, hstep, -⟩ := (Path.mem_text_iff hslash).mp (hlast ▸ List.mem_concat_self)
    rw [hnone] at hstep
    cases hstep

/-- Where a walk gets to and nothing is yet, there is a directory for it. -/
theorem Rooted.parent_of_reaches (ht : t.Rooted) {follow : Bool} {links : Nat} {here : Place}
    {steps : List String} (hr : Reaches t follow links here steps q) (hq : t.lookup q = none) :
    q = here ∨ ∃ mode, t.lookup q.dropLast = some (.dir mode) := by
  induction hr with
  | stop links here => exact .inl rfl
  | stay _ _ ih => exact ih hq
  | @up links here q rest hs _ ih =>
    obtain rfl | h := ih hq
    · obtain ⟨mode, hdir, -⟩ := hs
      by_cases hne : here = []
      · rw [hne] at hq
        cases hq
      · obtain ⟨m, hm⟩ := ht.parent_of_lookup hne hdir
        rw [hm] at hq
        cases hq
    · exact .inr h
  | @down links here q step rest hs _ _ _ ih =>
    obtain rfl | h := ih hq
    · obtain ⟨mode, hdir, -⟩ := hs
      rw [List.dropLast_concat]
      exact .inr ⟨mode, hdir⟩
    · exact .inr h
  | halt _ _ hl _ =>
    rw [hq] at hl
    cases hl
  | @link links here q step target rest hs _ _ _ _ ih =>
    obtain rfl | h := ih hq
    · obtain ⟨mode, hdir, -⟩ := hs
      unfold walkStart at hq
      split at hq
      · cases hq
      · rw [hdir] at hq
        cases hq
    · exact .inr h

theorem Rooted.parent_of_resolve (ht : t.Rooted) {follow : Bool}
    (hr : t.resolve base path follow = .ok q) (hq : t.lookup q = none) :
    ∃ mode, t.lookup q.dropLast = some (.dir mode) := by
  obtain ⟨hne, -, hreach⟩ := resolve_eq_ok_iff.mp hr
  obtain h | h := ht.parent_of_reaches hreach hq
  · obtain ⟨step, rest, hsteps⟩ := List.exists_cons_of_ne_nil (walkSteps_ne_nil hne)
    rw [hsteps] at hreach
    obtain ⟨mode, hdir, -⟩ := hreach.searchable
    rw [← h, hq] at hdir
    cases hdir
  · exact h

/-- Laying out puts everything into a directory. -/
theorem layoutInvariant_rooted (base : Place) : LayoutInvariant base Rooted where
  makeDirs _ ht := ht.makeDirsWith _
  link target ht hp hnone := ht.put hnone (ht.parent_of_resolve hp hnone) (.link target)
  write ht hw := ht.write hw
  setMode ht hm := ht.setMode hm
  removeDirs _ ht := ht.removeDirs
  removeFile ht hr := ht.removeFile hr

theorem rooted_putAll (ht : t.Rooted) (entries : List LayoutEntry) :
    (t.putAll base entries).Rooted :=
  (layoutInvariant_rooted base).putAll ht entries

end HostSuite.Tree
