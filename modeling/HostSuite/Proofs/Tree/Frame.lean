import HostSuite.Tree.Edit
import HostSuite.Proofs.Tree.Walk

/-
  What a change of a tree leaves alone. Making a directory ready only adds directories where
  nothing was, each one named by the path or by a path above it (`GrowsAlong`). The removal of a
  directory can end in four ways (`Removal`), and it only clears places, and only the ones it is
  about (`OnlyClears`). Writing replaces the node at the place that its path names. A walk that
  succeeds goes the same way after a tree has grown (`Grows.reaches`), and what was cleared is not
  found any more (`OnlyClears.find_missing`).
-/

namespace HostSuite

/-- `a` is the path or above it, going up by whole steps. -/
inductive Path.OnWay : Path → Path → Prop
  | self (p : Path) : OnWay p p
  | above {p b a : Path} (hp : p.parent? = some b) (hb : OnWay b a) : OnWay p a

namespace Tree

/-! ## Growing -/

/-- The second tree has more directories, each one where the first has nothing. -/
def Grows (s : Place → Prop) (t t' : Tree) : Prop :=
  ∀ q, t'.lookup q = t.lookup q ∨ s q ∧ t.lookup q = none ∧ t'.lookup q = some (.dir 0o755)

theorem Grows.refl (s : Place → Prop) (t : Tree) : Grows s t t := fun _ => Or.inl rfl

theorem Grows.mono {s s' : Place → Prop} {t t' : Tree} (hg : Grows s t t')
    (hs : ∀ q, s q → s' q) : Grows s' t t' := by
  intro q
  obtain hq | ⟨hq, hn, hd⟩ := hg q
  · exact Or.inl hq
  · exact Or.inr ⟨hs q hq, hn, hd⟩

theorem Grows.trans {s : Place → Prop} {t t' t'' : Tree} (hg : Grows s t t')
    (hg' : Grows s t' t'') : Grows s t t'' := by
  intro q
  obtain hq | ⟨hq, hn, hd⟩ := hg q
  · rw [← hq]; exact hg' q
  · obtain hq' | ⟨-, hn', -⟩ := hg' q
    · exact Or.inr ⟨hq, hn, hq'.trans hd⟩
    · rw [hd] at hn'; cases hn'

theorem Grows.lookup {s : Place → Prop} {t t' : Tree} (hg : Grows s t t') {q : Place} {n : Node}
    (hq : t.lookup q = some n) : t'.lookup q = some n := by
  obtain h | ⟨-, hn, -⟩ := hg q
  · rw [h, hq]
  · rw [hq] at hn; cases hn

/-- A walk that gets to a place goes the same way in a tree that has grown. -/
theorem Grows.reaches {s : Place → Prop} {t t' : Tree} (hg : Grows s t t') {follow : Bool}
    {links : Nat} {here q : Place} {steps : List String}
    (hr : Reaches t follow links here steps q) : Reaches t' follow links here steps q := by
  have hsearch {here : Place} (hs : t.Searchable here) : t'.Searchable here := by
    obtain ⟨mode, hd, hb⟩ := hs
    exact ⟨mode, hg.lookup hd, hb⟩
  induction hr with
  | stop links here => exact .stop links here
  | stay hs _ ih => exact .stay (hsearch hs) ih
  | up hs _ ih => exact .up (hsearch hs) ih
  | @down links here q step rest hs hn hl _ ih =>
    refine .down (hsearch hs) hn ?_ ih
    intro target ht
    obtain hq | ⟨-, -, hd⟩ := hg (here ++ [step])
    · exact hl target (hq ▸ ht)
    · rw [hd] at ht; cases ht
  | halt hs hn hl hf => exact .halt (hsearch hs) hn (hg.lookup hl) hf
  | link hs hn hl hf _ ih => exact .link (hsearch hs) hn (hg.lookup hl) hf ih

theorem Grows.resolve {s : Place → Prop} {t t' : Tree} (hg : Grows s t t') {base q : Place}
    {p : Path} {follow : Bool} (hr : t.resolve base p follow = .ok q) :
    t'.resolve base p follow = .ok q := by
  rw [resolve_eq_ok_iff] at hr ⊢
  exact ⟨hr.1, hr.2.1, hg.reaches hr.2.2⟩

/-- The place of the path or of a path above it, in a tree. -/
def OnWayTo (t : Tree) (base : Place) (p : Path) (q : Place) : Prop :=
  ∃ a, p.OnWay a ∧ t.resolve base a.withoutSlash false = .ok q

/-- Growing by directories on the way to a path. -/
def GrowsAlong (base : Place) (p : Path) (t t' : Tree) : Prop :=
  Grows (t'.OnWayTo base p) t t'

theorem makeDir_growsAlong {t t' : Tree} {base : Place} {p : Path}
    (hm : t.makeDir base p = .ok t') : GrowsAlong base p t t' := by
  unfold makeDir at hm
  split at hm
  · cases hm
  · rename_i place hp
    split at hm
    · cases hm
    · rename_i hnone
      split at hm
      · have hgrows : Grows (· = place) t t' := by
          intro q
          cases hm
          by_cases hq : place = q
          · subst hq
            have hne : place ≠ [] := by
              rintro rfl
              exact hnone rfl
            exact Or.inr ⟨rfl, by simpa using hnone, lookup_set_self t place _ hne⟩
          · exact Or.inl (lookup_set_ne t _ hq)
        refine hgrows.mono ?_
        rintro q rfl
        exact ⟨p, .self p, hgrows.resolve hp⟩
      · cases hm

/-- First along the way above, then the path itself. -/
theorem GrowsAlong.step {t t' t'' : Tree} {base : Place} {p above : Path}
    (hp : p.parent? = some above) (ha : GrowsAlong base above t t')
    (hs : GrowsAlong base p t' t'') : GrowsAlong base p t t'' := by
  refine Grows.trans (ha.mono ?_) hs
  rintro q ⟨a, hon, hq⟩
  exact ⟨a, .above hp hon, hs.resolve hq⟩

/-- By the depth; at each depth the directories above come first. -/
theorem makeDirsWith_growsAlong (depth : Nat) (t : Tree) (base : Place) (p : Path) :
    GrowsAlong base p t (makeDirsWith depth t base p).1 := by
  induction depth generalizing t p with
  | zero => exact Grows.refl _ t
  | succ depth ih =>
    unfold makeDirsWith
    extract_lets settle
    have hsettle (t : Tree) : GrowsAlong base p t (settle t).1 := by
      simp only [settle]
      cases hm : t.makeDir base p with
      | ok made => exact makeDir_growsAlong hm
      | error e =>
        simp only
        split <;> exact Grows.refl _ t
    split
    · exact Grows.refl _ t
    · split
      · rename_i above _ hp
        have ha := ih t above
        cases hd : makeDirsWith depth t base above with
        | mk made o =>
          rw [hd] at ha
          cases o with
          | none => exact GrowsAlong.step hp ha (hsettle made)
          | some e => exact GrowsAlong.step hp ha (Grows.refl _ made)
      · exact hsettle t

/-- Making a directory ready adds nothing but directories on the way to it. -/
theorem ensureDir_growsAlong (t : Tree) (base : Place) (p : Path) :
    GrowsAlong base p t (t.ensureDir base p).1 := by
  unfold ensureDir
  split
  · exact Grows.refl _ t
  · exact makeDirsWith_growsAlong _ t base p

/-! ## Clearing -/

/-- The second tree has nothing at some of the places, and is the same elsewhere. -/
def OnlyClears (s : Place → Prop) (t t' : Tree) : Prop :=
  ∀ q, t'.lookup q = t.lookup q ∨ s q ∧ t'.lookup q = none

theorem OnlyClears.refl (s : Place → Prop) (t : Tree) : OnlyClears s t t := fun _ => Or.inl rfl

theorem OnlyClears.mono {s s' : Place → Prop} {t t' : Tree} (hc : OnlyClears s t t')
    (hs : ∀ q, s q → s' q) : OnlyClears s' t t' :=
  fun q => (hc q).imp_right fun hq => ⟨hs q hq.1, hq.2⟩

theorem OnlyClears.trans {s : Place → Prop} {t t' t'' : Tree} (hc : OnlyClears s t t')
    (hc' : OnlyClears s t' t'') : OnlyClears s t t'' := by
  intro q
  obtain hq | hq := hc' q
  · rw [hq]; exact hc q
  · exact Or.inr hq

theorem OnlyClears.stays_gone {s : Place → Prop} {t t' : Tree} (hc : OnlyClears s t t') {q : Place}
    (hq : t.lookup q = none) : t'.lookup q = none := by
  obtain h | ⟨-, h⟩ := hc q
  · rw [h, hq]
  · exact h

theorem clear_onlyClears (t : Tree) {p : Place} (hp : p ≠ []) :
    OnlyClears (· = p) t (t.clear p) := by
  intro q
  by_cases hq : p = q
  · subst hq
    exact Or.inr ⟨rfl, lookup_clear_self t p hp⟩
  · exact Or.inl (lookup_clear_ne t hq)

/-- The top is a directory. -/
theorem ne_nil_of_lookup {t : Tree} {p : Place} {n : Node} (hn : t.lookup p = some n)
    (hd : ∀ mode, n ≠ .dir mode) : p ≠ [] := by
  rintro rfl
  exact hd 0o755 (Option.some.inj hn).symm

/-- What the path of a file names, links not followed, unless it is a directory. -/
def NamesFile (t : Tree) (base : Place) (p : Path) (q : Place) : Prop :=
  ∃ n, t.find base p.withoutSlash false = .ok (q, n) ∧ ∀ mode, n ≠ .dir mode

/-- A file is removed from the place that its path names. -/
theorem removeFile_eq_ok {t t' : Tree} {base : Place} {p : Path}
    (hr : t.removeFile base p = .ok t') : ∃ q, t.NamesFile base p q ∧ t' = t.clear q := by
  unfold removeFile at hr
  split at hr
  · cases hr
  · cases hr
  · rename_i q n hnd hf
    split at hr
    · cases hr
    · split at hr
      · refine ⟨q, ⟨n, hf, ?_⟩, (Except.ok.inj hr).symm⟩
        rintro mode rfl
        exact hnd mode rfl
      · cases hr

theorem removeFile_onlyClears {t t' : Tree} {base : Place} {p : Path}
    (hr : t.removeFile base p = .ok t') : OnlyClears (t.NamesFile base p) t t' := by
  obtain ⟨q, ⟨n, hf, hnd⟩, rfl⟩ := removeFile_eq_ok hr
  have hne := ne_nil_of_lookup (find_eq_ok_iff.mp hf).2 hnd
  refine (clear_onlyClears t hne).mono ?_
  rintro q rfl
  exact ⟨n, hf, hnd⟩

theorem removeFileIfThere_onlyClears (t : Tree) (base : Place) (p : Path) :
    OnlyClears (t.NamesFile base p) t (t.removeFileIfThere base p).1 := by
  unfold removeFileIfThere
  split
  · exact removeFile_onlyClears ‹_›
  · exact OnlyClears.refl _ t
  · exact OnlyClears.refl _ t

/-- A walk to something that was cleared ends where nothing is, or finds a name missing on its
way. -/
theorem OnlyClears.walk_missing {s : Place → Prop} {t t' : Tree} (hc : OnlyClears s t t')
    {follow : Bool} {links : Nat} {here q : Place} {steps : List String}
    (hr : Reaches t follow links here steps q) (hq : t'.lookup q = none) :
    (∃ p, t'.lookup p = none ∧ walk t' follow links here steps = .ok p) ∨
      walk t' follow links here steps = .error .noEntry := by
  have hgone {links : Nat} {here : Place} {steps : List String} (hnone : t'.lookup here = none) :
      (∃ p, t'.lookup p = none ∧ walk t' follow links here steps = .ok p) ∨
        walk t' follow links here steps = .error .noEntry := by
    rw [walk_eq]
    cases steps with
    | nil => exact .inl ⟨here, hnone, rfl⟩
    | cons step rest => exact .inr (by rw [walkFrom, hnone])
  have hstand {here : Place} (hs : t.Searchable here) :
      t'.lookup here = none ∨ t'.Searchable here := by
    obtain ⟨mode, hm, hb⟩ := hs
    obtain h | ⟨-, h⟩ := hc here
    · exact .inr ⟨mode, h.trans hm, hb⟩
    · exact .inl h
  have hmiss {p : Place} (hnone : t'.lookup p = none) : t'.NoLinkAt p := by
    intro target ht
    rw [hnone] at ht
    cases ht
  induction hr with
  | stop links here => exact hgone hq
  | stay hs _ ih =>
    obtain hnone | hs' := hstand hs
    · exact hgone hnone
    · rw [walk_eq, walkFrom_stay hs', ← walk_eq]
      exact ih hq
  | up hs _ ih =>
    obtain hnone | hs' := hstand hs
    · exact hgone hnone
    · rw [walk_eq, walkFrom_up hs', ← walk_eq]
      exact ih hq
  | @down links here q step rest hs hn hl _ ih =>
    have hl' : t'.NoLinkAt (here ++ [step]) := by
      obtain h | ⟨-, h⟩ := hc (here ++ [step])
      · exact fun target ht => hl target (h.symm.trans ht)
      · exact hmiss h
    obtain hnone | hs' := hstand hs
    · exact hgone hnone
    · rw [walk_eq, walkFrom_down hs' hn hl', ← walk_eq]
      exact ih hq
  | halt hs hn hl hf =>
    obtain hnone | hs' := hstand hs
    · exact hgone hnone
    · rw [walk_eq, walkFrom_down hs' hn (hmiss hq), ← walk_eq]
      exact hgone hq
  | @link links here q step target rest hs hn hl hf _ ih =>
    obtain hnone | hs' := hstand hs
    · exact hgone hnone
    · obtain h | ⟨-, h⟩ := hc (here ++ [step])
      · rw [walk_eq, walkFrom_link hs' hn (h.trans hl), if_neg (by simpa using hf)]
        exact ih hq
      · rw [walk_eq, walkFrom_down hs' hn (hmiss h), ← walk_eq]
        exact hgone h

/-- What was cleared is not found any more. -/
theorem OnlyClears.find_missing {s : Place → Prop} {t t' : Tree} (hc : OnlyClears s t t')
    {base q : Place} {p : Path} {follow : Bool} {n : Node}
    (hf : t.find base p follow = .ok (q, n)) (hq : t'.lookup q = none) :
    t'.find base p follow = .error .noEntry := by
  obtain ⟨he, hz, hr⟩ := resolve_eq_ok_iff.mp (find_eq_ok_iff.mp hf).1
  unfold find resolve
  rw [if_neg (by simpa using he), if_neg (by simpa using hz)]
  obtain ⟨p, hp, h⟩ | h := hc.walk_missing hr hq
  · rw [h]
    simp only [hp]
  · rw [h]

/-- A file that was removed, or was not there, is not found any more. -/
theorem find_removeFileIfThere {t : Tree} {base : Place} {p : Path}
    (hr : (t.removeFileIfThere base p).2 = none) :
    (t.removeFileIfThere base p).1.find base p.withoutSlash false = .error .noEntry := by
  unfold removeFileIfThere at hr ⊢
  cases hf : t.removeFile base p with
  | ok t' =>
    obtain ⟨q, ⟨n, hq, hnd⟩, rfl⟩ := removeFile_eq_ok hf
    have hne := ne_nil_of_lookup (find_eq_ok_iff.mp hq).2 hnd
    exact (clear_onlyClears t hne).find_missing hq (lookup_clear_self t q hne)
  | error e =>
    rw [hf] at hr
    cases e with
    | noEntry =>
      unfold removeFile at hf
      split at hf
      · rename_i e he
        rw [he, Except.error.inj hf]
      · cases hf
      · split at hf
        · cases hf
        · split at hf <;> cases hf
    | _ => cases hr

/-! ## Clearing a whole directory -/

/-- What emptying a directory does first about a name in it. -/
def emptied (empty : Tree → Place → Tree × Option IoError) (t : Tree) (place : Place) :
    Tree × Option IoError :=
  match t.lookup place with
  | some (.dir _) => empty t place
  | _ => (t, none)

theorem removeNames_cons (empty : Tree → Place → Tree × Option IoError) (mode : Nat) (here : Place)
    (name : String) (names : List String) (t : Tree) :
    removeNames empty mode here (name :: names) t =
      match emptied empty t (here ++ [name]) with
      | (t, some e) => (t, some e)
      | (t, none) =>
        if mayChange mode then removeNames empty mode here names (t.clear (here ++ [name]))
        else (t, some .permissionDenied) := rfl

theorem emptied_onlyClears {empty : Tree → Place → Tree × Option IoError}
    (he : ∀ t p, OnlyClears (p <+: ·) t (empty t p).1) (t : Tree) (p : Place) :
    OnlyClears (p <+: ·) t (emptied empty t p).1 := by
  unfold emptied
  split
  · exact he t p
  · exact .refl _ t

/-- By the names: each one is emptied if need be, and cleared. -/
theorem removeNames_onlyClears {empty : Tree → Place → Tree × Option IoError}
    (he : ∀ t p, OnlyClears (p <+: ·) t (empty t p).1) (mode : Nat) (here : Place)
    (names : List String) (t : Tree) :
    OnlyClears (here <+: ·) t (removeNames empty mode here names t).1 := by
  induction names generalizing t with
  | nil => exact OnlyClears.refl _ t
  | cons name names ih =>
    have hbelow : ∀ q, (here ++ [name]) <+: q → here <+: q :=
      fun q hq => (List.prefix_append here [name]).trans hq
    have hemptied := (emptied_onlyClears he t (here ++ [name])).mono hbelow
    rw [removeNames_cons]
    generalize emptied empty t (here ++ [name]) = z at hemptied
    obtain ⟨t', o⟩ := z
    cases o with
    | some e => exact hemptied
    | none =>
      simp only
      split
      · refine hemptied.trans (OnlyClears.trans ?_ (ih _))
        exact (clear_onlyClears t' (by simp)).mono fun q hq => hbelow q ⟨[], by simp [hq]⟩
      · exact hemptied

theorem emptyDir_onlyClears (depth : Nat) (t : Tree) (here : Place) :
    OnlyClears (here <+: ·) t (emptyDir depth t here).1 := by
  induction depth generalizing t here with
  | zero => exact OnlyClears.refl _ t
  | succ depth ih =>
    unfold emptyDir
    split
    · split
      · exact removeNames_onlyClears ih _ here _ t
      · exact OnlyClears.refl _ t
    · exact OnlyClears.refl _ t

/-- How the removal of what a path names can end: nothing is done, a link is removed, the emptying
of a directory stops or the emptied directory stays, or the directory is removed with everything in
it. -/
inductive Removal (t : Tree) (base : Place) (p : Path) : Tree × Option IoError → Prop
  | refused (e : IoError) : Removal t base p (t, some e)
  | unlinked {q : Place} {target : String} (hf : t.find base p false = .ok (q, .link target)) :
      Removal t base p (t.clear q, none)
  | stopped {q : Place} {mode : Nat} (hf : t.find base p false = .ok (q, .dir mode))
      (e : IoError) : Removal t base p ((t.emptyDir t.depthBound q).1, some e)
  | removed {q : Place} {mode : Nat} {t' : Tree} (hf : t.find base p false = .ok (q, .dir mode))
      (hempty : t.emptyDir t.depthBound q = (t', none)) (hne : q ≠ []) :
      Removal t base p (t'.clear q, none)

theorem removeDirs_removal (t : Tree) (base : Place) (p : Path) :
    Removal t base p (t.removeDirs base p) := by
  unfold removeDirs
  split
  · exact .refused _
  · exact .refused _
  · rename_i hf
    split
    · exact .unlinked hf
    · exact .refused _
  · rename_i q mode hf
    have hstopped := Removal.stopped hf
    cases hempty : t.emptyDir t.depthBound q with
    | mk t' o =>
      rw [hempty] at hstopped
      cases o with
      | some e => exact hstopped e
      | none =>
        dsimp only at hstopped ⊢
        split
        · exact hstopped _
        · exact hstopped _
        · split
          · exact hstopped _
          · split
            · exact hstopped _
            · split
              · exact hstopped _
              · rename_i hne
                split
                · exact .removed hf hempty hne
                · exact hstopped _

/-- At or below the place that a path names, links at its end not followed. -/
def AtOrBelow (t : Tree) (base : Place) (p : Path) (q : Place) : Prop :=
  ∃ place n, t.find base p false = .ok (place, n) ∧ place <+: q

theorem removeDirs_onlyClears (t : Tree) (base : Place) (p : Path) :
    OnlyClears (t.AtOrBelow base p) t (t.removeDirs base p).1 := by
  have hempty {q : Place} {n : Node} (hf : t.find base p false = .ok (q, n)) :
      OnlyClears (t.AtOrBelow base p) t (t.emptyDir t.depthBound q).1 :=
    (emptyDir_onlyClears _ t q).mono fun _ hq => ⟨q, n, hf, hq⟩
  have hclear {t' : Tree} {q : Place} {n : Node} (hf : t.find base p false = .ok (q, n))
      (hne : q ≠ []) : OnlyClears (t.AtOrBelow base p) t' (t'.clear q) := by
    refine (clear_onlyClears t' hne).mono ?_
    rintro q rfl
    exact ⟨q, n, hf, List.prefix_refl q⟩
  have hr := removeDirs_removal t base p
  generalize t.removeDirs base p = x at hr ⊢
  cases hr with
  | refused e => exact .refl _ t
  | unlinked hf => exact hclear hf (ne_nil_of_lookup (find_eq_ok_iff.mp hf).2 (by simp))
  | stopped hf e => exact hempty hf
  | removed hf hemptied hne =>
    have := hempty hf
    rw [hemptied] at this
    exact this.trans (hclear hf hne)

theorem removeDirsIfThere_onlyClears (t : Tree) (base : Place) (p : Path) :
    OnlyClears (t.AtOrBelow base p) t (t.removeDirsIfThere base p).1 := by
  have hrem := removeDirs_onlyClears t base p
  unfold removeDirsIfThere
  split
  · rename_i t' hr
    rw [hr] at hrem
    exact hrem
  · exact hrem

/-! ## Writing -/

/-- A text is written to the place that its path resolves to. -/
theorem write_eq_ok {t t' : Tree} {base : Place} {p : Path} {content : Text.Bytes}
    (hw : t.write base p content = .ok t') :
    ∃ q mode, t.resolve base p = .ok q ∧ q ≠ [] ∧ t' = t.set q (.file content mode) := by
  unfold write at hw
  split at hw
  · cases hw
  · rename_i place hp
    have hne (hl : ∀ mode, t.lookup place ≠ some (.dir mode)) : place ≠ [] := by
      rintro rfl
      exact hl 0o755 rfl
    split at hw
    · rename_i old mode hl
      split at hw
      · exact ⟨place, mode, hp, hne (by simp [hl]), (Except.ok.inj hw).symm⟩
      · cases hw
    · cases hw
    · rename_i hl
      split at hw
      · exact ⟨place, 0o644, hp, hne (by simp [hl]), (Except.ok.inj hw).symm⟩
      · cases hw

/-- Nothing changes but the file at the place that the path resolves to. -/
theorem lookup_write {t t' : Tree} {base : Place} {p : Path} {content : Text.Bytes}
    (hw : t.write base p content = .ok t') (q : Place) :
    t'.lookup q = t.lookup q ∨
      t.resolve base p = .ok q ∧ ∃ mode, t'.lookup q = some (.file content mode) := by
  obtain ⟨place, mode, hp, hne, rfl⟩ := write_eq_ok hw
  by_cases hq : place = q
  · subst hq
    exact Or.inr ⟨hp, mode, lookup_set_self t place _ hne⟩
  · exact Or.inl (lookup_set_ne t _ hq)

end Tree

end HostSuite
