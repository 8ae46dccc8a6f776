import Mathlib.Data.Finset.Card
import HostSuite.Proofs.Tree.Listing
import HostSuite.Proofs.Tree.Visits
import HostSuite.Proofs.Tree.WellNamed

/-
  Removals depend on nothing but what they remove. Emptying a directory and sweeping its counters
  have a depth, which is taken from the size of the whole tree. At each level there is less below
  than at the level before, so the depth is never used up (`card_below_lt`); then two trees that
  agree at and below the directory agree there afterwards, and the answers are the same
  (`emptyDir_sameBelow`, `sweep_sameBelow`).
-/

namespace HostSuite.Tree

/-! ## How much there is below a place -/

/-- The places below a place that hold something. -/
def below (t : Tree) (here : Place) : Finset Place :=
  t.nodes.keys.toFinset.filter fun q => here <+: q ∧ q ≠ here

variable {t t' : Tree} {here : Place}

theorem mem_below {q : Place} :
    q ∈ t.below here ↔ (here <+: q ∧ q ≠ here) ∧ ∃ n, t.lookup q = some n := by
  unfold below
  rw [Finset.mem_filter, List.mem_toFinset, Std.ExtTreeMap.mem_keys, and_comm, and_congr_right_iff]
  rintro ⟨hpre, hne⟩
  have hnil : q ≠ [] := by
    rintro rfl
    exact hne (List.prefix_nil.mp hpre).symm
  unfold lookup
  rw [if_neg hnil, Std.ExtTreeMap.mem_iff_isSome_getElem?, Option.isSome_iff_exists]

/-- The depth of a removal is more than what is below any place. -/
theorem card_below_lt_depthBound (t : Tree) (here : Place) :
    (t.below here).card < t.depthBound := by
  refine Nat.lt_succ_of_le ((Finset.card_filter_le _ _).trans ?_)
  exact (List.toFinset_card_le _).trans_eq Std.ExtTreeMap.length_keys

/-- There is less below a name than below the directory that it is in. -/
theorem card_below_lt {name : String} {n : Node} (hl : t.lookup (here ++ [name]) = some n) :
    (t.below (here ++ [name])).card < (t.below here).card := by
  refine Finset.card_lt_card (Finset.ssubset_iff_of_subset ?_ |>.mpr ⟨here ++ [name], ?_, ?_⟩)
  · intro q hq
    obtain ⟨⟨hpre, -⟩, hn⟩ := mem_below.mp hq
    refine mem_below.mpr ⟨⟨(List.prefix_append here [name]).trans hpre, ?_⟩, hn⟩
    rintro rfl
    simpa using hpre.length_le
  · exact mem_below.mpr ⟨⟨List.prefix_append here [name], by simp⟩, n, hl⟩
  · exact fun hq => (mem_below.mp hq).1.2 rfl

theorem OnlyClears.card_below_le {s : Place → Prop} (hc : OnlyClears s t t') (here : Place) :
    (t'.below here).card ≤ (t.below here).card := by
  refine Finset.card_le_card fun q hq => ?_
  obtain ⟨hpre, n, hn⟩ := mem_below.mp hq
  exact mem_below.mpr ⟨hpre, n, hc.lookup hn⟩

theorem Agree.below_eq (ha : Agree (here <+: ·) t t') : t'.below here = t.below here := by
  ext q
  rw [mem_below, mem_below, and_congr_right_iff]
  intro hq
  rw [ha q hq.1]

/-! ## The same below a place -/

/-- The same answer, and the same tree at and below a place. -/
def SameBelow {α : Type} (P : Place) (x y : Tree × α) : Prop := y.2 = x.2 ∧ Agree (P <+: ·) x.1 y.1

variable {α : Type} {s : Place → Prop}

theorem SameBelow.split {x y : Tree × α} (hs : SameBelow here x y) :
    ∃ t t' r, x = (t, r) ∧ y = (t', r) ∧ Agree (here <+: ·) t t' :=
  ⟨x.1, y.1, x.2, rfl, Prod.ext rfl hs.1, hs.2⟩

theorem Agree.clear (ha : Agree s t t') (p : Place) : Agree s (t.clear p) (t'.clear p) := by
  intro q hq
  by_cases hp : p = q
  · subst hp
    by_cases hnil : p = []
    · rw [hnil]; rfl
    · rw [lookup_clear_self t p hnil, lookup_clear_self t' p hnil]
  · rw [lookup_clear_ne t hp, lookup_clear_ne t' hp, ha q hq]

/-- What is only cleared at and below a name is the same in the directory where it is the same
there. -/
theorem SameBelow.widen {place : Place} {x y : Tree × α} (hs : SameBelow place x y)
    (ha : Agree (here <+: ·) t t') (hx : OnlyClears (place <+: ·) t x.1)
    (hy : OnlyClears (place <+: ·) t' y.1) : SameBelow here x y := by
  refine ⟨hs.1, fun q hq => ?_⟩
  by_cases hp : place <+: q
  · exact hs.2 q hp
  · have hx : Agree (¬place <+: ·) t x.1 := hx.agree fun _ h => h
    have hy : Agree (¬place <+: ·) t' y.1 := hy.agree fun _ h => h
    rw [hx q hp, hy q hp, ha q hq]

/-! ## Emptying a directory -/

section

variable {empty empty' : Tree → Place → Tree × Option IoError} {n : Nat}

theorem emptied_sameBelow {place : Place} (ha : Agree (place <+: ·) t t')
    (hsame : ∀ mode, t.lookup place = some (.dir mode) →
      SameBelow place (empty t place) (empty' t' place)) :
    SameBelow place (emptied empty t place) (emptied empty' t' place) := by
  unfold emptied
  rw [ha place (List.prefix_refl place)]
  split
  · exact hsame _ ‹_›
  · exact ⟨rfl, ha⟩

/-- By the names, with what is below the directory as a bound for what is below each name. -/
theorem removeNames_sameBelow (he : ∀ t p, OnlyClears (p <+: ·) t (empty t p).1)
    (he' : ∀ t p, OnlyClears (p <+: ·) t (empty' t p).1)
    (hsame : ∀ t t' p, Agree (p <+: ·) t t' → (t.below p).card < n →
      SameBelow p (empty t p) (empty' t' p))
    (mode : Nat) (names : List String) (ha : Agree (here <+: ·) t t')
    (hn : (t.below here).card ≤ n) :
    SameBelow here (removeNames empty mode here names t)
      (removeNames empty' mode here names t') := by
  induction names generalizing t t' with
  | nil => exact ⟨rfl, ha⟩
  | cons name names ih =>
    have hpre : here <+: here ++ [name] := List.prefix_append here [name]
    have hname : Agree (here ++ [name] <+: ·) t t' := ha.mono fun _ hq => hpre.trans hq
    have hclears := emptied_onlyClears he t (here ++ [name])
    have hfirst := (emptied_sameBelow hname fun mode hl =>
      hsame t t' _ hname ((card_below_lt hl).trans_le hn)).widen ha hclears
        (emptied_onlyClears he' t' (here ++ [name]))
    obtain ⟨t₁, t₁', o, hx, hy, ha'⟩ := hfirst.split
    rw [hx] at hclears
    rw [removeNames_cons, removeNames_cons, hx, hy]
    cases o with
    | some e => exact ⟨rfl, ha'⟩
    | none =>
      simp only
      split
      · have hclear := clear_onlyClears t₁ (p := here ++ [name]) (by simp)
        exact ih (ha'.clear _)
          (((hclear.card_below_le here).trans (hclears.card_below_le here)).trans hn)
      · exact ⟨rfl, ha'⟩

/-- By the depths. -/
theorem emptyDir_same {depth depth' : Nat} (ha : Agree (here <+: ·) t t')
    (hd : (t.below here).card < depth) (hd' : (t.below here).card < depth') :
    SameBelow here (t.emptyDir depth here) (t'.emptyDir depth' here) := by
  induction depth generalizing depth' t t' here with
  | zero => exact absurd hd (Nat.not_lt_zero _)
  | succ depth ih =>
    obtain _ | depth' := depth'
    · exact absurd hd' (Nat.not_lt_zero _)
    unfold emptyDir
    rw [ha here (List.prefix_refl here), namesIn_congr fun n => ha _ (List.prefix_append here [n])]
    split
    · split
      · refine removeNames_sameBelow (n := min depth depth') (emptyDir_onlyClears depth)
          (emptyDir_onlyClears depth') ?_ _ _ ha (by omega)
        exact fun t t' p ha hp => ih ha (by omega) (by omega)
      · exact ⟨rfl, ha⟩
    · exact ⟨rfl, ha⟩

theorem emptyDir_sameBelow (ha : Agree (here <+: ·) t t') :
    SameBelow here (t.emptyDir t.depthBound here) (t'.emptyDir t'.depthBound here) :=
  emptyDir_same ha (card_below_lt_depthBound t here)
    (ha.below_eq ▸ card_below_lt_depthBound t' here)

end

/-! ## Sweeping counters -/

section

variable {enter enter' : Tree → Place → Tree × Nat} {mode n : Nat} {name : String}

theorem swept_sameBelow (ha : Agree (here ++ [name] <+: ·) t t')
    (hsame : ∀ mode, t.lookup (here ++ [name]) = some (.dir mode) →
      SameBelow (here ++ [name]) (enter t (here ++ [name])) (enter' t' (here ++ [name]))) :
    SameBelow (here ++ [name]) (swept enter mode t here name) (swept enter' mode t' here name) := by
  unfold swept
  rw [ha _ (List.prefix_refl _)]
  split
  · split
    · exact ⟨rfl, ha.clear _⟩
    · exact ⟨rfl, ha⟩
  · split
    · exact hsame _ ‹_›
    · exact ⟨rfl, ha⟩
  · exact ⟨rfl, ha⟩

/-- By the names, as for emptying. -/
theorem sweepNames_sameBelow (he : ∀ t p, OnlyClears (p <+: ·) t (enter t p).1)
    (he' : ∀ t p, OnlyClears (p <+: ·) t (enter' t p).1)
    (hsame : ∀ t t' p, Agree (p <+: ·) t t' → (t.below p).card < n →
      SameBelow p (enter t p) (enter' t' p))
    (mode : Nat) (names : List String) (ha : Agree (here <+: ·) t t')
    (hn : (t.below here).card ≤ n) :
    SameBelow here (sweepNames enter mode here names t) (sweepNames enter' mode here names t') := by
  induction names generalizing t t' with
  | nil => exact ⟨rfl, ha⟩
  | cons name names ih =>
    have hpre : here <+: here ++ [name] := List.prefix_append here [name]
    have hname : Agree (here ++ [name] <+: ·) t t' := ha.mono fun _ hq => hpre.trans hq
    have hclears := swept_onlyClears he mode t here name
    have hfirst := (swept_sameBelow hname fun mode hl =>
      hsame t t' _ hname ((card_below_lt hl).trans_le hn)).widen ha hclears
        (swept_onlyClears he' mode t' here name)
    obtain ⟨hcount, hagree⟩ := ih hfirst.2 ((hclears.card_below_le here).trans hn)
    rw [sweepNames_cons, sweepNames_cons]
    exact ⟨congrArg₂ (· + ·) hfirst.1 hcount, hagree⟩

/-- By the depths. -/
theorem sweep_same {depth depth' : Nat} (ha : Agree (here <+: ·) t t')
    (hd : (t.below here).card < depth) (hd' : (t.below here).card < depth') :
    SameBelow here (t.sweep depth here) (t'.sweep depth' here) := by
  induction depth generalizing depth' t t' here with
  | zero => exact absurd hd (Nat.not_lt_zero _)
  | succ depth ih =>
    obtain _ | depth' := depth'
    · exact absurd hd' (Nat.not_lt_zero _)
    unfold sweep
    rw [ha here (List.prefix_refl here), namesIn_congr fun n => ha _ (List.prefix_append here [n])]
    split
    · split
      · refine sweepNames_sameBelow (n := min depth depth') (sweep_onlyClears depth)
          (sweep_onlyClears depth') ?_ _ _ ha (by omega)
        exact fun t t' p ha hp => ih ha (by omega) (by omega)
      · exact ⟨rfl, ha⟩
    · exact ⟨rfl, ha⟩

theorem sweep_sameBelow (ha : Agree (here <+: ·) t t') :
    SameBelow here (t.sweep t.depthBound here) (t'.sweep t'.depthBound here) :=
  sweep_same ha (card_below_lt_depthBound t here) (ha.below_eq ▸ card_below_lt_depthBound t' here)

end

end HostSuite.Tree
