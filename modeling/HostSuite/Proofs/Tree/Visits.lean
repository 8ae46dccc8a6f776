import HostSuite.Proofs.Tree.Differs

/-
  What a walk asks about. A walk visits the places where it stands and the names that it looks up
  there, through every link that it follows (`Visits`). Nothing else of the tree makes a difference
  to it: where two trees agree on the places that it visits, it goes the same way in both, and fails
  for the same reason (`walk_congr`). Clearing places makes no walk visit more (`Visits.of_clears`).
-/

namespace HostSuite.Tree

/-- Two trees have the same at some places. -/
def Agree (s : Place → Prop) (t t' : Tree) : Prop := ∀ q, s q → t'.lookup q = t.lookup q

section

variable {s s' : Place → Prop} {t t' t'' : Tree}

theorem Agree.refl (s : Place → Prop) (t : Tree) : Agree s t t := fun _ _ => rfl

theorem Agree.symm (ha : Agree s t t') : Agree s t' t := fun q hq => (ha q hq).symm

theorem Agree.trans (ha : Agree s t t') (ha' : Agree s t' t'') : Agree s t t'' :=
  fun q hq => (ha' q hq).trans (ha q hq)

theorem Agree.mono (ha : Agree s t t') (hs : ∀ q, s' q → s q) : Agree s' t t' :=
  fun q hq => ha q (hs q hq)

/-- What is put elsewhere makes no difference here. -/
theorem set_agree (t : Tree) (n : Node) {p : Place} (hp : ¬s p) : Agree s t (t.set p n) := by
  intro q hq
  refine lookup_set_ne t n ?_
  rintro rfl
  exact hp hq

theorem Agree.set (ha : Agree s t t') (p : Place) (n : Node) :
    Agree s (t.set p n) (t'.set p n) := by
  intro q hq
  by_cases hp : p = q
  · subst hp
    by_cases hnil : p = []
    · rw [hnil]; rfl
    · rw [lookup_set_self t p n hnil, lookup_set_self t' p n hnil]
  · rw [lookup_set_ne t n hp, lookup_set_ne t' n hp, ha q hq]

/-- What is cleared elsewhere is the same here. -/
theorem OnlyClears.agree (hc : OnlyClears s t t') (hs : ∀ q, s' q → ¬s q) : Agree s' t t' := by
  intro q hq
  obtain h | ⟨h, -⟩ := hc q
  · exact h
  · exact absurd h (hs q hq)

theorem Agree.searchable (ha : Agree s t t') {here : Place} (hs : s here) :
    t'.Searchable here ↔ t.Searchable here := by
  unfold Searchable
  rw [ha here hs]

end

/-- The walk along some steps asks about a place. -/
inductive Visits (t : Tree) : Place → List String → Place → Prop
  | here (here : Place) (steps : List String) : Visits t here steps here
  | name {here : Place} {step : String} {rest : List String} (hs : t.Searchable here)
      (hn : IsName step) : Visits t here (step :: rest) (here ++ [step])
  | stay {here q : Place} {rest : List String} (hs : t.Searchable here)
      (hv : Visits t here rest q) : Visits t here ("." :: rest) q
  | up {here q : Place} {rest : List String} (hs : t.Searchable here)
      (hv : Visits t here.dropLast rest q) : Visits t here (".." :: rest) q
  | down {here q : Place} {step : String} {rest : List String} (hs : t.Searchable here)
      (hn : IsName step) (hl : t.NoLinkAt (here ++ [step]))
      (hv : Visits t (here ++ [step]) rest q) : Visits t here (step :: rest) q
  | link {here q : Place} {step target : String} {rest : List String} (hs : t.Searchable here)
      (hn : IsName step) (hl : t.lookup (here ++ [step]) = some (.link target))
      (hv : Visits t (walkStart here ⟨target⟩) (walkSteps ⟨target⟩ ++ rest) q) :
      Visits t here (step :: rest) q

section

variable {t t' : Tree} {follow : Bool} {links : Nat} {here q : Place} {steps : List String}

/-- Where a walk gets to it visits. -/
theorem Reaches.visits (hr : Reaches t follow links here steps q) : t.Visits here steps q := by
  induction hr with
  | stop links here => exact .here here []
  | stay hs _ ih => exact .stay hs ih
  | up hs _ ih => exact .up hs ih
  | down hs hn hl _ ih => exact .down hs hn hl ih
  | halt hs hn _ _ => exact .name hs hn
  | link hs hn hl _ _ ih => exact .link hs hn hl ih

/-- A walk along more steps visits what the walk along the first ones does, and from where that gets
to what the walk along the others does. -/
theorem Visits.append {front rest : List String} (hv : t.Visits here (front ++ rest) q) :
    t.Visits here front q ∨
      ∃ links p, Reaches t true links here front p ∧ t.Visits p rest q := by
  generalize hs : front ++ rest = steps at hv
  induction hv generalizing front with
  | here here steps => exact .inl (.here here front)
  | @name here step steps hsearch hn =>
    cases front with
    | nil => exact .inr ⟨0, here, .stop 0 here, by cases hs; exact .name hsearch hn⟩
    | cons next front =>
      obtain ⟨rfl, -⟩ := List.cons.inj hs
      exact .inl (.name hsearch hn)
  | @stay here q steps hsearch hv ih =>
    cases front with
    | nil => exact .inr ⟨0, here, .stop 0 here, by cases hs; exact .stay hsearch hv⟩
    | cons next front =>
      obtain ⟨rfl, hrest⟩ := List.cons.inj hs
      obtain h | ⟨links, p, hp, h⟩ := ih hrest
      · exact .inl (.stay hsearch h)
      · exact .inr ⟨links, p, .stay hsearch hp, h⟩
  | @up here q steps hsearch hv ih =>
    cases front with
    | nil => exact .inr ⟨0, here, .stop 0 here, by cases hs; exact .up hsearch hv⟩
    | cons next front =>
      obtain ⟨rfl, hrest⟩ := List.cons.inj hs
      obtain h | ⟨links, p, hp, h⟩ := ih hrest
      · exact .inl (.up hsearch h)
      · exact .inr ⟨links, p, .up hsearch hp, h⟩
  | @down here q step steps hsearch hn hl hv ih =>
    cases front with
    | nil => exact .inr ⟨0, here, .stop 0 here, by cases hs; exact .down hsearch hn hl hv⟩
    | cons next front =>
      obtain ⟨rfl, hrest⟩ := List.cons.inj hs
      obtain h | ⟨links, p, hp, h⟩ := ih hrest
      · exact .inl (.down hsearch hn hl h)
      · exact .inr ⟨links, p, .down hsearch hn hl hp, h⟩
  | @link here q step target steps hsearch hn hl hv ih =>
    cases front with
    | nil => exact .inr ⟨0, here, .stop 0 here, by cases hs; exact .link hsearch hn hl hv⟩
    | cons next front =>
      obtain ⟨rfl, rfl⟩ := List.cons.inj hs
      obtain h | ⟨links, p, hp, h⟩ := ih (List.append_assoc _ front rest)
      · exact .inl (.link hsearch hn hl h)
      · exact .inr ⟨links + 1, p, .link hsearch hn hl (fun _ => rfl) hp, h⟩

/-- A step in place visits nothing more. -/
theorem Visits.of_stay {rest : List String} (hv : t.Visits here ("." :: rest) q) :
    t.Visits here rest q := by
  generalize hs : "." :: rest = steps at hv
  cases hv with
  | here _ _ => exact .here here rest
  | name _ hn | down _ hn _ _ | link _ hn _ _ =>
    exact absurd (List.cons.inj hs).1.symm hn.ne_dot
  | stay _ hv =>
    rw [(List.cons.inj hs).2]
    exact hv
  | up _ _ => simp at hs

/-- A slash at the end of a path adds nothing to what is visited. -/
theorem Visits.segments {p : Path} (hv : t.Visits here (walkSteps p) q) :
    t.Visits here p.segments q := by
  unfold walkSteps at hv
  split at hv
  · obtain h | ⟨links, place, hp, h⟩ := hv.append
    · exact h
    · cases h.of_stay
      exact hp.visits
  · exact hv

/-! ## Trees that agree on what is visited -/

/-- Then nothing else is visited in the other tree. -/
theorem Visits.of_agree (hv : t'.Visits here steps q) (ha : Agree (t.Visits here steps) t t') :
    t.Visits here steps q := by
  induction hv with
  | here here steps => exact .here here steps
  | name hs hn => exact .name ((ha.searchable (.here _ _)).mp hs) hn
  | stay hs _ ih =>
    have hs' := (ha.searchable (.here _ _)).mp hs
    exact .stay hs' (ih (ha.mono fun _ hq => .stay hs' hq))
  | up hs _ ih =>
    have hs' := (ha.searchable (.here _ _)).mp hs
    exact .up hs' (ih (ha.mono fun _ hq => .up hs' hq))
  | down hs hn hl _ ih =>
    have hs' := (ha.searchable (.here _ _)).mp hs
    have hl' : t.NoLinkAt _ := fun target ht => hl target ((ha _ (.name hs' hn)).trans ht)
    exact .down hs' hn hl' (ih (ha.mono fun _ hq => .down hs' hn hl' hq))
  | link hs hn hl _ ih =>
    have hs' := (ha.searchable (.here _ _)).mp hs
    have hl' := (ha _ (.name hs' hn)).symm.trans hl
    exact .link hs' hn hl' (ih (ha.mono fun _ hq => .link hs' hn hl' hq))

/-- By the number of links, and for each number along the steps. -/
theorem walk_congr (ha : Agree (t.Visits here steps) t t') :
    walk t' follow links here steps = walk t follow links here steps := by
  induction links using Nat.strongRecOn generalizing here steps with
  | _ links ihl =>
    induction steps generalizing here with
    | nil => rw [walk_eq, walk_eq]; rfl
    | cons step rest ih =>
      rw [walk_eq, walk_eq]
      by_cases hgo : t.Searchable here ∧ (step = "." ∨ step = ".." ∨ IsName step)
      · obtain ⟨hs, hstep⟩ := hgo
        have hs' : t'.Searchable here := (ha.searchable (.here _ _)).mpr hs
        obtain rfl | rfl | hn := hstep
        · rw [walkFrom_stay hs, walkFrom_stay hs', ← walk_eq, ← walk_eq,
            ih (ha.mono fun _ hq => .stay hs hq)]
        · rw [walkFrom_up hs, walkFrom_up hs', ← walk_eq, ← walk_eq,
            ih (ha.mono fun _ hq => .up hs hq)]
        · have hname := ha _ (.name hs hn)
          by_cases hl : t.NoLinkAt (here ++ [step])
          · have hl' : t'.NoLinkAt (here ++ [step]) := fun target ht =>
              hl target (hname.symm.trans ht)
            rw [walkFrom_down hs hn hl, walkFrom_down hs' hn hl', ← walk_eq, ← walk_eq,
              ih (ha.mono fun _ hq => .down hs hn hl hq)]
          · obtain ⟨target, hl⟩ := Classical.not_forall.mp hl
            rw [ne_eq, Classical.not_not] at hl
            rw [walkFrom_link hs hn hl, walkFrom_link hs' hn (hname.trans hl)]
            congr 1
            cases links with
            | zero => rfl
            | succ links => exact ihl links (by omega) (ha.mono fun _ hq => .link hs hn hl hq)
      · exact walkFrom_stuck hgo (ha here (.here _ _))

/-- The walk of a path starts at the top or at the base. -/
theorem resolve_congr {base : Place} {p : Path}
    (ha : Agree (t.Visits (walkStart base p) p.segments) t t') :
    t'.resolve base p follow = t.resolve base p follow := by
  unfold resolve
  rw [walk_congr (ha.mono fun _ hq => hq.segments)]

/-- A path leads to the same node, or to the same failure. -/
theorem find_congr {base : Place} {p : Path}
    (ha : Agree (t.Visits (walkStart base p) p.segments) t t') :
    t'.find base p follow = t.find base p follow := by
  unfold find
  rw [resolve_congr ha]
  cases hr : t.resolve base p follow with
  | error e => rfl
  | ok q => simp only [ha q (resolve_eq_ok_iff.mp hr).2.2.visits.segments]

/-! ## Clearing -/

variable {s : Place → Prop}

theorem OnlyClears.searchable (hc : OnlyClears s t t') (hs : t'.Searchable here) :
    t.Searchable here := by
  obtain ⟨mode, hd, hb⟩ := hs
  obtain h | ⟨-, hnone⟩ := hc here
  · exact ⟨mode, h ▸ hd, hb⟩
  · rw [hd] at hnone; cases hnone

theorem OnlyClears.lookup (hc : OnlyClears s t t') {n : Node} (hn : t'.lookup q = some n) :
    t.lookup q = some n := by
  obtain h | ⟨-, hnone⟩ := hc q
  · exact h ▸ hn
  · rw [hn] at hnone; cases hnone

/-- From a place with nothing in it no walk goes on. -/
theorem Visits.of_none (hv : t.Visits here steps q) (hnone : t.lookup here = none) : q = here := by
  have hnot : ¬t.Searchable here := by
    rintro ⟨mode, hd, -⟩
    rw [hnone] at hd; cases hd
  cases hv with
  | here _ _ => rfl
  | name hs _ | stay hs _ | up hs _ | down hs _ _ _ | link hs _ _ _ => exact absurd hs hnot

/-- A walk visits nothing new when places are cleared. -/
theorem Visits.of_clears (hv : t'.Visits here steps q) (hc : OnlyClears s t t') :
    t.Visits here steps q := by
  induction hv with
  | here here steps => exact .here here steps
  | name hs hn => exact .name (hc.searchable hs) hn
  | stay hs _ ih => exact .stay (hc.searchable hs) ih
  | up hs _ ih => exact .up (hc.searchable hs) ih
  | @down here q step rest hs hn hl hv ih =>
    obtain h | ⟨-, hnone⟩ := hc (here ++ [step])
    · exact .down (hc.searchable hs) hn (fun target ht => hl target (h.trans ht)) ih
    · -- Where a link was cleared the walk ends, and it had asked about that place before.
      obtain rfl := hv.of_none hnone
      exact .name (hc.searchable hs) hn
  | link hs hn hl _ ih => exact .link (hc.searchable hs) hn (hc.lookup hl) ih

theorem Reaches.of_none (hr : Reaches t follow links here steps q) (hnone : t.lookup here = none) :
    q = here :=
  hr.visits.of_none hnone

/-- A walk gets where it got before, or to something that was cleared. -/
theorem Reaches.of_clears (hr : Reaches t' follow links here steps q) (hc : OnlyClears s t t') :
    Reaches t follow links here steps q ∨ s q := by
  induction hr with
  | stop links here => exact .inl (.stop links here)
  | stay hs _ ih => exact ih.imp_left (.stay (hc.searchable hs))
  | up hs _ ih => exact ih.imp_left (.up (hc.searchable hs))
  | @down links here q step rest hs hn hl hr ih =>
    obtain h | ⟨hcleared, hnone⟩ := hc (here ++ [step])
    · exact ih.imp_left (.down (hc.searchable hs) hn fun target ht => hl target (h.trans ht))
    · obtain rfl := hr.of_none hnone
      exact .inr hcleared
  | halt hs hn hl hf => exact .inl (.halt (hc.searchable hs) hn (hc.lookup hl) hf)
  | link hs hn hl hf _ ih => exact ih.imp_left (.link (hc.searchable hs) hn (hc.lookup hl) hf)

end

end HostSuite.Tree
