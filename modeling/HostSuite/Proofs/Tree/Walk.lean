import HostSuite.Tree.Resolve

/-
  Walks through a tree. `Reaches` tells how a walk gets to a place, one step at a time: in place,
  up, down into a name, or through a link, which costs one of the links it may still follow. A walk
  succeeds exactly if it gets somewhere (`walk_eq_ok_iff`), so what is preserved by each kind of
  step is preserved by a resolution.
-/

namespace HostSuite

/-- What an attempt gives can be decided on without comparing errors. -/
theorem Except.eq_ok_of_toOption {ε α : Type} {x : Except ε α} {a : α}
    (hx : x.toOption = some a) : x = .ok a := by
  cases x with
  | error e => cases hx
  | ok b => rw [Option.some.inj hx]

namespace Tree

/-- Steps may be taken from here. -/
def Searchable (t : Tree) (here : Place) : Prop :=
  ∃ mode, t.lookup here = some (.dir mode) ∧ hasBit mode searchBit = true

/-- A step down. -/
structure IsName (step : String) : Prop where
  ne_dot : step ≠ "."
  ne_dots : step ≠ ".."
  short : step.utf8ByteSize ≤ maxNameBytes

/-- No link is at a place. -/
def NoLinkAt (t : Tree) (p : Place) : Prop := ∀ target, t.lookup p ≠ some (.link target)

/-- The walk gets to a place, with so many links to follow. -/
inductive Reaches (t : Tree) (follow : Bool) : Nat → Place → List String → Place → Prop
  | stop (links : Nat) (here : Place) : Reaches t follow links here [] here
  | stay {links : Nat} {here q : Place} {rest : List String} (hs : t.Searchable here)
      (hr : Reaches t follow links here rest q) : Reaches t follow links here ("." :: rest) q
  | up {links : Nat} {here q : Place} {rest : List String} (hs : t.Searchable here)
      (hr : Reaches t follow links here.dropLast rest q) :
      Reaches t follow links here (".." :: rest) q
  | down {links : Nat} {here q : Place} {step : String} {rest : List String}
      (hs : t.Searchable here) (hn : IsName step) (hl : t.NoLinkAt (here ++ [step]))
      (hr : Reaches t follow links (here ++ [step]) rest q) :
      Reaches t follow links here (step :: rest) q
  | halt {links : Nat} {here : Place} {step target : String} (hs : t.Searchable here)
      (hn : IsName step) (hl : t.lookup (here ++ [step]) = some (.link target))
      (hf : follow = false) : Reaches t follow links here [step] (here ++ [step])
  | link {links : Nat} {here q : Place} {step target : String} {rest : List String}
      (hs : t.Searchable here) (hn : IsName step)
      (hl : t.lookup (here ++ [step]) = some (.link target)) (hf : rest = [] → follow = true)
      (hr : Reaches t follow links (walkStart here ⟨target⟩) (walkSteps ⟨target⟩ ++ rest) q) :
      Reaches t follow (links + 1) here (step :: rest) q

/-! ## One step -/

section

variable {t : Tree} {follow : Bool} {expand : Place → Path → List String → Except IoError Place}
  {here : Place} {step : String} {rest : List String}

theorem walkFrom_stay (hs : t.Searchable here) :
    walkFrom t follow expand here ("." :: rest) = walkFrom t follow expand here rest := by
  obtain ⟨mode, hd, hb⟩ := hs
  rw [walkFrom, hd]
  simp [hb]

theorem walkFrom_up (hs : t.Searchable here) :
    walkFrom t follow expand here (".." :: rest) =
      walkFrom t follow expand here.dropLast rest := by
  obtain ⟨mode, hd, hb⟩ := hs
  rw [walkFrom, hd]
  simp [hb]

theorem walkFrom_down (hs : t.Searchable here) (hn : IsName step)
    (hl : t.NoLinkAt (here ++ [step])) :
    walkFrom t follow expand here (step :: rest) =
      walkFrom t follow expand (here ++ [step]) rest := by
  obtain ⟨mode, hd, hb⟩ := hs
  rw [walkFrom, hd]
  simp only [hb, hn.ne_dot, hn.ne_dots, Nat.not_lt.mpr hn.short, Bool.not_true,
    Bool.false_eq_true, if_false]
  split
  · rename_i target ht
    exact absurd ht (hl target)
  · rfl

theorem walkFrom_link {target : String} (hs : t.Searchable here) (hn : IsName step)
    (hl : t.lookup (here ++ [step]) = some (.link target)) :
    walkFrom t follow expand here (step :: rest) =
      if rest.isEmpty && !follow then .ok (here ++ [step]) else expand here ⟨target⟩ rest := by
  obtain ⟨mode, hd, hb⟩ := hs
  rw [walkFrom, hd]
  simp only [hb, hn.ne_dot, hn.ne_dots, Nat.not_lt.mpr hn.short, hl, Bool.not_true,
    Bool.false_eq_true, if_false]

/-- What a step was, when the walk goes on to succeed. -/
theorem walkFrom_cons_cases {q : Place}
    (hw : walkFrom t follow expand here (step :: rest) = .ok q) :
    t.Searchable here ∧ (step = "." ∨ step = ".." ∨ IsName step) := by
  rw [walkFrom] at hw
  cases hd : t.lookup here with
  | none => rw [hd] at hw; cases hw
  | some n =>
    rw [hd] at hw
    cases n with
    | file _ _ | link _ => cases hw
    | dir mode =>
      simp only at hw
      split at hw
      · cases hw
      · rename_i hb
        refine ⟨⟨mode, hd, by simpa using hb⟩, ?_⟩
        split at hw
        · exact Or.inl ‹_›
        · split at hw
          · exact Or.inr (Or.inl ‹_›)
          · split at hw
            · cases hw
            · exact Or.inr (Or.inr ⟨‹_›, ‹_›, Nat.not_lt.mp ‹_›⟩)

/-- A step that cannot be taken fails for a reason that depends only on where the walk stands. -/
theorem walkFrom_stuck {t' : Tree} {expand' : Place → Path → List String → Except IoError Place}
    (hgo : ¬(t.Searchable here ∧ (step = "." ∨ step = ".." ∨ IsName step)))
    (hh : t'.lookup here = t.lookup here) :
    walkFrom t' follow expand' here (step :: rest) =
      walkFrom t follow expand here (step :: rest) := by
  rw [walkFrom, walkFrom, hh]
  cases hd : t.lookup here with
  | none => rfl
  | some n =>
    cases n with
    | file _ _ | link _ => rfl
    | dir mode =>
      simp only
      split
      · rfl
      · rename_i hb
        have hstep := not_and.mp hgo ⟨mode, hd, by simpa using hb⟩
        rw [not_or, not_or] at hstep
        obtain ⟨hdot, hdots, hname⟩ := hstep
        have hlong : maxNameBytes < step.utf8ByteSize :=
          Nat.lt_of_not_le fun hshort => hname ⟨hdot, hdots, hshort⟩
        simp only [if_neg hdot, if_neg hdots, if_pos hlong]

end

/-! ## Whole walks -/

/-- How a walk goes through a link when so many may still be followed. -/
def expandWith (t : Tree) (follow : Bool) :
    Nat → Place → Path → List String → Except IoError Place
  | 0, _, _, _ => .error .tooManyLinks
  | links + 1, here, target, rest =>
    walk t follow links (walkStart here target) (walkSteps target ++ rest)

theorem walk_eq (t : Tree) (follow : Bool) (links : Nat) :
    walk t follow links = walkFrom t follow (expandWith t follow links) := by
  cases links <;> rfl

theorem walk_of_reaches {t : Tree} {follow : Bool} {links : Nat} {here q : Place}
    {steps : List String} (hr : Reaches t follow links here steps q) :
    walk t follow links here steps = .ok q := by
  induction hr with
  | stop links here => rw [walk_eq]; rfl
  | stay hs hr ih => rw [walk_eq, walkFrom_stay hs, ← walk_eq, ih]
  | up hs hr ih => rw [walk_eq, walkFrom_up hs, ← walk_eq, ih]
  | down hs hn hl hr ih => rw [walk_eq, walkFrom_down hs hn hl, ← walk_eq, ih]
  | halt hs hn hl hf => rw [walk_eq, walkFrom_link hs hn hl, hf]; rfl
  | link hs hn hl hf hr ih =>
    rw [walk_eq, walkFrom_link hs hn hl, if_neg (by simpa using hf)]
    exact ih

/-- By the number of links, and for each number along the steps. -/
theorem reaches_of_walk {t : Tree} {follow : Bool} {links : Nat} {here q : Place}
    {steps : List String} (hw : walk t follow links here steps = .ok q) :
    Reaches t follow links here steps q := by
  induction links using Nat.strongRecOn generalizing here steps with
  | _ links ihl =>
    induction steps generalizing here with
    | nil =>
      rw [walk_eq] at hw
      cases hw
      exact .stop links _
    | cons step rest ih =>
      rw [walk_eq] at hw
      obtain ⟨hs, rfl | rfl | hn⟩ := walkFrom_cons_cases hw
      · rw [walkFrom_stay hs, ← walk_eq] at hw
        exact .stay hs (ih hw)
      · rw [walkFrom_up hs, ← walk_eq] at hw
        exact .up hs (ih hw)
      · by_cases hl : t.NoLinkAt (here ++ [step])
        · rw [walkFrom_down hs hn hl, ← walk_eq] at hw
          exact .down hs hn hl (ih hw)
        · obtain ⟨target, hl⟩ := Classical.not_forall.mp hl
          rw [ne_eq, Classical.not_not] at hl
          rw [walkFrom_link hs hn hl] at hw
          split at hw
          · rename_i hf
            rw [Bool.and_eq_true, List.isEmpty_iff, Bool.not_eq_true'] at hf
            obtain ⟨rfl, hf⟩ := hf
            cases hw
            exact .halt hs hn hl hf
          · rename_i hf
            cases links with
            | zero => cases hw
            | succ links => exact .link hs hn hl (by simpa using hf) (ihl links (by omega) hw)

theorem walk_eq_ok_iff {t : Tree} {follow : Bool} {links : Nat} {here q : Place}
    {steps : List String} :
    walk t follow links here steps = .ok q ↔ Reaches t follow links here steps q :=
  ⟨reaches_of_walk, walk_of_reaches⟩

/-- A path that can be resolved is a text of a path, and walking it gets to its place. -/
theorem resolve_eq_ok_iff {t : Tree} {base q : Place} {p : Path} {follow : Bool} :
    t.resolve base p follow = .ok q ↔
      p.text.toList ≠ [] ∧ '\x00' ∉ p.text.toList ∧
        Reaches t follow maxLinks (walkStart base p) (walkSteps p) q := by
  unfold resolve
  by_cases he : p.text.toList = []
  · simp [he]
  · by_cases hz : '\x00' ∈ p.text.toList
    · simp [he, hz]
    · rw [if_neg (by simpa using he), if_neg (by simpa using hz), walk_eq_ok_iff]
      simp only [ne_eq, he, hz, not_false_eq_true, true_and]

theorem find_eq_ok_iff {t : Tree} {base q : Place} {p : Path} {follow : Bool} {n : Node} :
    t.find base p follow = .ok (q, n) ↔
      t.resolve base p follow = .ok q ∧ t.lookup q = some n := by
  unfold find
  cases t.resolve base p follow with
  | error e => simp
  | ok place =>
    by_cases hq : place = q
    · subst hq
      cases hl : t.lookup place <;> simp [hl]
    · cases hl : t.lookup place <;> simp [hl, hq]

theorem isProgram_iff {t : Tree} {base : Place} {p : Path} :
    t.isProgram base p = true ↔ ∃ place content mode,
      t.find base p = .ok (place, .file content mode) ∧ mayExecute mode = true := by
  unfold isProgram
  split
  · rename_i place content mode hf
    constructor
    · intro he
      exact ⟨place, content, mode, hf, he⟩
    · rintro ⟨_, _, _, hf', he⟩
      rw [hf] at hf'
      cases hf'
      exact he
  · rename_i hne
    constructor
    · intro h
      cases h
    · rintro ⟨place, content, mode, hf, -⟩
      exact absurd hf (hne place content mode)

end Tree

end HostSuite
