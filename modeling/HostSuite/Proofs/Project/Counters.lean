import HostSuite.Proofs.Tree.Removal
import HostSuite.Proofs.Tree.SameSteps

/-
  What a sweep of coverage counters removes. A counter can be removed where every directory on the
  way to it may be read and searched and the one around it may be changed (`CanRemove`); what
  happens to other counters makes no difference. A sweep removes exactly the counters that can be
  removed and counts them (`sweep_drops`): a name at a time, the names in a directory one after the
  other, and the directories below by the depth. So a second sweep finds nothing to remove
  (`dropCounters_exact`).
-/

namespace HostSuite.Tree

/-- Below a place, a regular file with a name that a coverage counter has. -/
def CounterBelow (t : Tree) (top q : Place) : Prop :=
  ∃ here name content mode, q = here ++ [name] ∧ top <+: here ∧ isCounterName name = true ∧
    t.lookup q = some (.file content mode)

/-- A directory whose names may be read and followed. -/
def Open (t : Tree) (d : Place) : Prop :=
  ∃ mode, t.lookup d = some (.dir mode) ∧ hasBit mode readBit = true ∧
    hasBit mode searchBit = true

/-- Every directory from `top` down to a place is open, and the last one may be changed. -/
structure CanRemove (t : Tree) (top q : Place) : Prop where
  opens : ∀ d, top <+: d → d <+: q → d ≠ q → t.Open d
  changes : t.mayChangeAround q = true

/-- What a sweep of `top` is to remove. -/
def ToSweep (t : Tree) (top q : Place) : Prop := t.CounterBelow top q ∧ t.CanRemove top q

/-- Some places were emptied and counted, and nothing else has changed. -/
structure Drops (gone : Finset Place) (t : Tree) (x : Tree × Nat) : Prop where
  count : x.2 = gone.card
  removed : ∀ q ∈ gone, x.1.lookup q = none
  kept : ∀ q ∉ gone, x.1.lookup q = t.lookup q

/-- Exactly the places with a property were emptied and counted. -/
def DropsAll (s : Place → Prop) (t : Tree) (x : Tree × Nat) : Prop :=
  ∃ gone, (∀ q, q ∈ gone ↔ s q) ∧ Drops gone t x

variable {t t' : Tree} {top here q : Place} {name : String} {mode : Nat}

/-! ## Dropping some places and then others -/

section

variable {s s' : Place → Prop} {x y : Tree × Nat}

theorem DropsAll.congr (hd : DropsAll s t x) (hs : ∀ q, s' q ↔ s q) : DropsAll s' t x := by
  obtain ⟨gone, hmem, hdrops⟩ := hd
  exact ⟨gone, fun q => (hmem q).trans (hs q).symm, hdrops⟩

theorem DropsAll.nothing (hs : ∀ q, ¬s q) : DropsAll s t (t, 0) :=
  ⟨∅, fun q => iff_of_false (Finset.notMem_empty q) (hs q), rfl, nofun, fun _ _ => rfl⟩

theorem DropsAll.one {p : Place} (hp : p ≠ []) : DropsAll (· = p) t (t.clear p, 1) := by
  refine ⟨{p}, fun q => Finset.mem_singleton, rfl, ?_, ?_⟩
  · intro q hq
    rw [Finset.mem_singleton.mp hq]
    exact lookup_clear_self t p hp
  · intro q hq
    refine lookup_clear_ne t ?_
    rintro rfl
    exact hq (Finset.mem_singleton_self p)

/-- The counts add up when no place is dropped twice. -/
theorem DropsAll.andThen (hx : DropsAll s t x) (hy : DropsAll s' x.1 y)
    (hdisjoint : ∀ q, s q → ¬s' q) :
    DropsAll (fun q => s q ∨ s' q) t (y.1, x.2 + y.2) := by
  obtain ⟨gone, hmem, hdrops⟩ := hx
  obtain ⟨gone', hmem', hdrops'⟩ := hy
  have hapart : Disjoint gone gone' := by
    rw [Finset.disjoint_left]
    intro q hq hq'
    exact hdisjoint q ((hmem q).mp hq) ((hmem' q).mp hq')
  refine ⟨gone ∪ gone', ?_, ?_, ?_, ?_⟩
  · intro q
    rw [Finset.mem_union, hmem, hmem']
  · rw [Finset.card_union_of_disjoint hapart, hdrops.count, hdrops'.count]
  · intro q hq
    by_cases hq' : q ∈ gone'
    · exact hdrops'.removed q hq'
    · have hgone : q ∈ gone := (Finset.mem_union.mp hq).resolve_right hq'
      rw [hdrops'.kept q hq', hdrops.removed q hgone]
  · intro q hq
    rw [Finset.notMem_union] at hq
    rw [hdrops'.kept q hq.2, hdrops.kept q hq.1]

end

/-! ## What is to be removed below a directory -/

/-- It depends on nothing but what is at and below the directory. -/
theorem toSweep_congr (ha : Agree (top <+: ·) t t') : t'.ToSweep top q ↔ t.ToSweep top q := by
  have hhalf {t t' : Tree} (ha : Agree (top <+: ·) t t') (h : t.ToSweep top q) :
      t'.ToSweep top q := by
    obtain ⟨⟨here, name, content, mode, rfl, hpre, hname, hl⟩, hopens, hchanges⟩ := h
    have hbelow : top <+: here ++ [name] := hpre.trans (List.prefix_append here [name])
    refine ⟨⟨here, name, content, mode, rfl, hpre, hname, (ha _ hbelow).trans hl⟩, ?_, ?_⟩
    · intro d hd hdq hne
      unfold Open
      rw [ha d hd]
      exact hopens d hd hdq hne
    · unfold mayChangeAround at hchanges ⊢
      rw [List.dropLast_concat] at hchanges ⊢
      rw [ha here hpre]
      exact hchanges
  exact ⟨hhalf ha.symm, hhalf ha⟩

/-- Nothing is to be removed below a place that is not open. -/
theorem ToSweep.opens_top (h : t.ToSweep top q) : t.Open top := by
  obtain ⟨⟨here, name, content, mode, rfl, hpre, -, -⟩, hcan⟩ := h
  refine hcan.opens top (List.prefix_refl top) (hpre.trans (List.prefix_append here [name])) ?_
  rintro rfl
  simpa using hpre.length_le

/-- What is to be removed at a name in the directory at `here`, which has this mode: the counter
with that name, or what is to be removed in the directory with that name. -/
def ToSweepAt (t : Tree) (mode : Nat) (here : Place) (name : String) (q : Place) : Prop :=
  match t.lookup (here ++ [name]) with
  | some (.file _ _) => q = here ++ [name] ∧ isCounterName name = true ∧ mayChange mode = true
  | some (.dir _) => hasBit mode searchBit = true ∧ t.ToSweep (here ++ [name]) q
  | _ => False

theorem ToSweepAt.below (h : t.ToSweepAt mode here name q) : here ++ [name] <+: q := by
  unfold ToSweepAt at h
  split at h
  · rw [h.1]
  · obtain ⟨-, ⟨d, n, -, -, rfl, hpre, -, -⟩, -⟩ := h
    exact hpre.trans (List.prefix_append d [n])
  · exact h.elim

theorem toSweepAt_congr (ha : Agree (here ++ [name] <+: ·) t t') :
    t'.ToSweepAt mode here name q ↔ t.ToSweepAt mode here name q := by
  unfold ToSweepAt
  rw [ha _ (List.prefix_refl _)]
  split
  · exact Iff.rfl
  · rw [toSweep_congr ha]
  · exact Iff.rfl

theorem search_of_mayChange (h : mayChange mode = true) : hasBit mode searchBit = true :=
  ((Bool.and_eq_true _ _).mp h).2

/-- What is to be removed below a directory is at one of its names. -/
theorem ToSweep.at_name (hl : t.lookup here = some (.dir mode)) (h : t.ToSweep here q) :
    ∃ name ∈ t.namesIn here, t.ToSweepAt mode here name q := by
  obtain ⟨⟨d, n, content, m, rfl, ⟨rest, rfl⟩, hn, hq⟩, hopens, hchanges⟩ := h
  cases rest with
  | nil =>
    rw [List.append_nil] at hq hchanges
    have hmay : mayChange mode = true := by
      unfold mayChangeAround at hchanges
      rwa [List.dropLast_concat, hl] at hchanges
    refine ⟨n, mem_namesIn.mpr ⟨_, hq⟩, ?_⟩
    unfold ToSweepAt
    rw [hq, List.append_nil]
    exact ⟨rfl, hn, hmay⟩
  | cons name rest =>
    have hassoc : here ++ name :: rest = here ++ [name] ++ rest := by simp
    rw [hassoc] at hq hopens hchanges ⊢
    obtain ⟨m', hdir, -, -⟩ := hopens (here ++ [name]) (List.prefix_append here [name])
      ⟨rest ++ [n], by simp⟩ (by simp)
    obtain ⟨m'', hhere, -, hsearch⟩ := hopens here (List.prefix_refl here)
      ⟨name :: rest ++ [n], by simp⟩ (by simp)
    cases Option.some.inj (hl.symm.trans hhere)
    refine ⟨name, mem_namesIn.mpr ⟨_, hdir⟩, ?_⟩
    unfold ToSweepAt
    rw [hdir]
    refine ⟨hsearch, ⟨_, n, content, m, rfl, List.prefix_append _ rest, hn, hq⟩, ?_, hchanges⟩
    exact fun d hd => hopens d ((List.prefix_append here [name]).trans hd)

/-- In a directory that may be read, all that is at its names is to be removed. -/
theorem ToSweepAt.toSweep (hl : t.lookup here = some (.dir mode))
    (hread : hasBit mode readBit = true) (h : t.ToSweepAt mode here name q) : t.ToSweep here q := by
  have hopen (hsearch : hasBit mode searchBit = true) : t.Open here := ⟨mode, hl, hread, hsearch⟩
  have hbelow := h.below
  unfold ToSweepAt at h
  split at h
  · rename_i content m hfile
    obtain ⟨rfl, hn, hmay⟩ := h
    refine ⟨⟨here, name, content, m, rfl, List.prefix_refl here, hn, hfile⟩, ?_, ?_⟩
    · intro d hd hdq hne
      have hd' : d <+: here := (List.prefix_concat_iff.mp hdq).resolve_left hne
      rw [hd'.eq_of_length_le hd.length_le]
      exact hopen (search_of_mayChange hmay)
    · unfold mayChangeAround
      rw [List.dropLast_concat, hl]
      exact hmay
  · obtain ⟨hsearch, ⟨d, n, content, m, hq, hpre, hn, hfile⟩, hopens, hchanges⟩ := h
    refine ⟨⟨d, n, content, m, hq, (List.prefix_append here [name]).trans hpre, hn, hfile⟩,
      ?_, hchanges⟩
    intro d hd hdq hne
    -- Either the directory itself, or at the name or below it.
    obtain hlt | hle := Nat.lt_or_ge here.length d.length
    · have hlen : (here ++ [name]).length ≤ d.length := by
        rw [List.length_append, List.length_singleton]
        omega
      exact hopens d (List.prefix_of_prefix_length_le hbelow hdq hlen) hdq hne
    · rw [← hd.eq_of_length_le hle]
      exact hopen hsearch
  · exact h.elim

/-! ## Sweeping -/

section

variable {enter : Tree → Place → Tree × Nat} {n : Nat}

/-- At a name, where directories with less than so much below them are swept. -/
theorem swept_drops (henter : ∀ t p, (t.below p).card < n → DropsAll (t.ToSweep p) t (enter t p))
    (hn : (t.below here).card ≤ n) :
    DropsAll (t.ToSweepAt mode here name) t (swept enter mode t here name) := by
  show DropsAll (fun q => t.ToSweepAt mode here name q) t _
  unfold ToSweepAt swept
  cases hl : t.lookup (here ++ [name]) with
  | none => exact .nothing fun q => not_false
  | some node =>
    cases node with
    | link target => exact .nothing fun q => not_false
    | file content m =>
      dsimp only
      split
      · rename_i hboth
        rw [Bool.and_eq_true] at hboth
        exact (DropsAll.one (by simp)).congr fun q => and_iff_left hboth
      · rename_i hnot
        rw [Bool.and_eq_true] at hnot
        exact .nothing fun q hq => hnot hq.2
    | dir m =>
      dsimp only
      split
      · rename_i hsearch
        exact (henter t _ ((card_below_lt hl).trans_le hn)).congr fun q => and_iff_right hsearch
      · rename_i hnot
        exact .nothing fun q hq => hnot hq.1

/-- By the names. Sweeping one of them leaves what is at and below the others alone, and no counter
is at or below two of them. -/
theorem sweepNames_drops (hclears : ∀ t p, OnlyClears (p <+: ·) t (enter t p).1)
    (henter : ∀ t p, (t.below p).card < n → DropsAll (t.ToSweep p) t (enter t p))
    {names : List String} (hnames : names.Nodup) (hn : (t.below here).card ≤ n) :
    DropsAll (fun q => ∃ name ∈ names, t.ToSweepAt mode here name q) t
      (sweepNames enter mode here names t) := by
  induction names generalizing t with
  | nil => exact .nothing fun q ⟨_, hm, _⟩ => absurd hm List.not_mem_nil
  | cons name names ih =>
    obtain ⟨hnot, hnames⟩ := List.nodup_cons.mp hnames
    have hfirst := swept_onlyClears hclears mode t here name
    have hapart {m : String} (hm : m ∈ names) {q : Place} (hq : here ++ [m] <+: q) :
        ¬here ++ [name] <+: q := by
      intro hq'
      exact hnot (name_eq_of_below hq hq' ▸ hm)
    have hrest := ih hnames ((hfirst.card_below_le here).trans hn)
    rw [sweepNames_cons]
    refine ((swept_drops henter hn).andThen hrest ?_).congr ?_
    · rintro q hq ⟨m, hm, hq'⟩
      exact hapart hm hq'.below hq.below
    · intro q
      have hsame (m : String) (hm : m ∈ names) :
          (swept enter mode t here name).1.ToSweepAt mode here m q ↔ t.ToSweepAt mode here m q :=
        toSweepAt_congr (hfirst.agree fun _ => hapart hm)
      rw [List.exists_mem_cons_iff]
      exact or_congr_right (exists_congr fun m => and_congr_right fun hm => (hsame m hm).symm)

end

/-- By the depth: a sweep that is deep enough removes what is to be removed. -/
theorem sweep_drops {depth : Nat} (hd : (t.below here).card < depth) :
    DropsAll (t.ToSweep here) t (t.sweep depth here) := by
  induction depth generalizing t here with
  | zero => exact absurd hd (Nat.not_lt_zero _)
  | succ depth ih =>
    unfold sweep
    split
    · rename_i mode hl
      split
      · rename_i hread
        refine (sweepNames_drops (n := depth) (sweep_onlyClears depth) (fun t p hp => ih hp)
          (nodup_namesIn t here) (Nat.lt_succ_iff.mp hd)).congr fun q => ⟨fun hq => ?_, ?_⟩
        · exact hq.at_name hl
        · rintro ⟨name, -, hq⟩
          exact hq.toSweep hl hread
      · rename_i hnot
        refine .nothing fun q hq => ?_
        obtain ⟨m, hm, hread, -⟩ := hq.opens_top
        cases Option.some.inj (hl.symm.trans hm)
        exact hnot hread
    · rename_i hnot
      refine .nothing fun q hq => ?_
      obtain ⟨m, hm, -, -⟩ := hq.opens_top
      exact hnot m hm

/-! ## Sweeping again -/

/-- A sweep that removes nothing gives back the very tree. -/
theorem sweepNames_eq_self {enter : Tree → Place → Tree × Nat}
    (henter : ∀ t p, (enter t p).2 = 0 → (enter t p).1 = t) {names : List String}
    (hz : (sweepNames enter mode here names t).2 = 0) :
    (sweepNames enter mode here names t).1 = t := by
  have hswept {name : String} (hz : (swept enter mode t here name).2 = 0) :
      (swept enter mode t here name).1 = t := by
    unfold swept at hz ⊢
    split at hz
    · split at hz
      · cases hz
      · rename_i hnot
        rw [if_neg hnot]
    · split at hz
      · rename_i hsearch
        rw [if_pos hsearch]
        exact henter _ _ hz
      · rename_i hnot
        rw [if_neg hnot]
    · rfl
  induction names with
  | nil => rfl
  | cons name names ih =>
    rw [sweepNames_cons] at hz ⊢
    obtain ⟨hfirst, hrest⟩ := Nat.add_eq_zero_iff.mp hz
    rw [hswept hfirst] at hrest ⊢
    exact ih hrest

theorem sweep_eq_self {depth : Nat} (hz : (t.sweep depth here).2 = 0) :
    (t.sweep depth here).1 = t := by
  induction depth generalizing t here with
  | zero => rfl
  | succ depth ih =>
    unfold sweep at hz ⊢
    split at hz
    · split at hz
      · rename_i hread
        rw [if_pos hread]
        exact sweepNames_eq_self (fun t p => ih) hz
      · rename_i hnot
        rw [if_neg hnot]
    · rfl

/-- Following a link at the end makes no difference when there is none. -/
theorem Reaches.follow {links : Nat} {steps : List String}
    (hr : Reaches t false links here steps q) (hq : t.NoLinkAt q) :
    Reaches t true links here steps q := by
  induction hr with
  | stop links here => exact .stop links here
  | stay hs _ ih => exact .stay hs (ih hq)
  | up hs _ ih => exact .up hs (ih hq)
  | down hs hn hl _ ih => exact .down hs hn hl (ih hq)
  | halt _ _ hl _ => exact absurd hl (hq _)
  | link hs hn hl _ _ ih => exact .link hs hn hl (fun _ => rfl) (ih hq)

/-- Where a path leads to a directory, the counters in it are swept. -/
theorem dropCounters_eq_sweep {base : Place} {p : Path}
    (hd : t.find base p = .ok (top, .dir mode)) :
    t.dropCounters base p = t.sweep t.depthBound top := by
  unfold dropCounters
  split
  · rename_i q content m hf
    obtain ⟨hresolve, hfile⟩ := find_eq_ok_iff.mp hf
    obtain ⟨hresolve', hdir⟩ := find_eq_ok_iff.mp hd
    obtain ⟨-, -, hr⟩ := resolve_eq_ok_iff.mp hresolve
    obtain ⟨-, -, hr'⟩ := resolve_eq_ok_iff.mp hresolve'
    have hq : t.NoLinkAt q := by
      intro target ht
      rw [hfile] at ht
      cases ht
    rw [(hr.follow hq).unique hr', hdir] at hfile
    cases hfile
  · rw [hd]

section

variable {gone : Finset Place} {x : Tree × Nat}

theorem Drops.onlyClears (hx : Drops gone t x) : OnlyClears (· ∈ gone) t x.1 := by
  intro q
  by_cases hq : q ∈ gone
  · exact .inr ⟨hq, hx.removed q hq⟩
  · exact .inl (hx.kept q hq)

/-- Counters are files, so no path to a directory is lost with them. -/
theorem Drops.differs (hx : Drops gone t x) (hgone : ∀ q ∈ gone, t.CounterBelow top q) :
    Differs (InLeaves fun _ => True) t x.1 := by
  intro q
  by_cases hq : q ∈ gone
  · obtain ⟨here, name, content, m, -, -, -, hfile⟩ := hgone q hq
    exact .inr ⟨trivial, .inr ⟨content, m, hfile⟩, .inl (hx.removed q hq)⟩
  · exact .inl (hx.kept q hq)

theorem CounterBelow.of_onlyClears {s : Place → Prop} (hc : OnlyClears s t t')
    (h : t'.CounterBelow top q) : t.CounterBelow top q := by
  obtain ⟨here, name, content, m, hq, hpre, hname, hfile⟩ := h
  exact ⟨here, name, content, m, hq, hpre, hname, hc.lookup hfile⟩

/-- Clearing places makes nothing removable. -/
theorem ToSweep.of_onlyClears {s : Place → Prop} (hc : OnlyClears s t t')
    (h : t'.ToSweep top q) : t.ToSweep top q := by
  refine ⟨h.1.of_onlyClears hc, ?_, ?_⟩
  · intro d hd hdq hne
    obtain ⟨m, hdir, hbits⟩ := h.2.opens d hd hdq hne
    exact ⟨m, hc.lookup hdir, hbits⟩
  · have hchanges := h.2.changes
    unfold mayChangeAround at hchanges ⊢
    split at hchanges
    · rename_i m hdir
      rw [hc.lookup hdir]
      exact hchanges
    · cases hchanges

end

/-- Dropping the counters at a directory removes exactly the counters below it that can be removed,
each by itself, and gives their number; everything else stays as it was. Doing so again removes
nothing and gives zero; and when every counter could be removed, there is none left. -/
theorem dropCounters_exact {base : Place} {p : Path}
    (hd : t.find base p = .ok (top, .dir mode)) :
    (∃ gone : Finset Place, (∀ q, q ∈ gone ↔ t.CounterBelow top q ∧ t.CanRemove top q) ∧
      Drops gone t (t.dropCounters base p)) ∧
    (t.dropCounters base p).1.dropCounters base p = ((t.dropCounters base p).1, 0) ∧
    ((∀ q, t.CounterBelow top q → t.CanRemove top q) →
      ∀ q, ¬(t.dropCounters base p).1.CounterBelow top q) := by
  obtain ⟨gone, hmem, hdrops⟩ := sweep_drops (card_below_lt_depthBound t top)
  rw [← dropCounters_eq_sweep hd] at hdrops
  have hclears := hdrops.onlyClears
  generalize t.dropCounters base p = x at hdrops hclears
  have hagain : x.1.find base p = .ok (top, .dir mode) :=
    (hdrops.differs fun q hq => ((hmem q).mp hq).1).find_dir hd
  refine ⟨⟨gone, hmem, hdrops⟩, ?_, ?_⟩
  · rw [dropCounters_eq_sweep hagain]
    obtain ⟨gone', hmem', hdrops'⟩ := sweep_drops (card_below_lt_depthBound x.1 top)
    have hnone : gone' = ∅ := by
      refine Finset.eq_empty_of_forall_notMem fun q hq => ?_
      have hto := (hmem' q).mp hq
      obtain ⟨here, name, content, m, -, -, -, hfile⟩ := hto.1
      rw [hdrops.removed q ((hmem q).mpr (hto.of_onlyClears hclears))] at hfile
      cases hfile
    have hzero : (x.1.sweep x.1.depthBound top).2 = 0 := by
      rw [hdrops'.count, hnone, Finset.card_empty]
    exact Prod.ext (sweep_eq_self hzero) hzero
  · intro hall q hq
    have hbefore := hq.of_onlyClears hclears
    obtain ⟨here, name, content, m, -, -, -, hfile⟩ := hq
    rw [hdrops.removed q ((hmem q).mpr ⟨hbefore, hall q hbefore⟩)] at hfile
    cases hfile

/-- A directory with counters in it, one of them in a directory that may not be changed and one in
a directory that may not be read, and with a link to another directory. -/
def countedTree : Tree :=
  ((((((((((empty.set ["a"] (.dir 0o755)).set ["a", "main.gcda"] (.file [] 0o644)).set
    ["a", "main.c"] (.file [] 0o644)).set ["a", "blind"] (.dir 0o300)).set
    ["a", "blind", "x.gcda"] (.file [] 0o644)).set ["a", "fixed"] (.dir 0o555)).set
    ["a", "fixed", "y.gcda"] (.file [] 0o644)).set ["a", "link"] (.link "../b")).set
    ["a", "sub"] (.dir 0o755)).set ["a", "sub", "z.gcda"] (.file [] 0o644)).set
    ["b"] (.dir 0o755)

theorem dropCounters_exact_countedTree :
    (∃ gone : Finset Place,
      (∀ q, q ∈ gone ↔ countedTree.CounterBelow ["a"] q ∧ countedTree.CanRemove ["a"] q) ∧
      Drops gone countedTree (countedTree.dropCounters [] ⟨"a"⟩)) ∧
    (countedTree.dropCounters [] ⟨"a"⟩).2 = 2 ∧
    (countedTree.dropCounters [] ⟨"a"⟩).1.dropCounters [] ⟨"a"⟩ =
      ((countedTree.dropCounters [] ⟨"a"⟩).1, 0) := by
  have hd : countedTree.find [] ⟨"a"⟩ = .ok (["a"], .dir 0o755) :=
    Except.eq_ok_of_toOption (by decide +kernel)
  obtain ⟨hexact, hagain, -⟩ := dropCounters_exact hd
  exact ⟨hexact, by decide +kernel, hagain⟩

end HostSuite.Tree
