import HostSuite.Proofs.Tree.Names
import HostSuite.Proofs.Tree.Visits

/-
  Directories whose links stay inside. A place lies along another one when it is at or below it, or
  above it. Following a link of a self-contained directory visits only places along the directory
  and ends at or below it, and neither the directory nor anything above it is a link. Then a path
  written with plain names that leads to the directory and into it visits only places along it
  (`SelfContained.visits_down`), so trees that agree there give it the same node or the same failure
  (`SelfContained.find_eq`). A directory stays self-contained when anything is cleared
  (`SelfContained.of_clears`), but not when something is made: a link that led nowhere may lead out
  then.
-/

namespace HostSuite

/-- The absolute path is written with these names. -/
structure Path.Spells (p : Path) (s : List String) : Prop where
  absolute : p.isAbsolute = true
  segments : p.segments = s
  plain : ∀ n ∈ s, IsPlain n

theorem Path.spells_ofPlace {s : List String} (hs : ∀ n ∈ s, IsPlain n) : (ofPlace s).Spells s :=
  ⟨isAbsolute_ofPlace s, segments_ofPlace fun n hn => ⟨(hs n hn).ne_empty, (hs n hn).no_slash⟩, hs⟩

theorem Path.Spells.join {p : Path} {s : List String} (hp : p.Spells s) {name : String}
    (hn : IsPlain name) : (p.join name).Spells (s ++ [name]) := by
  refine ⟨isAbsolute_join hp.absolute name, ?_, ?_⟩
  · rw [segments_join p (head_ne_slash hn.no_slash), hp.segments, hn.segments]
  · intro n hm
    obtain hm | hm := List.mem_append.mp hm
    · exact hp.plain n hm
    · rw [List.mem_singleton.mp hm]
      exact hn

namespace Tree

theorem walkStart_of_spells {p : Path} {s : List String} (hp : p.Spells s) (base : Place) :
    walkStart base p = [] :=
  if_pos hp.absolute

/-- An absolute path is walked from the top along its names. -/
theorem reaches_of_spells {t : Tree} {base q : Place} {p : Path} {s : List String} {n : Node}
    (hp : p.Spells s) (hf : t.find base p = .ok (q, n)) : Reaches t true maxLinks [] s q := by
  have hr := reaches_segments (find_eq_ok_iff.mp hf).1
  rwa [walkStart_of_spells hp, hp.segments] at hr

/-- The same with a link at the end not followed. -/
theorem reaches_of_spells_last {t : Tree} {base q : Place} {p : Path} {s : List String} {n : Node}
    (hp : p.Spells s) (hends : p.endsInSlash = false) (hf : t.find base p false = .ok (q, n)) :
    Reaches t false maxLinks [] s q := by
  have hr := (resolve_eq_ok_iff.mp (find_eq_ok_iff.mp hf).1).2.2
  unfold walkSteps at hr
  rwa [walkStart_of_spells hp, hends, if_neg (by simp), hp.segments] at hr

/-- `q` is at or below `P`, or above it. -/
def Along (P q : Place) : Prop := P <+: q ∨ q <+: P

/-- What is above a place along `P` is along it as well. -/
theorem Along.of_prefix {P p q : Place} (hq : Along P q) (hp : p <+: q) : Along P p := by
  obtain h | h := hq
  · exact List.prefix_or_prefix_of_prefix h hp
  · exact .inr (hp.trans h)

theorem Along.above_or_below {P here : Place} {step : String} (ha : Along P (here ++ [step])) :
    here ++ [step] <+: P ∨ P <+: here := by
  obtain h | h := ha
  · obtain h | h := List.prefix_concat_iff.mp h
    · exact .inl (h ▸ List.prefix_refl _)
    · exact .inr h
  · exact .inl h

/-- See the head of the file. -/
structure SelfContained (t : Tree) (P : Place) : Prop where
  above : t.LinkFree P
  visits : ∀ {here : Place} {name target : String}, P <+: here →
    t.lookup (here ++ [name]) = some (.link target) →
      ∀ q, t.Visits (walkStart here ⟨target⟩) (walkSteps ⟨target⟩) q → Along P q
  ends : ∀ {here : Place} {name target : String}, P <+: here →
    t.lookup (here ++ [name]) = some (.link target) →
      ∀ links q, Reaches t true links (walkStart here ⟨target⟩) (walkSteps ⟨target⟩) q → P <+: q

/-! ## Trees without links -/

def NoLinks (t : Tree) : Prop := ∀ q, t.NoLinkAt q

theorem noLinks_empty : empty.NoLinks := by
  intro q target hl
  unfold lookup at hl
  split at hl
  · cases hl
  · simp [empty] at hl

namespace NoLinks

variable {t t' : Tree}

theorem set (ht : t.NoLinks) (p : Place) {n : Node} (hn : ∀ target, n ≠ .link target) :
    (t.set p n).NoLinks := by
  intro q target hl
  by_cases hp : p = q
  · subst hp
    by_cases hnil : p = []
    · rw [hnil] at hl
      cases hl
    · rw [lookup_set_self t p n hnil] at hl
      exact hn target (Option.some.inj hl)
  · rw [lookup_set_ne t n hp] at hl
    exact ht q target hl

theorem of_clears (ht : t.NoLinks) {s : Place → Prop} (hc : OnlyClears s t t') : t'.NoLinks :=
  fun q target hl => ht q target (hc.lookup hl)

/-- Then every directory is self-contained. -/
theorem selfContained (ht : t.NoLinks) (P : Place) : t.SelfContained P :=
  ⟨fun q _ => ht q, fun _ hl => absurd hl (ht _ _), fun _ hl => absurd hl (ht _ _)⟩

end NoLinks

namespace SelfContained

variable {t t' : Tree} {P here q s : Place} {steps : List String}

/-! ## Walks down into the directory -/

/-- On the way down a link can only be inside. -/
theorem below_of_link (ht : t.SelfContained P) {step target : String}
    (ha : Along P (here ++ [step])) (hl : t.lookup (here ++ [step]) = some (.link target)) :
    P <+: here :=
  ha.above_or_below.resolve_left fun h => ht.above _ h target hl

/-- A walk by names whose steps lead along the directory stays along it. By its steps; where a link
is followed, the rest of the steps goes on from where the link ends. -/
theorem visits_down (ht : t.SelfContained P) (ha : Along P (here ++ steps))
    (hsteps : ∀ n ∈ steps, Path.IsPlain n) (hv : t.Visits here steps q) : Along P q := by
  induction steps generalizing here with
  | nil =>
    cases hv
    rwa [List.append_nil] at ha
  | cons step rest ih =>
    have hhere : Along P here := ha.of_prefix (List.prefix_append here _)
    have ha' : Along P ((here ++ [step]) ++ rest) := by simpa using ha
    have hstep : Along P (here ++ [step]) := ha'.of_prefix (List.prefix_append _ rest)
    have hrest : ∀ n ∈ rest, Path.IsPlain n := fun n hn => hsteps n (List.mem_cons_of_mem _ hn)
    cases hv with
    | here _ _ => exact hhere
    | name _ _ => exact hstep
    | stay _ _ => exact absurd rfl (hsteps "." List.mem_cons_self).ne_dot
    | up _ _ => exact absurd rfl (hsteps ".." List.mem_cons_self).ne_dots
    | down _ _ _ hv => exact ih ha' hrest hv
    | link _ _ hl hv =>
      have hbelow := ht.below_of_link hstep hl
      obtain h | ⟨links, p, hp, h⟩ := hv.append
      · exact ht.visits hbelow hl q h
      · exact ih (.inl ((ht.ends hbelow hl links p hp).trans (List.prefix_append p rest))) hrest h

/-- A walk by names whose steps lead into the directory ends in it, links followed. -/
theorem reaches_down (ht : t.SelfContained P) (hin : P <+: here ++ steps)
    (hsteps : ∀ n ∈ steps, Path.IsPlain n) {links : Nat} (hr : Reaches t true links here steps q) :
    P <+: q := by
  induction steps generalizing here links with
  | nil =>
    cases hr
    rwa [List.append_nil] at hin
  | cons step rest ih =>
    have hin' : P <+: (here ++ [step]) ++ rest := by simpa using hin
    have hrest : ∀ n ∈ rest, Path.IsPlain n := fun n hn => hsteps n (List.mem_cons_of_mem _ hn)
    cases hr with
    | stay _ _ => exact absurd rfl (hsteps "." List.mem_cons_self).ne_dot
    | up _ _ => exact absurd rfl (hsteps ".." List.mem_cons_self).ne_dots
    | down _ _ _ hr => exact ih hin' hrest hr
    | halt _ _ _ hf => cases hf
    | link _ _ hl _ hr =>
      have hbelow := ht.below_of_link (Along.of_prefix (.inl hin') (List.prefix_append _ rest)) hl
      obtain ⟨p, links', hp, hr⟩ := hr.split
      exact ih ((ht.ends hbelow hl _ p hp).trans (List.prefix_append p rest)) hrest hr

/-! ## Trees that agree along the directory -/

theorem of_agree (ht : t.SelfContained P) (ha : Agree (Along P) t t') : t'.SelfContained P := by
  have hvisits {here : Place} {name target : String} (hP : P <+: here)
      (hl : t'.lookup (here ++ [name]) = some (.link target)) :
      t.lookup (here ++ [name]) = some (.link target) ∧
        Agree (t.Visits (walkStart here ⟨target⟩) (walkSteps ⟨target⟩)) t t' := by
    have hl' := (ha _ (.inl (hP.trans (List.prefix_append here [name])))).symm.trans hl
    exact ⟨hl', ha.mono (ht.visits hP hl')⟩
  refine ⟨?_, ?_, ?_⟩
  · intro q hq target hl
    exact ht.above q hq target ((ha q (.inr hq)).symm.trans hl)
  · intro here name target hP hl q hv
    obtain ⟨hl', hsame⟩ := hvisits hP hl
    exact ht.visits hP hl' q (hv.of_agree hsame)
  · intro here name target hP hl links q hr
    obtain ⟨hl', hsame⟩ := hvisits hP hl
    refine ht.ends hP hl' links q (reaches_of_walk ?_)
    rw [← walk_congr hsame]
    exact walk_of_reaches hr

theorem of_clears (ht : t.SelfContained P) {s : Place → Prop} (hc : OnlyClears s t t')
    (hs : ∀ q, s q → P <+: q) : t'.SelfContained P := by
  refine ⟨?_, ?_, ?_⟩
  · exact fun q hq target hl => ht.above q hq target (hc.lookup hl)
  · exact fun hP hl q hv => ht.visits hP (hc.lookup hl) q (hv.of_clears hc)
  · intro here name target hP hl links q hr
    obtain h | h := hr.of_clears hc
    · exact ht.ends hP (hc.lookup hl) links q h
    · exact hs q h

variable {base : Place} {p : Path}

/-- What a path down to the directory or into it visits. -/
theorem visits_path (ht : t.SelfContained P) (hp : p.Spells s) (hs : Along P s)
    (hv : t.Visits (walkStart base p) p.segments q) : Along P q := by
  rw [walkStart_of_spells hp, hp.segments] at hv
  exact ht.visits_down (by simpa using hs) hp.plain hv

theorem find_eq (ht : t.SelfContained P) (ha : Agree (Along P) t t') (hp : p.Spells s)
    (hs : Along P s) {follow : Bool} : t'.find base p follow = t.find base p follow :=
  find_congr (ha.mono fun _ => ht.visits_path hp hs)

/-- A path into the directory ends in it. -/
theorem find_below (ht : t.SelfContained P) (hp : p.Spells s) (hs : P <+: s) {n : Node}
    (hf : t.find base p = .ok (q, n)) : P <+: q :=
  ht.reaches_down (by simpa using hs) hp.plain (reaches_of_spells hp hf)

end SelfContained

end Tree

end HostSuite
