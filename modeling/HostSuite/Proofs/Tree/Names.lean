import Mathlib.Data.List.Nodup
import HostSuite.Proofs.Path.Lexical
import HostSuite.Proofs.Tree.Walk

/-
  Names in a tree. The names in a directory are the last names of the places directly below it,
  each one once (`nodup_namesIn`). In a tree whose names are plain (`WellNamed`) a walk that starts
  at a plain place gets to a plain place, so no change of a tree brings in another kind of name. A
  walk whose last step is a name gets to that name in the place that the steps before it get to
  (`Reaches.split_last`), and without links it gets where its steps say (`Reaches.straight`).
-/

namespace HostSuite.Tree

/-! ## The names in a directory -/

theorem childName?_eq_some {p q : Place} {n : String} :
    childName? p q = some n ↔ q = p ++ [n] := by
  unfold childName?
  constructor
  · intro h
    split at h
    · rename_i hq
      rw [Bool.and_eq_true, List.isPrefixOf_iff_prefix, decide_eq_true_eq] at hq
      obtain ⟨⟨rest, rfl⟩, hlen⟩ := hq
      rw [List.length_append, Nat.add_left_cancel_iff, List.length_eq_one_iff] at hlen
      obtain ⟨a, rfl⟩ := hlen
      rw [List.getLast?_append] at h
      simpa using h
    · cases h
  · rintro rfl
    rw [if_pos (by simp)]
    simp

theorem mem_namesIn {t : Tree} {p : Place} {n : String} :
    n ∈ t.namesIn p ↔ ∃ node, t.lookup (p ++ [n]) = some node := by
  have hne : p ++ [n] ≠ [] := by simp
  unfold namesIn lookup
  rw [if_neg hne, ← Option.isSome_iff_exists, ← Std.ExtTreeMap.mem_iff_isSome_getElem?,
    List.mem_filterMap]
  simp only [childName?_eq_some, Std.ExtTreeMap.mem_keys, exists_eq_right]

theorem nodup_namesIn (t : Tree) (p : Place) : (t.namesIn p).Nodup := by
  unfold namesIn
  refine List.Nodup.filterMap ?_ t.nodes.nodup_keys
  intro q q' n hq hq'
  rw [childName?_eq_some.mp hq, childName?_eq_some.mp hq']

/-- Nothing is at or below two names of a directory. -/
theorem name_eq_of_below {here q : Place} {n n' : String} (h : here ++ [n] <+: q)
    (h' : here ++ [n'] <+: q) : n = n' := by
  obtain ⟨rest, rfl⟩ := h
  rw [List.append_assoc, List.prefix_append_right_inj] at h'
  exact (List.cons_prefix_cons.mp h').1.symm

/-! ## Plain names -/

/-- Every place with something in it has plain names. -/
def WellNamed (t : Tree) : Prop :=
  ∀ p node, t.lookup p = some node → ∀ n ∈ p, Path.IsPlain n

theorem WellNamed.of_mem_namesIn {t : Tree} (ht : t.WellNamed) {p : Place} {n : String}
    (hn : n ∈ t.namesIn p) : Path.IsPlain n := by
  obtain ⟨node, hl⟩ := mem_namesIn.mp hn
  exact ht _ node hl n (by simp)

theorem wellNamed_empty : empty.WellNamed := by
  intro p node hp n hn
  unfold lookup at hp
  split at hp
  · rename_i hnil
    rw [hnil] at hn; cases hn
  · simp [empty] at hp

theorem WellNamed.set {t : Tree} (ht : t.WellNamed) {p : Place} (hp : ∀ n ∈ p, Path.IsPlain n)
    (node : Node) : (t.set p node).WellNamed := by
  intro q found hq
  by_cases he : p = q
  · rw [← he]; exact hp
  · rw [lookup_set_ne t node he] at hq
    exact ht q found hq

/-- The steps of a walk have no slashes and are not empty. -/
theorem of_mem_walkSteps {p : Path} {step : String} (hs : step ∈ walkSteps p) :
    step ≠ "" ∧ '/' ∉ step.toList := by
  unfold walkSteps at hs
  split at hs
  · obtain hs | hs := List.mem_append.mp hs
    · exact Path.of_mem_segments hs
    · rw [List.mem_singleton.mp hs]
      decide
  · exact Path.of_mem_segments hs

/-- From a plain place every walk gets to a plain place. -/
theorem Reaches.plain {t : Tree} {follow : Bool} {links : Nat} {here q : Place}
    {steps : List String} (hr : Reaches t follow links here steps q)
    (hhere : ∀ n ∈ here, Path.IsPlain n)
    (hsteps : ∀ s ∈ steps, s ≠ "" ∧ '/' ∉ s.toList) : ∀ n ∈ q, Path.IsPlain n := by
  have hdown {here : Place} {step : String} (hhere : ∀ n ∈ here, Path.IsPlain n)
      (hs : step ≠ "" ∧ '/' ∉ step.toList) (hn : IsName step) :
      ∀ n ∈ here ++ [step], Path.IsPlain n := by
    intro n hm
    obtain hm | hm := List.mem_append.mp hm
    · exact hhere n hm
    · rw [List.mem_singleton.mp hm]
      exact ⟨hs.1, hs.2, hn.ne_dot, hn.ne_dots⟩
  induction hr with
  | stop links here => exact hhere
  | stay hs _ ih => exact ih hhere fun s hm => hsteps s (List.mem_cons_of_mem _ hm)
  | up hs _ ih =>
    exact ih (fun n hm => hhere n (List.dropLast_subset _ hm))
      fun s hm => hsteps s (List.mem_cons_of_mem _ hm)
  | down hs hn hl _ ih =>
    exact ih (hdown hhere (hsteps _ List.mem_cons_self) hn)
      fun s hm => hsteps s (List.mem_cons_of_mem _ hm)
  | halt hs hn hl hf => exact hdown hhere (hsteps _ List.mem_cons_self) hn
  | link hs hn hl hf _ ih =>
    refine ih ?_ ?_
    · unfold walkStart
      split
      · simp
      · exact hhere
    · intro s hm
      obtain hm | hm := List.mem_append.mp hm
      · exact of_mem_walkSteps hm
      · exact hsteps s (List.mem_cons_of_mem _ hm)

theorem plain_of_resolve {t : Tree} {base q : Place} (hbase : ∀ n ∈ base, Path.IsPlain n)
    {p : Path} {follow : Bool} (hr : t.resolve base p follow = .ok q) :
    ∀ n ∈ q, Path.IsPlain n := by
  obtain ⟨-, -, hreach⟩ := resolve_eq_ok_iff.mp hr
  refine hreach.plain ?_ fun s hs => of_mem_walkSteps hs
  unfold walkStart
  split
  · simp
  · exact hbase

/-! ## The end of a walk -/

/-- A walk whose last step is a name gets to that name in the place that the steps before get to,
links followed. -/
theorem Reaches.split_last {t : Tree} {links : Nat} {here q : Place} {front : List String}
    {last : String} (hr : Reaches t false links here (front ++ [last]) q) (hd : last ≠ ".")
    (hdd : last ≠ "..") :
    ∃ p, Reaches t true links here front p ∧ q = p ++ [last] := by
  generalize hs : front ++ [last] = steps at hr
  induction hr generalizing front with
  | stop links here => simp at hs
  | stay hsearch _ ih =>
    cases front with
    | nil =>
      cases hs
      exact absurd rfl hd
    | cons step front =>
      obtain ⟨rfl, rfl⟩ := List.cons.inj hs
      obtain ⟨p, hp, rfl⟩ := ih rfl
      exact ⟨p, .stay hsearch hp, rfl⟩
  | up hsearch _ ih =>
    cases front with
    | nil =>
      cases hs
      exact absurd rfl hdd
    | cons step front =>
      obtain ⟨rfl, rfl⟩ := List.cons.inj hs
      obtain ⟨p, hp, rfl⟩ := ih rfl
      exact ⟨p, .up hsearch hp, rfl⟩
  | @down links here q step rest hsearch hn hl hr ih =>
    cases front with
    | nil =>
      cases hs
      cases hr
      exact ⟨here, .stop links here, rfl⟩
    | cons next front =>
      obtain ⟨rfl, rfl⟩ := List.cons.inj hs
      obtain ⟨p, hp, rfl⟩ := ih rfl
      exact ⟨p, .down hsearch hn hl hp, rfl⟩
  | @halt links here step target hsearch hn hl hf =>
    cases front with
    | nil =>
      cases hs
      exact ⟨here, .stop links here, rfl⟩
    | cons next front => simp at hs
  | @link links here q step target rest hsearch hn hl hf hr ih =>
    cases front with
    | nil =>
      cases hs
      cases hf rfl
    | cons next front =>
      obtain ⟨rfl, rfl⟩ := List.cons.inj hs
      obtain ⟨p, hp, rfl⟩ := ih (List.append_assoc (walkSteps ⟨target⟩) front [last])
      exact ⟨p, .link hsearch hn hl (fun _ => rfl) hp, rfl⟩

/-- No link is at a place or above it. -/
def LinkFree (t : Tree) (p : Place) : Prop := ∀ q, q <+: p → t.NoLinkAt q

/-- Without links on the way a walk gets where its steps say. -/
theorem Reaches.straight {t : Tree} {follow : Bool} {links : Nat} {here q : Place}
    {steps : List String} (hr : Reaches t follow links here steps q)
    (hsteps : ∀ s ∈ steps, Path.IsPlain s) (hl : t.LinkFree (here ++ steps)) :
    q = here ++ steps := by
  induction hr with
  | stop links here => rw [List.append_nil]
  | stay _ _ _ => exact absurd rfl (hsteps _ List.mem_cons_self).ne_dot
  | up _ _ _ => exact absurd rfl (hsteps _ List.mem_cons_self).ne_dots
  | down _ _ _ _ ih =>
    have := ih (fun s hm => hsteps s (List.mem_cons_of_mem _ hm)) (by simpa using hl)
    rw [this, List.append_assoc, List.singleton_append]
  | halt _ _ _ _ => rfl
  | @link links here q step target rest _ _ ht _ _ _ =>
    exact absurd ht (hl (here ++ [step]) ⟨rest, by simp⟩ target)

/-- What a joined name is resolved to, links at the end not followed: that name in the place that
the path is resolved to. -/
theorem resolve_join {t : Tree} {base q : Place} {p : Path} {name : String}
    (habs : p.isAbsolute = true) (hends : p.endsInSlash = false) (hn : Path.IsPlain name)
    (hr : t.resolve base (p.join name) false = .ok q) :
    ∃ place, t.resolve base p = .ok place ∧ q = place ++ [name] := by
  obtain ⟨-, hz, hreach⟩ := resolve_eq_ok_iff.mp hr
  have hhead := Path.head_ne_slash hn.no_slash
  have hsteps : walkSteps (p.join name) = walkSteps p ++ [name] := by
    unfold walkSteps
    rw [Path.endsInSlash_join p hn, hends, if_neg (by simp), if_neg (by simp),
      Path.segments_join p hhead, hn.segments]
  have hstart : walkStart base (p.join name) = walkStart base p := by
    unfold walkStart
    rw [Path.isAbsolute_join habs, habs]
  rw [hsteps, hstart] at hreach
  obtain ⟨place, hplace, rfl⟩ := hreach.split_last hn.ne_dot hn.ne_dots
  refine ⟨place, resolve_eq_ok_iff.mpr ⟨?_, ?_, hplace⟩, rfl⟩
  · intro he
    unfold Path.isAbsolute at habs
    rw [he] at habs
    simp at habs
  · exact fun hm => hz (Path.mem_text_join hhead hm)

end HostSuite.Tree
