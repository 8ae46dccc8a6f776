import Mathlib.Data.String.Basic
import HostSuite.Proofs.Tree.Names

/-
  Listings of a directory. Its names come in ascending order (`ascending_namesIn`), so they depend
  on nothing but which names are there (`namesIn_congr`).
-/

namespace HostSuite.Tree

/-- Places with the same front are compared by their last names. -/
theorem lt_of_compare_append {p : Place} {m n : String}
    (h : compare (p ++ [m]) (p ++ [n]) = .lt) : m < n := by
  induction p with
  | nil =>
    have hc : compare m n = .lt := by simpa using h
    exact compareOfLessAndEq_eq_lt.mp hc
  | cons x p ih => exact ih (by simpa using h)

theorem ascending_namesIn (t : Tree) (p : Place) : (t.namesIn p).Pairwise (· < ·) := by
  unfold namesIn
  rw [List.pairwise_filterMap]
  refine (Std.ExtTreeMap.ordered_keys (t := t.nodes)).imp ?_
  intro q q' hq m hm n hn
  rw [childName?_eq_some.mp hm, childName?_eq_some.mp hn] at hq
  exact lt_of_compare_append hq

/-- Ascending lists of the same names are the same. -/
theorem eq_of_ascending {ms ns : List String} (hm : ms.Pairwise (· < ·))
    (hn : ns.Pairwise (· < ·)) (h : ∀ n, n ∈ ms ↔ n ∈ ns) : ms = ns := by
  have hperm : ms.Perm ns :=
    (List.perm_ext_iff_of_nodup (hm.imp fun h => ne_of_lt h) (hn.imp fun h => ne_of_lt h)).mpr h
  exact hperm.eq_of_pairwise (fun a b _ _ hab hba => absurd hba (lt_asymm hab)) hm hn

theorem namesIn_congr {t t' : Tree} {p p' : Place}
    (h : ∀ n, t'.lookup (p' ++ [n]) = t.lookup (p ++ [n])) : t'.namesIn p' = t.namesIn p := by
  refine eq_of_ascending (ascending_namesIn t' p') (ascending_namesIn t p) fun n => ?_
  rw [mem_namesIn, mem_namesIn, h]

theorem list_eq_ok_iff {t : Tree} {base : Place} {p : Path} {names : List String} :
    t.list base p = .ok names ↔ ∃ place mode, t.find base p = .ok (place, .dir mode) ∧
      hasBit mode readBit = true ∧ names = t.namesIn place := by
  constructor
  · intro hl
    unfold list at hl
    split at hl
    · cases hl
    · rename_i place mode hf
      split at hl
      · exact ⟨place, mode, hf, ‹_›, (Except.ok.inj hl).symm⟩
      · cases hl
    · cases hl
  · rintro ⟨place, mode, hf, hread, rfl⟩
    unfold list
    rw [hf]
    exact if_pos hread

/-- A path that can be listed gives the names in some directory. -/
theorem list_eq_ok {t : Tree} {base : Place} {p : Path} {names : List String}
    (hl : t.list base p = .ok names) : ∃ place, names = t.namesIn place := by
  obtain ⟨place, -, -, -, hnames⟩ := list_eq_ok_iff.mp hl
  exact ⟨place, hnames⟩

end HostSuite.Tree
