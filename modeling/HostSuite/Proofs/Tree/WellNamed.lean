import HostSuite.Proofs.Machine.Course
import HostSuite.Proofs.Tree.Frame
import HostSuite.Proofs.Tree.Layouts
import HostSuite.Proofs.Tree.Names

/-
  Names stay plain. Whatever a change puts into a tree stands at a place that a path was resolved
  to, and such a place has plain names when the base of the path has. So every change that a run
  asks for keeps a tree well named (`Change.wellNamed_on`), and so does laying entries out
  (`wellNamed_putAll`): every tree that is laid out is well named.
-/

namespace HostSuite

namespace Tree

variable {t t' : Tree} {base : Place}

theorem WellNamed.of_growsAlong (ht : t.WellNamed) (hbase : ∀ n ∈ base, Path.IsPlain n)
    {p : Path} (hg : GrowsAlong base p t t') : t'.WellNamed := by
  intro q node hq
  obtain hsame | ⟨⟨a, -, ha⟩, -, -⟩ := hg q
  · exact ht q node (hsame ▸ hq)
  · exact plain_of_resolve hbase ha

theorem WellNamed.of_onlyClears (ht : t.WellNamed) {s : Place → Prop} (hc : OnlyClears s t t') :
    t'.WellNamed := by
  intro q node hq
  obtain hsame | ⟨-, hnone⟩ := hc q
  · exact ht q node (hsame ▸ hq)
  · rw [hq] at hnone; cases hnone

theorem WellNamed.write (ht : t.WellNamed) (hbase : ∀ n ∈ base, Path.IsPlain n) {p : Path}
    {content : Text.Bytes} (hw : t.write base p content = .ok t') : t'.WellNamed := by
  obtain ⟨q, mode, hq, -, rfl⟩ := write_eq_ok hw
  exact ht.set (plain_of_resolve hbase hq) _

/-! ## Sweeping counters -/

/-- What a sweep of a directory does first about a name in it. -/
def swept (enter : Tree → Place → Tree × Nat) (mode : Nat) (t : Tree) (here : Place)
    (name : String) : Tree × Nat :=
  match t.lookup (here ++ [name]) with
  | some (.file _ _) =>
    if isCounterName name && mayChange mode then (t.clear (here ++ [name]), 1) else (t, 0)
  | some (.dir _) => if hasBit mode searchBit then enter t (here ++ [name]) else (t, 0)
  | _ => (t, 0)

theorem sweepNames_cons (enter : Tree → Place → Tree × Nat) (mode : Nat) (here : Place)
    (name : String) (names : List String) (t : Tree) :
    sweepNames enter mode here (name :: names) t =
      ((sweepNames enter mode here names (swept enter mode t here name).1).1,
        (swept enter mode t here name).2 +
          (sweepNames enter mode here names (swept enter mode t here name).1).2) := rfl

/-- A counter is cleared, a directory is entered. -/
theorem swept_onlyClears {enter : Tree → Place → Tree × Nat}
    (he : ∀ t p, OnlyClears (p <+: ·) t (enter t p).1) (mode : Nat) (t : Tree) (here : Place)
    (name : String) : OnlyClears (here ++ [name] <+: ·) t (swept enter mode t here name).1 := by
  unfold swept
  split
  · split
    · exact (clear_onlyClears t (by simp)).mono fun q hq => ⟨[], by simp [hq]⟩
    · exact .refl _ t
  · split
    · exact he t _
    · exact .refl _ t
  · exact .refl _ t

theorem sweepNames_onlyClears {enter : Tree → Place → Tree × Nat}
    (he : ∀ t p, OnlyClears (p <+: ·) t (enter t p).1) (mode : Nat) (here : Place)
    (names : List String) (t : Tree) :
    OnlyClears (here <+: ·) t (sweepNames enter mode here names t).1 := by
  induction names generalizing t with
  | nil => exact OnlyClears.refl _ t
  | cons name names ih =>
    have hswept := swept_onlyClears he mode t here name
    rw [sweepNames_cons]
    exact (hswept.mono fun q hq => (List.prefix_append here [name]).trans hq).trans (ih _)

theorem sweep_onlyClears (depth : Nat) (t : Tree) (here : Place) :
    OnlyClears (here <+: ·) t (sweep depth t here).1 := by
  induction depth generalizing t here with
  | zero => exact OnlyClears.refl _ t
  | succ depth ih =>
    unfold sweep
    split
    · split
      · exact sweepNames_onlyClears ih _ here _ t
      · exact OnlyClears.refl _ t
    · exact OnlyClears.refl _ t

/-- Dropping counters puts nothing anywhere. -/
theorem dropCounters_onlyClears (t : Tree) (base : Place) (p : Path) :
    OnlyClears (fun _ => True) t (t.dropCounters base p).1 := by
  unfold Tree.dropCounters
  split
  · split
    · split
      · rename_i hr
        exact (removeFile_onlyClears hr).mono fun _ _ => trivial
      · exact .refl _ t
    · exact .refl _ t
  · split
    · exact (sweep_onlyClears _ t _).mono fun _ _ => trivial
    · exact .refl _ t

theorem WellNamed.dropCounters (ht : t.WellNamed) (p : Path) :
    (t.dropCounters base p).1.WellNamed :=
  ht.of_onlyClears (dropCounters_onlyClears t base p)

end Tree

/-- Every change that a run asks for keeps a tree well named. -/
theorem Change.wellNamed_on {h : Host} {t : Tree} (hbase : ∀ n ∈ h.workingDir, Path.IsPlain n)
    (ht : t.WellNamed) (c : Change) : (c.on h t).WellNamed := by
  cases c with
  | readyDir p => exact ht.of_growsAlong hbase (Tree.ensureDir_growsAlong t h.workingDir p)
  | removeDir p => exact ht.of_onlyClears (Tree.removeDirsIfThere_onlyClears t h.workingDir p)
  | removeFile p => exact ht.of_onlyClears (Tree.removeFileIfThere_onlyClears t h.workingDir p)
  | writeText p text =>
    simp only [Change.on]
    cases hw : t.write h.workingDir p (Text.encode text) with
    | error e => exact ht
    | ok t' => exact ht.write hbase hw
  | dropCounters p => exact ht.dropCounters p

/-! ## Layouts -/

namespace Tree

variable {t t' : Tree} {base : Place}

theorem WellNamed.makeDirs (ht : t.WellNamed) (hbase : ∀ n ∈ base, Path.IsPlain n) (p : Path) :
    (t.makeDirs base p).1.WellNamed :=
  ht.of_growsAlong hbase (makeDirsWith_growsAlong _ t base p)

theorem WellNamed.setMode (ht : t.WellNamed) (hbase : ∀ n ∈ base, Path.IsPlain n) {p : Path}
    {mode : Nat} (hm : t.setMode base p mode = .ok t') : t'.WellNamed := by
  unfold Tree.setMode at hm
  split at hm
  · cases hm
  · rename_i hf
    cases hm
    exact ht.set (plain_of_resolve hbase (find_eq_ok_iff.mp hf).1) _
  · cases hm
  · rename_i hf
    cases hm
    exact ht.set (plain_of_resolve hbase (find_eq_ok_iff.mp hf).1) _
  · cases hm
    exact ht

/-- Laying out gives every name by a path. -/
theorem layoutInvariant_wellNamed (hbase : ∀ n ∈ base, Path.IsPlain n) :
    LayoutInvariant base WellNamed where
  makeDirs p ht := ht.makeDirs hbase p
  link target ht hp _ := ht.set (plain_of_resolve hbase hp) (.link target)
  write ht hw := ht.write hbase hw
  setMode ht hm := ht.setMode hbase hm
  removeDirs p ht := ht.of_onlyClears (removeDirs_onlyClears _ base p)
  removeFile ht hr := ht.of_onlyClears (removeFile_onlyClears hr)

theorem wellNamed_putAll (ht : t.WellNamed) (hbase : ∀ n ∈ base, Path.IsPlain n)
    (entries : List LayoutEntry) : (t.putAll base entries).WellNamed :=
  (layoutInvariant_wellNamed hbase).putAll ht entries

end Tree

end HostSuite
