import HostSuite.Suite.Session
import HostSuite.Proofs.Machine.Course
import HostSuite.Proofs.Path.Lexical

/-
  The projects of a session. They are found in the names of one directory and keep their order
  (`discover_eq_ok`); a selection keeps some of them in that order (`select_eq_ok`). Asking a
  session for its projects changes nothing and sends nothing (`projects_runs`).
-/

namespace HostSuite

namespace Project

theorem name_inDir (root : Path) {name : String} (hn : Path.IsPlain name) (b : String) :
    (inDir (root.join name) b).name = name := by
  unfold inDir
  rw [Path.fileName_join root hn]
  rfl

/-- Projects come from the names in one directory. -/
theorem discover_eq_ok {t : Tree} {base : Place} {root : Path} {descriptor b : String}
    {denylist : List String} {ps : List Project}
    (hd : discover t base root descriptor b denylist = .ok ps) :
    ∃ (place : Place) (names : List String), names.Sublist (t.namesIn place) ∧
      ps = names.map fun name => inDir (root.join name) b := by
  unfold discover at hd
  split at hd
  · cases hd
  · rename_i names hl
    unfold Tree.list at hl
    split at hl
    · cases hl
    · rename_i place mode hf
      split at hl
      · rw [← Except.ok.inj hd, ← Except.ok.inj hl]
        exact ⟨place, _, List.filter_sublist, rfl⟩
      · cases hl
    · cases hl

theorem select_eq_ok {found ps : List Project} {selected : List String}
    (hs : select found selected = .ok ps) : ps.Sublist found := by
  unfold select at hs
  split at hs
  · exact Except.ok.inj hs ▸ List.Sublist.refl found
  · split at hs
    · rw [← Except.ok.inj hs]
      exact List.filter_sublist
    · cases hs

end Project

namespace Suite.Session

theorem remark_runs (h : Host) (m : Machine) (s : Session) (text : String) :
    ∃ m', Runs h (s.remark text) m () m' [] [] [] := by
  unfold remark
  by_cases hv : s.verbose
  · rw [if_pos hv]
    exact Action.say_runs h m .err _
  · rw [if_neg hv]
    exact ⟨m, Runs.pure h m ()⟩

/-- The projects of a session are the selected ones of those that are discovered. -/
theorem projects_runs (h : Host) (m : Machine) (s : Session) (selected : List String) :
    ∃ m', Runs h (s.projects h selected).run m
      (match s.discovered m.tree h.workingDir with
        | .error f => .error f
        | .ok found => Project.select found selected) m' [] [] [] := by
  have hget : Runs h (liftM (MonadState.get : Action Machine) : Attempt Fault Machine).run m (.ok m)
      m [] [] [] := (Runs.get h m).lift
  cases hd : s.discovered m.tree h.workingDir with
  | error f =>
    refine ⟨m, hget.bind_ok ?_⟩
    rw [hd]
    exact Runs.throw h m f
  | ok found =>
    obtain ⟨m₁, hm₁⟩ := remark_runs h m s
      ("Discovered " ++ toString found.length ++ " project(s) in " ++ s.root.text)
    refine ⟨m₁, hget.bind_ok ?_⟩
    rw [hd]
    exact hm₁.lift.bind_ok (Runs.pure h m₁ _)

end Suite.Session

end HostSuite
