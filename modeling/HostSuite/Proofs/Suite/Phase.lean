import HostSuite.Suite.CoveragePhase
import HostSuite.Proofs.Project.Version
import HostSuite.Proofs.Suite.Session

/-
  How a phase begins. What it needs is looked up without a trace: a tool (`requireTool_runs`), or
  for coverage a threshold and two tools (`coverageNeeds`). Then a verbose session asks the tool for
  its version (`tellVersion_runs`), and the projects are chosen on the tree that this leaves
  (`Session.chosen`).
-/

namespace HostSuite.Suite

open HostSuite.Action

/-- The projects that a session gives on a tree. -/
def Session.chosen (s : Session) (t : Tree) (base : Place) (selected : List String) :
    Except Fault (List Project) :=
  match s.discovered t base with
  | .error f => .error f
  | .ok found => Project.select found selected

/-- The command that asks a tool for its version. -/
def versionCommand (s : Session) (name : String) : Command :=
  (Command.new name s.root).arg "--version"

/-- What is sent when a tool may be asked for its version. -/
def versionProbe (h : Host) (m : Machine) (s : Session) (name : String) : List Exchange :=
  if s.verbose then [m.exchange h (versionCommand s name)] else []

section

variable {α : Type} {h : Host} {m m' : Machine} {xs : List Exchange} {cs : List Change}
  {ts : List String}

theorem failing_runs {x : Attempt Fault α} {r : Except Fault α}
    (hx : Runs h x.run m r m' xs cs ts) :
    Runs h (failing x).run m (r.mapError Failure.fault) m' xs cs ts :=
  hx.bind_silent (Runs.pure h m' _)

theorem check_runs (h : Host) (m : Machine) {x r : Except Fault α} (hx : x = r) :
    Runs h (failing (ExceptT.mk (pure x))).run m (r.mapError Failure.fault) m [] [] [] :=
  hx ▸ failing_runs (Runs.pure h m x)

end

variable (h : Host) (m : Machine) (s : Session)

theorem requireTool_runs (name requiredFor : String) :
    Runs h (requireTool h name requiredFor).run m
      ((Tool.require h m.tree name requiredFor).mapError Failure.fault) m [] [] [] :=
  failing_runs ((Runs.get h m).lift.bind_ok (Runs.pure h m _))

/-- Whatever a tool answers about its version, the phase goes on. -/
theorem tellVersion_runs (tool : Tool) :
    ∃ m', Runs h (tellVersion h s tool) m () m' (versionProbe h m s tool.name) [] [] := by
  unfold tellVersion versionProbe
  by_cases hv : s.verbose
  · rw [if_pos hv, if_pos hv]
    obtain ⟨m₁, hm₁⟩ := Tool.version?_runs h m tool.name s.root
    generalize Option.bind _ _ = v at hm₁
    cases v with
    | none => exact ⟨m₁, hm₁.bind_silent (Runs.pure h m₁ ())⟩
    | some version =>
      obtain ⟨m₂, hm₂⟩ := Session.remark_runs h m₁ s
        ("Using " ++ tool.name ++ " at " ++ tool.path.text ++ " (" ++ version ++ ")")
      exact ⟨m₂, hm₁.bind_silent hm₂⟩
  · rw [if_neg hv, if_neg hv]
    exact ⟨m, Runs.pure h m ()⟩

/-- Choosing the projects sends and changes nothing. -/
theorem chosen_runs (selected : List String) :
    ∃ m', Runs h (failing (s.projects h selected)).run m
      ((s.chosen m.tree h.workingDir selected).mapError Failure.fault) m' [] [] [] := by
  obtain ⟨m₁, hm₁⟩ := s.projects_runs h m selected
  exact ⟨m₁, failing_runs hm₁⟩

end HostSuite.Suite

namespace HostSuite

/-! ## What is needed -/

theorem Except.bind_eq_error_iff {ε α β : Type} {x : Except ε α} {f : α → Except ε β} {e : ε} :
    x >>= f = .error e ↔ x = .error e ∨ ∃ a, x = .ok a ∧ f a = .error e := by
  cases x <;> simp [bind, Except.bind]

theorem Except.bind_eq_ok_iff {ε α β : Type} {x : Except ε α} {f : α → Except ε β} {b : β} :
    x >>= f = .ok b ↔ ∃ a, x = .ok a ∧ f a = .ok b := by
  cases x <;> simp [bind, Except.bind]

theorem Except.mapError_eq_ok_iff {ε δ α : Type} {x : Except ε α} {f : ε → δ} {a : α} :
    x.mapError f = .ok a ↔ x = .ok a := by
  cases x with
  | error e => exact ⟨nofun, nofun⟩
  | ok b =>
    change Except.ok b = .ok a ↔ Except.ok b = .ok a
    simp only [Except.ok.injEq]

namespace Tool

variable {h : Host} {t : Tree} {name requiredFor : String} {tool : Tool} {f : Fault}

theorem name_of_find? (hf : find? h t name = some tool) : tool.name = name := by
  unfold find? at hf
  obtain ⟨p, -, rfl⟩ := Option.map_eq_some_iff.mp hf
  rfl

theorem require_eq_ok_iff :
    require h t name requiredFor = .ok tool ↔ find? h t name = some tool := by
  unfold require
  cases find? h t name <;> simp

theorem require_eq_error_iff : require h t name requiredFor = .error f ↔
    find? h t name = none ∧ f = .missingTool name requiredFor (hintFor name) := by
  unfold require
  cases find? h t name <;> simp [eq_comm]

end Tool

/-- A number from 0 to 100. -/
def Number.Binary64.IsPercent (x : Number.Binary64) : Prop :=
  ∃ u, x.units? = some u ∧ 0 ≤ u ∧ u ≤ 100 * (Number.unitsPerOne : Int)

theorem Config.isPercentage_iff {x : Number.Binary64} :
    Config.isPercentage x = true ↔ x.IsPercent := by
  have hzero : Number.Binary64.ofNat 0 = .finite false 0 := by decide +kernel
  have hfull : Number.Binary64.ofNat 100 = .finite false (100 * Number.unitsPerOne) := by
    decide +kernel
  unfold Config.isPercentage Number.Binary64.IsPercent
  rw [hzero, hfull]
  generalize Number.unitsPerOne = one
  cases x with
  | nan s => simp [Number.Binary64.le, Number.Binary64.units?]
  | infinite s => cases s <;> simp [Number.Binary64.le, Number.Binary64.units?]
  | finite s u => cases s <;> simp [Number.Binary64.le, Number.Binary64.units?]

namespace Suite

/-- What the coverage phase looks for first: the first need that is not met, or the tool that
captures. -/
def coverageNeeds (h : Host) (t : Tree) (c : Config) (o : CoverageOptions) : Except Fault Tool := do
  checkGiven (effectiveThreshold c o)
  let lcov ← Tool.require h t c.tools.lcov "coverage capture"
  let _ ← Tool.require h t c.tools.genhtml "HTML report generation"
  return lcov

/-- A need of the coverage phase that is not met, with its fault. -/
inductive UnmetCoverage (h : Host) (t : Tree) (c : Config) (o : CoverageOptions) : Fault → Prop
  | threshold {x : Number.Binary64} (hx : effectiveThreshold c o = some x) (hp : ¬x.IsPercent) :
      UnmetCoverage h t c o (RuleFault.notPercentage x).toFault
  | lcov (hf : Tool.find? h t c.tools.lcov = none) :
      UnmetCoverage h t c o
        (.missingTool c.tools.lcov "coverage capture" (Tool.hintFor c.tools.lcov))
  | genhtml (hf : Tool.find? h t c.tools.genhtml = none) :
      UnmetCoverage h t c o
        (.missingTool c.tools.genhtml "HTML report generation" (Tool.hintFor c.tools.genhtml))

section

variable {h : Host} {t : Tree} {c : Config} {o : CoverageOptions} {x : Option Number.Binary64}
  {lcov : Tool} {f : Fault}

theorem checkGiven_eq_ok_iff : checkGiven x = .ok () ↔ ∀ y ∈ x, y.IsPercent := by
  cases x with
  | none => simp [checkGiven]
  | some y =>
    unfold checkGiven Config.checkThreshold
    simp only [Option.mem_some_iff, forall_eq', ← Config.isPercentage_iff,
      Except.mapError_eq_ok_iff]
    cases Config.isPercentage y <;> simp

theorem checkGiven_eq_error (hx : checkGiven x = .error f) :
    ∃ y, x = some y ∧ ¬y.IsPercent ∧ f = (RuleFault.notPercentage y).toFault := by
  cases x with
  | none => cases hx
  | some y =>
    unfold checkGiven Config.checkThreshold at hx
    dsimp only at hx
    by_cases hy : Config.isPercentage y
    · rw [if_pos hy] at hx
      cases hx
    · rw [if_neg hy] at hx
      exact ⟨y, rfl, fun hp => hy (Config.isPercentage_iff.mpr hp), (Except.error.inj hx).symm⟩

theorem coverageNeeds_eq_ok_iff : coverageNeeds h t c o = .ok lcov ↔
    (∀ x ∈ effectiveThreshold c o, x.IsPercent) ∧ Tool.find? h t c.tools.lcov = some lcov ∧
      (Tool.find? h t c.tools.genhtml).isSome = true := by
  simp only [coverageNeeds, Except.bind_eq_ok_iff, Tool.require_eq_ok_iff, ← checkGiven_eq_ok_iff,
    Option.isSome_iff_exists]
  constructor
  · rintro ⟨⟨⟩, hgiven, found, hl, g, hg, hp⟩
    obtain rfl := Except.ok.inj hp
    exact ⟨hgiven, hl, g, hg⟩
  · rintro ⟨hgiven, hl, g, hg⟩
    exact ⟨(), hgiven, lcov, hl, g, hg, rfl⟩

/-- The fault is that of a need that is not met. -/
theorem unmet_of_coverageNeeds (hn : coverageNeeds h t c o = .error f) :
    UnmetCoverage h t c o f := by
  obtain hx | ⟨⟨⟩, -, hn⟩ := Except.bind_eq_error_iff.mp hn
  · obtain ⟨y, hy, hp, rfl⟩ := checkGiven_eq_error hx
    exact .threshold hy hp
  · obtain hl | ⟨lcov, -, hn⟩ := Except.bind_eq_error_iff.mp hn
    · obtain ⟨hnone, rfl⟩ := Tool.require_eq_error_iff.mp hl
      exact .lcov hnone
    · obtain hg | ⟨-, -, hp⟩ := Except.bind_eq_error_iff.mp hn
      · obtain ⟨hnone, rfl⟩ := Tool.require_eq_error_iff.mp hg
        exact .genhtml hnone
      · cases hp

/-- With a need that is not met there is a fault. -/
theorem UnmetCoverage.refused (hu : UnmetCoverage h t c o f) :
    ∃ g, coverageNeeds h t c o = .error g := by
  cases hn : coverageNeeds h t c o with
  | error g => exact ⟨g, rfl⟩
  | ok lcov =>
    obtain ⟨hgiven, hl, hg⟩ := coverageNeeds_eq_ok_iff.mp hn
    cases hu with
    | threshold hx hp => exact absurd (hgiven _ hx) hp
    | lcov hf => rw [hf] at hl; cases hl
    | genhtml hf => rw [hf] at hg; cases hg

end

/-- A coverage phase with a need that is not met ends before it does anything. -/
theorem coveragePhase_refused {h : Host} {m : Machine} {s : Session} {selected : List String}
    {o : CoverageOptions} {f : Fault} (hn : coverageNeeds h m.tree s.config o = .error f) :
    Runs h (coveragePhase h s selected o).run m (.error (.fault f)) m [] [] [] := by
  have hlcov := requireTool_runs h m s.config.tools.lcov "coverage capture"
  have hgenhtml := requireTool_runs h m s.config.tools.genhtml "HTML report generation"
  unfold coveragePhase
  obtain hx | ⟨⟨⟩, hx, hn⟩ := Except.bind_eq_error_iff.mp hn
  · exact (check_runs h m hx).bind_error
  · have hgiven := check_runs h m hx
    obtain hl | ⟨lcov, hl, hn⟩ := Except.bind_eq_error_iff.mp hn
    · rw [hl] at hlcov
      exact hgiven.bind_ok hlcov.bind_error
    · rw [hl] at hlcov
      obtain hg | ⟨-, -, hp⟩ := Except.bind_eq_error_iff.mp hn
      · rw [hg] at hgenhtml
        exact hgiven.bind_ok (hlcov.bind_ok hgenhtml.bind_error)
      · cases hp

end Suite

end HostSuite
