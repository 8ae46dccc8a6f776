import HostSuite.Proofs.Project.BuildDir
import HostSuite.Proofs.Suite.Phase
import HostSuite.Proofs.Suite.ProjectRun

/-
  Testing in its two modes. A trial is the run of one project, with the machine it found and the
  machine it left; a series of trials hands the machine on, and where the phase keeps going the
  fault of a failed trial is shown in between (`Series`). Keeping going makes a trial of every
  project (`testAll_keepGoing`). Failing fast makes the same trials up to the first one that fails
  (`testAll_failFast`), because nothing is shown after a trial that passed. `testPhase_modes`
  compares the whole phase in both modes from one machine.
-/

namespace HostSuite.Suite

open HostSuite.Action

/-- The run of one project. -/
structure Trial where
  project : Project
  before : Machine
  result : ProjectResult
  after : Machine

namespace Trial

def passed (u : Trial) : Bool := u.result.passed

/-- What the phase itself puts on the error output after a trial. -/
def shown (h : Host) (keepGoing : Bool) (u : Trial) : List Event :=
  if keepGoing then u.result.fault?.toList.map fun f => .printed .err (f.display h.style) else []

/-- The machine that the next trial finds. -/
def left (h : Host) (keepGoing : Bool) (u : Trial) : Machine :=
  { u.after with log := u.after.log ++ u.shown h keepGoing }

end Trial

/-- Trials one after the other, each on the machine that the one before left, and the machine after
the last one. -/
inductive Series (h : Host) (tools : ToolSettings) (clean keepGoing : Bool) :
    Machine → List Trial → Machine → Prop
  | nil (m : Machine) : Series h tools clean keepGoing m [] m
  | cons {m m' : Machine} {u : Trial} {us : List Trial} (hb : u.before = m)
      (hu : runProject h tools clean u.project m = (u.result, u.after))
      (hus : Series h tools clean keepGoing (u.left h keepGoing) us m') :
      Series h tools clean keepGoing m (u :: us) m'

/-- The names of the projects that failed, in order. -/
def failedProjects (us : List Trial) : List String :=
  (us.filter fun u => !u.passed).map (·.project.name)

/-! ## One trial -/

section

variable {h : Host} {tools : ToolSettings} {clean keepGoing : Bool} {m m' : Machine} {u : Trial}
  {us : List Trial}

theorem ProjectResult.passed_eq_true_iff {r : ProjectResult} :
    r.passed = true ↔ r.failure? = none := by
  unfold ProjectResult.passed ProjectResult.failure?
  cases r.outcome <;> simp [Except.isOk, Except.toBool]

/-- Nothing is shown after a trial that passed. -/
theorem Trial.left_of_passed (hp : u.passed = true) : u.left h keepGoing = u.after := by
  have hnone : u.result.fault? = none := by
    unfold ProjectResult.fault?
    rw [ProjectResult.passed_eq_true_iff.mp hp]
    rfl
  unfold Trial.left Trial.shown
  rw [hnone]
  cases keepGoing <;> simp

/-- Nothing is shown where the first failure ends the phase. -/
theorem Trial.left_false : u.left h false = u.after := by
  simp [Trial.left, Trial.shown]

/-- A trial bears the name of its project, its failure is a fault, and it only adds to the log. -/
theorem runProject_inv {p : Project} {r : ProjectResult}
    (hu : runProject h tools clean p m = (r, m')) :
    r.name = p.name ∧ (∀ f, r.failure? = some f → ∃ fault, f = .fault fault) ∧
      m.log <+: m'.log := by
  obtain ⟨m₁, d, o, xs, cs, ts, hm₁⟩ := runProject_runs h tools p m clean
  obtain ⟨rfl, rfl⟩ := Prod.mk.inj (hm₁.1.symm.trans hu)
  refine ⟨rfl, ?_, hm₁.log_prefix⟩
  intro f hf
  cases o with
  | ok b => cases hf
  | error e => exact ⟨e, (Option.some.inj hf).symm⟩

theorem Series.log_prefix (hs : Series h tools clean keepGoing m us m') : m.log <+: m'.log := by
  induction hs with
  | nil m => exact List.prefix_refl _
  | cons hb hu hus ih =>
    exact (runProject_inv hu).2.2.trans ((List.prefix_append _ _).trans ih)

/-- The results of a series bear the names of its projects. -/
theorem Series.names (hs : Series h tools clean keepGoing m us m') :
    RunSummary.failedNames ⟨us.map Trial.result⟩ = failedProjects us := by
  unfold RunSummary.failedNames failedProjects
  induction hs with
  | nil m => rfl
  | @cons m m' u us hb hu hus ih =>
    cases hp : u.result.passed <;> simp_all [Trial.passed, (runProject_inv hu).1]

/-! ## All projects -/

variable {ps : List Project} {done : RunSummary}

/-- In both modes the next project follows after one that passed. -/
theorem testAll_cons_passed (hu : runProject h tools clean u.project m = (u.result, u.after))
    (hp : u.passed = true) :
    (testAll h tools clean keepGoing (u.project :: ps) done).run m =
      (testAll h tools clean keepGoing ps (done.add u.result)).run u.after := by
  rw [testAll, Attempt.run_bind_ok (Attempt.run_lift hu), ProjectResult.passed_eq_true_iff.mp hp]

/-- After one that failed, failing fast ends with its failure. -/
theorem testAll_cons_failed {f : Failure}
    (hu : runProject h tools clean u.project m = (u.result, u.after))
    (hf : u.result.failure? = some f) :
    (testAll h tools clean false (u.project :: ps) done).run m = (.error f, u.after) := by
  rw [testAll, Attempt.run_bind_ok (Attempt.run_lift hu), hf]
  rfl

/-- After one that failed, keeping going shows its fault first. -/
theorem testAll_cons_kept {fault : Fault}
    (hu : runProject h tools clean u.project m = (u.result, u.after))
    (hf : u.result.failure? = some (.fault fault)) :
    (testAll h tools clean true (u.project :: ps) done).run m =
      (testAll h tools clean true ps (done.add u.result)).run (u.left h true) := by
  have hleft : say .err (fault.display h.style) u.after = ((), u.left h true) := by
    unfold Trial.left Trial.shown ProjectResult.fault?
    rw [hf]
    rfl
  rw [testAll, Attempt.run_bind_ok (Attempt.run_lift hu), hf]
  exact Attempt.run_bind_ok (Attempt.run_lift hleft)

/-- Keeping going makes a trial of every project, in order. -/
theorem testAll_keepGoing (h : Host) (tools : ToolSettings) (clean : Bool) (m : Machine)
    (ps : List Project) (done : RunSummary) :
    ∃ us m', us.map Trial.project = ps ∧ Series h tools clean true m us m' ∧
      (testAll h tools clean true ps done).run m =
        (.ok ⟨done.results ++ us.map Trial.result⟩, m') := by
  induction ps generalizing m done with
  | nil => exact ⟨[], m, rfl, .nil m, by rw [List.map_nil, List.append_nil]; rfl⟩
  | cons p ps ih =>
    obtain ⟨u, rfl, hb, hu⟩ : ∃ u : Trial, u.project = p ∧ u.before = m ∧
        runProject h tools clean u.project m = (u.result, u.after) :=
      ⟨⟨p, m, _, _⟩, rfl, rfl, (Prod.eta (runProject h tools clean p m)).symm⟩
    obtain ⟨us, m', hps, hus, hrun⟩ := ih (u.left h true) (done.add u.result)
    refine ⟨u :: us, m', congrArg (u.project :: ·) hps, .cons hb hu hus, ?_⟩
    have hresults : (done.add u.result).results ++ us.map Trial.result =
        done.results ++ (u :: us).map Trial.result := by
      simp [RunSummary.add]
    rw [← hresults, ← hrun]
    cases hf : u.result.failure? with
    | none =>
      have hp : u.passed = true := ProjectResult.passed_eq_true_iff.mpr hf
      rw [Trial.left_of_passed hp]
      exact testAll_cons_passed hu hp
    | some f =>
      obtain ⟨fault, rfl⟩ := (runProject_inv hu).2.1 f hf
      exact testAll_cons_kept hu hf

/-- Failing fast goes through trials that pass as keeping going does. -/
theorem Series.through_passed {front rest : List Trial}
    (hs : Series h tools clean true m (front ++ rest) m') (hp : ∀ u ∈ front, u.passed = true)
    (ps : List Project) (done : RunSummary) :
    ∃ m₁, Series h tools clean false m front m₁ ∧ Series h tools clean true m₁ rest m' ∧
      (testAll h tools clean false (front.map Trial.project ++ ps) done).run m =
        (testAll h tools clean false ps ⟨done.results ++ front.map Trial.result⟩).run m₁ := by
  induction front generalizing m done with
  | nil => exact ⟨m, .nil m, hs, by rw [List.map_nil, List.map_nil, List.append_nil]; rfl⟩
  | cons u front ih =>
    cases hs with
    | cons hb hu hus =>
      have hpu := hp u List.mem_cons_self
      rw [Trial.left_of_passed hpu] at hus
      obtain ⟨m₁, hfront, hrest, hrun⟩ :=
        ih hus (fun v hv => hp v (List.mem_cons_of_mem u hv)) (done.add u.result)
      refine ⟨m₁, .cons hb hu (Trial.left_of_passed (h := h) hpu ▸ hfront), hrest, ?_⟩
      rw [List.map_cons, List.cons_append, testAll_cons_passed hu hpu, hrun]
      simp [RunSummary.add]

/-- A series can be cut short after any trial where nothing is shown in between. -/
theorem Series.snoc {m₁ : Machine} (hs : Series h tools clean false m us m₁)
    (hb : u.before = m₁) (hu : runProject h tools clean u.project m₁ = (u.result, u.after)) :
    Series h tools clean false m (us ++ [u]) u.after := by
  induction hs with
  | nil m =>
    refine .cons hb hu ?_
    rw [Trial.left_false]
    exact .nil u.after
  | cons hb' hu' _ ih => exact .cons hb' hu' (ih hb hu)

end

/-! ## The first failure -/

/-- Either all trials passed, or one is the first that did not. -/
theorem allPassed_or_first (us : List Trial) :
    (∀ u ∈ us, u.passed = true) ∨ ∃ front u rest, us = front ++ u :: rest ∧
      (∀ v ∈ front, v.passed = true) ∧ u.passed = false := by
  cases hf : us.find? (fun u => !u.passed) with
  | none => exact .inl fun u hu => by simpa using List.find?_eq_none.mp hf u hu
  | some u =>
    obtain ⟨hu, front, rest, rfl, hfront⟩ := List.find?_eq_some_iff_append.mp hf
    exact .inr ⟨front, u, rest, rfl, fun v hv => by simpa using hfront v hv, by simpa using hu⟩

theorem failedProjects_eq_nil_iff {us : List Trial} :
    failedProjects us = [] ↔ ∀ u ∈ us, u.passed = true := by
  simp [failedProjects, List.filter_eq_nil_iff]

/-- The first that failed is the first of those that failed. -/
theorem head?_failedProjects {front rest : List Trial} {u : Trial}
    (hfront : ∀ v ∈ front, v.passed = true) (hu : u.passed = false) :
    (failedProjects (front ++ u :: rest)).head? = some u.project.name := by
  unfold failedProjects
  rw [List.filter_append, List.filter_eq_nil_iff.mpr (by simpa using hfront), List.nil_append,
    List.filter_cons_of_pos (by rw [hu]; rfl)]
  rfl

theorem Trial.failure?_of_not_passed {u : Trial} (hu : u.passed = false) :
    ∃ f, u.result.failure? = some f := by
  cases hf : u.result.failure? with
  | none => rw [Trial.passed, ProjectResult.passed_eq_true_iff.mpr hf] at hu; cases hu
  | some f => exact ⟨f, rfl⟩

/-- Failing fast makes the trials of keeping going, up to the first one that fails. -/
theorem testAll_failFast {h : Host} {tools : ToolSettings} {clean : Bool} {m m' : Machine}
    {us : List Trial} (hs : Series h tools clean true m us m') (done : RunSummary) :
    ((∀ u ∈ us, u.passed = true) ∧ Series h tools clean false m us m' ∧
        (testAll h tools clean false (us.map Trial.project) done).run m =
          (.ok ⟨done.results ++ us.map Trial.result⟩, m')) ∨
      ∃ front u rest f, us = front ++ u :: rest ∧ (∀ v ∈ front, v.passed = true) ∧
        u.passed = false ∧ u.result.failure? = some f ∧
        Series h tools clean false m (front ++ [u]) u.after ∧ u.after.log <+: m'.log ∧
        (testAll h tools clean false (us.map Trial.project) done).run m = (.error f, u.after) := by
  obtain hall | ⟨front, u, rest, rfl, hfront, hu⟩ := allPassed_or_first us
  · rw [← List.append_nil us] at hs
    obtain ⟨m₁, hus, hnil, hrun⟩ := hs.through_passed hall [] done
    cases hnil
    rw [List.append_nil] at hrun
    exact .inl ⟨hall, hus, hrun⟩
  · obtain ⟨m₁, hbefore, hafter, hrun⟩ :=
      hs.through_passed hfront ((u :: rest).map Trial.project) done
    obtain ⟨f, hf⟩ := Trial.failure?_of_not_passed hu
    cases hafter with
    | cons hb hru hrest =>
      refine .inr ⟨front, u, rest, f, rfl, hfront, hu, hf, hbefore.snoc hb hru,
        (List.prefix_append _ _).trans hrest.log_prefix, ?_⟩
      rw [List.map_append, hrun]
      exact testAll_cons_failed hru hf

/-- Between the trials the fault of each failed one is shown. -/
theorem Series.shown {h : Host} {tools : ToolSettings} {clean : Bool} {m m' : Machine}
    {us : List Trial} (hs : Series h tools clean true m us m') :
    ∀ u ∈ us, u.passed = false → ∃ fault, u.result.failure? = some (.fault fault) ∧
      (u.left h true).log = u.after.log ++ [.printed .err (fault.display h.style)] := by
  induction hs with
  | nil m => simp
  | @cons m m' u us hb hu hus ih =>
    intro v hv hfailed
    obtain rfl | hv := List.mem_cons.mp hv
    · obtain ⟨f, hf⟩ := Trial.failure?_of_not_passed hfailed
      obtain ⟨fault, rfl⟩ := (runProject_inv hu).2.1 f hf
      refine ⟨fault, hf, ?_⟩
      unfold Trial.left Trial.shown ProjectResult.fault?
      rw [hf]
      rfl
    · exact ih v hv hfailed

/-! ## The phase -/

/-- What follows the last project only prints; the result is in the summary. -/
theorem closeTests_runs (h : Host) (m : Machine) (keepGoing : Bool) (summary : RunSummary) :
    ∃ m' ts, Runs h (closeTests h keepGoing summary).run m
      (if summary.allPassed then .ok ()
        else .error (.fault (.projectsFailed summary.failedNames summary.results.length)))
      m' [] [] ts := by
  have hend (m₁ : Machine) : ∃ m' ts, Runs h (do
      if summary.allPassed then
        liftM (sayLine "")
        liftM (notify h .success (toString summary.passedCount ++ " project(s) built and passed"))
      else throw (.fault (.projectsFailed summary.failedNames summary.results.length)) :
        Attempt Failure Unit).run m₁
      (if summary.allPassed then .ok ()
        else .error (.fault (.projectsFailed summary.failedNames summary.results.length)))
      m' [] [] ts := by
    by_cases hp : summary.allPassed
    · obtain ⟨m₂, hm₂⟩ := sayLine_runs h m₁ ""
      obtain ⟨m₃, hm₃⟩ := say_runs h m₂ Notice.success.stream (Notice.success.line h.style
        (toString summary.passedCount ++ " project(s) built and passed"))
      rw [if_pos hp, if_pos hp]
      exact ⟨m₃, _, hm₂.lift.bind_ok hm₃.lift⟩
    · rw [if_neg hp, if_neg hp]
      exact ⟨m₁, _, Runs.throw h m₁ _⟩
  unfold closeTests
  cases keepGoing with
  | false => exact hend m
  | true =>
    obtain ⟨m₁, hm₁⟩ := say_runs h m .out (summary.table h.style)
    obtain ⟨m₂, ts, hm₂⟩ := hend m₁
    exact ⟨m₂, _, hm₁.lift.bind_ok hm₂⟩

/-- Once the tool is found and projects are chosen, the phase is trials and their close, on a
machine that depends on no mode. -/
theorem testPhase_opens {h : Host} {m : Machine} {s : Session} {selected : List String}
    {tool : Tool} {ps : List Project}
    (htool : Tool.require h m.tree s.config.tools.idf "building host tests" = .ok tool)
    (hps : s.chosen (treeAfter m.tree (versionProbe h m s s.config.tools.idf)) h.workingDir
      selected = .ok ps)
    (hne : ps ≠ []) :
    ∃ m₁, m₁.tree = treeAfter m.tree (versionProbe h m s s.config.tools.idf) ∧
      m₁.commands = m.commands ++ (versionProbe h m s s.config.tools.idf).map Exchange.command ∧
      ∀ o, (testPhase h s selected o).run m =
        (do
          let summary ← testAll h s.config.tools (o.clean || asksForCleanBuild h.cleanBuild)
            o.keepGoing ps {}
          closeTests h o.keepGoing summary).run m₁ := by
  have hm := requireTool_runs h m s.config.tools.idf "building host tests"
  rw [htool] at hm
  obtain ⟨m₁, hm₁⟩ := tellVersion_runs h m s tool
  rw [Tool.name_of_find? (Tool.require_eq_ok_iff.mp htool)] at hm₁
  obtain ⟨m₂, hm₂⟩ := chosen_runs h m₁ s selected
  rw [hm₁.tree, hps] at hm₂
  refine ⟨m₂, hm₂.tree.trans hm₁.tree, ?_, ?_⟩
  · rw [hm₂.commands, hm₁.commands, List.map_nil, List.append_nil]
  · intro o
    unfold testPhase
    rw [Attempt.run_bind_ok hm.1, Attempt.run_bind_ok (Attempt.run_lift hm₁.1),
      Attempt.run_bind_ok hm₂.1, if_neg (by simpa using hne)]

/-- How failing fast came out, next to the trials of keeping going: it made them all, or it made
them up to the first that failed and ended with that failure on the machine of that trial. -/
inductive FailsFast (us : List Trial) : List Trial → Except Failure Unit × Machine → Prop
  | allPassed {m : Machine} (hp : ∀ u ∈ us, u.passed = true) : FailsFast us us (.ok (), m)
  | aborted {front rest : List Trial} {u : Trial} {f : Failure} (hus : us = front ++ u :: rest)
      (hp : ∀ v ∈ front, v.passed = true) (hf : u.result.failure? = some f)
      (hfirst : (failedProjects us).head? = some u.project.name) :
      FailsFast us (front ++ [u]) (.error f, u.after)

/-- Testing the projects `ps` from one machine in both modes: `us` are the trials of keeping going,
`tried` those of failing fast. -/
structure TwoModes (h : Host) (tools : ToolSettings) (clean : Bool) (m : Machine)
    (ps : List Project) (us tried : List Trial) (fast slow : Except Failure Unit × Machine) :
    Prop where
  every : us.map Trial.project = ps
  kept : ∃ m', Series h tools clean true m us m' ∧ m'.log <+: slow.2.log ∧
    slow.2.commands = m'.commands
  shown : ∀ u ∈ us, u.passed = false → ∃ fault, u.result.failure? = some (.fault fault) ∧
    (u.left h true).log = u.after.log ++ [.printed .err (fault.display h.style)]
  verdict : slow.1 = if failedProjects us = [] then .ok ()
    else .error (.fault (.projectsFailed (failedProjects us) ps.length))
  begun : ∃ m', Series h tools clean false m tried m' ∧ m'.log <+: fast.2.log ∧
    fast.2.commands = m'.commands
  stopped : FailsFast us tried fast
  agree : (fast.1 = .ok () ↔ ∀ u ∈ us, u.passed = true) ∧
    (slow.1 = .ok () ↔ ∀ u ∈ us, u.passed = true)
  commands : fast.2.commands <+: slow.2.commands

theorem RunSummary.allPassed_eq_true_iff {us : List Trial} :
    RunSummary.allPassed ⟨us.map Trial.result⟩ = true ↔ ∀ u ∈ us, u.passed = true := by
  simp [RunSummary.allPassed, Trial.passed]

/-- After trials of all projects the result is in their outcomes. -/
theorem closeTests_series_runs {h : Host} {tools : ToolSettings} {clean keepGoing : Bool}
    {m m₁ : Machine} {us : List Trial} (hs : Series h tools clean keepGoing m us m₁)
    (m' : Machine) :
    ∃ m'' ts, Runs h (closeTests h keepGoing ⟨us.map Trial.result⟩).run m'
      (if failedProjects us = [] then .ok ()
        else .error (.fault (.projectsFailed (failedProjects us) (us.map Trial.project).length)))
      m'' [] [] ts := by
  have := closeTests_runs h m' keepGoing ⟨us.map Trial.result⟩
  simpa only [RunSummary.allPassed_eq_true_iff, ← failedProjects_eq_nil_iff, hs.names,
    List.length_map] using this

/-- From one machine both modes make the same trials as long as all pass. -/
theorem testAll_modes (h : Host) (tools : ToolSettings) (clean : Bool) (m : Machine)
    (ps : List Project) :
    ∃ us tried, TwoModes h tools clean m ps us tried
      ((testAll h tools clean false ps {} >>= closeTests h false).run m)
      ((testAll h tools clean true ps {} >>= closeTests h true).run m) := by
  obtain ⟨us, m₁, rfl, hus, hslow⟩ := testAll_keepGoing h tools clean m ps {}
  obtain ⟨m₂, ts, hclose⟩ := closeTests_series_runs hus m₁
  have hcommands : m₂.commands = m₁.commands := by simpa using hclose.commands
  have hok : (if failedProjects us = [] then Except.ok ()
      else .error (Failure.fault (.projectsFailed (failedProjects us)
        (us.map Trial.project).length))) = .ok () ↔ ∀ u ∈ us, u.passed = true := by
    rw [← failedProjects_eq_nil_iff]
    split <;> simp_all
  rw [Attempt.run_bind_ok hslow, List.nil_append, hclose.1]
  obtain ⟨hall, hfront, hfast⟩ | ⟨front, u, rest, f, rfl, hp, hu, hf, hfront, hlog, hfast⟩ :=
    testAll_failFast hus {}
  · obtain ⟨m₃, ts', hclose'⟩ := closeTests_series_runs hfront m₁
    have hcommands' : m₃.commands = m₁.commands := by simpa using hclose'.commands
    rw [Attempt.run_bind_ok hfast, List.nil_append, hclose'.1]
    refine ⟨us, us, rfl, ⟨m₁, hus, hclose.log_prefix, hcommands⟩, hus.shown, rfl,
      ⟨m₁, hfront, hclose'.log_prefix, hcommands'⟩, ?_, ⟨hok, hok⟩, ?_⟩
    · rw [hok.mpr hall]
      exact .allPassed hall
    · have hsame : m₃.commands = m₂.commands := hcommands'.trans hcommands.symm
      exact hsame ▸ List.prefix_refl _
  · have hnot : ¬∀ v ∈ front ++ u :: rest, v.passed = true :=
      fun hall => by simp [hall u (by simp)] at hu
    rw [Attempt.run_bind_error hfast]
    refine ⟨_, _, rfl, ⟨m₁, hus, hclose.log_prefix, hcommands⟩, hus.shown, rfl,
      ⟨u.after, hfront, List.prefix_refl _, rfl⟩,
      .aborted rfl hp hf (head?_failedProjects hp hu), ⟨⟨?_, fun hall => absurd hall hnot⟩, hok⟩,
      Machine.commands_prefix (hlog.trans hclose.log_prefix)⟩
    intro he
    cases he

/-- When the tool is found and some projects are chosen, the two modes of testing differ only in
what comes after the first failure; see `TwoModes`. -/
theorem testPhase_modes {h : Host} {m : Machine} {s : Session} {selected : List String}
    {tool : Tool} {ps : List Project} (clean : Bool)
    (htool : Tool.require h m.tree s.config.tools.idf "building host tests" = .ok tool)
    (hps : s.chosen (treeAfter m.tree (versionProbe h m s s.config.tools.idf)) h.workingDir
      selected = .ok ps)
    (hne : ps ≠ []) :
    ∃ m₁ us tried, m₁.tree = treeAfter m.tree (versionProbe h m s s.config.tools.idf) ∧
      m₁.commands = m.commands ++ (versionProbe h m s s.config.tools.idf).map Exchange.command ∧
      TwoModes h s.config.tools (clean || asksForCleanBuild h.cleanBuild) m₁ ps us tried
        ((testPhase h s selected ⟨clean, false⟩).run m)
        ((testPhase h s selected ⟨clean, true⟩).run m) := by
  obtain ⟨m₁, ht, hc, hopens⟩ := testPhase_opens htool hps hne
  obtain ⟨us, tried, hmodes⟩ := testAll_modes h s.config.tools
    (clean || asksForCleanBuild h.cleanBuild) m₁ ps
  refine ⟨m₁, us, tried, ht, hc, ?_⟩
  rw [hopens, hopens]
  exact hmodes

/-- Two projects and the build tool. -/
def suiteWithIdf : Tree :=
  (twoProjects.set ["bin"] (.dir 0o755)).set ["bin", "idf.py"] (.file [] 0o755)

/-- The build tool succeeds and builds nothing. -/
def idleHost : Host where
  runner := fun _ _ t => ⟨.ok ⟨true, 0, "", "", 0, none⟩, t, []⟩
  searchPath := [⟨"/bin"⟩]

theorem testPhase_modes_idle :
    Tool.require idleHost suiteWithIdf "idf.py" "building host tests" =
        .ok ⟨"idf.py", ⟨"/bin/idf.py"⟩⟩ ∧
      ∃ m₁ us tried fast slow, TwoModes idleHost {} false m₁
          [Project.named [] "build" "a", Project.named [] "build" "b"] us tried fast slow ∧
        fast.1 = .error (.fault (.executableNotFound "a" ⟨"/a/build"⟩)) ∧
        slow.1 = .error (.fault (.projectsFailed ["a", "b"] 2)) := by
  have htool : Tool.require idleHost suiteWithIdf "idf.py" "building host tests" =
      .ok ⟨"idf.py", ⟨"/bin/idf.py"⟩⟩ := Except.eq_ok_of_toOption (by decide +kernel)
  have hps : Session.chosen ⟨Path.ofPlace [], {}, false⟩ suiteWithIdf idleHost.workingDir [] =
      .ok [Project.named [] "build" "a", Project.named [] "build" "b"] :=
    Except.eq_ok_of_toOption (by decide +kernel)
  obtain ⟨m₁, us, tried, -, -, hmodes⟩ :=
    testPhase_modes (h := idleHost) (m := ⟨suiteWithIdf, [], 0⟩)
      (s := ⟨Path.ofPlace [], {}, false⟩) false htool hps (by simp)
  exact ⟨htool, m₁, us, tried, _, _, hmodes, by decide +kernel, by decide +kernel⟩

end HostSuite.Suite
