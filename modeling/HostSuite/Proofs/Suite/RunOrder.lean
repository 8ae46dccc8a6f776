import HostSuite.Proofs.Suite.Discovery
import HostSuite.Proofs.Suite.PhaseActions
import HostSuite.Proofs.Suite.Refusals

/-
  Testing comes before coverage. A run of both is a stretch of testing and a stretch of coverage
  after it. Testing gives a result exactly if each of the chosen projects had its trial and passed
  (`Tested`), and in a trial that passed the build command and the test binary succeeded
  (`Trial.Succeeded`); without that there is no second stretch, and the run fails (`run_in_turn`).
-/

namespace HostSuite.Suite

open HostSuite.Action HostSuite.Machine

/-! ## The commands of a project that passed -/

/-- Wherever the attempt gives a result, its exchanges are as `Q` says. -/
def Sends {α ε : Type} (h : Host) (x : Attempt ε α) (Q : α → List Exchange → Prop) : Prop :=
  ∀ m, ∃ m' r xs cs ts, Runs h x.run m r m' xs cs ts ∧ ∀ a, r = .ok a → Q a xs

section

variable {α β ε : Type} {h : Host}

theorem Sends.andThen {x : Attempt ε α} {f : α → Attempt ε β} {P : α → List Exchange → Prop}
    {Q R : β → List Exchange → Prop} (hx : Sends h x P) (hf : ∀ a, Sends h (f a) Q)
    (hR : ∀ a b xs ys, P a xs → Q b ys → R b (xs ++ ys)) : Sends h (x >>= f) R := by
  intro m
  obtain ⟨m₁, r, xs, cs, ts, hm₁, hP⟩ := hx m
  cases r with
  | error e => exact ⟨m₁, _, _, _, _, hm₁.bind_error, nofun⟩
  | ok a =>
    obtain ⟨m₂, r, ys, cs', ts', hm₂, hQ⟩ := hf a m₁
    exact ⟨m₂, r, _, _, _, hm₁.bind_ok hm₂, fun b hb => hR a b xs ys (hP a rfl) (hQ b hb)⟩

theorem Sends.pure {Q : α → List Exchange → Prop} (a : α) (hQ : Q a []) :
    Sends h (Pure.pure a : Attempt ε α) Q :=
  fun m => ⟨m, _, _, _, _, Runs.ok h m a, fun _ hb => Except.ok.inj hb ▸ hQ⟩

theorem Sends.throw {Q : α → List Exchange → Prop} (e : ε) :
    Sends h (MonadExcept.throw e : Attempt ε α) Q :=
  fun m => ⟨m, _, _, _, _, Runs.throw h m e, nofun⟩

/-- An action in front that sends nothing. -/
theorem Sends.after {a : Action α} {f : α → Attempt ε β} {Q : β → List Exchange → Prop}
    (ha : KeepsTo h (fun _ => False) (fun _ => True) a) (hf : ∀ r, Sends h (f r) Q) :
    Sends h (liftM a >>= f) Q := by
  intro m
  obtain ⟨cs, ts, hm₁⟩ := ha.unsent m
  obtain ⟨m₂, s, ys, cs', ts', hm₂, hQ⟩ := hf (a m).1 (a m).2
  exact ⟨m₂, s, _, _, _, hm₁.lift.bind_ok hm₂, hQ⟩

theorem sends_stage (c : Command) (launchFault : LaunchError → Fault)
    (exitFault : CommandResult → Fault) :
    Sends h (stage h c launchFault exitFault)
      (fun _ xs => ∃ x, xs = [x] ∧ x.command = c ∧ x.succeeded = true) := by
  intro m
  obtain ⟨m', hm⟩ := stage_runs h m c launchFault exitFault
  refine ⟨m', _, _, _, _, hm, fun _ ha => ⟨_, rfl, rfl, ?_⟩⟩
  unfold verdict at ha
  unfold Exchange.succeeded
  split at ha
  · cases ha
  · rename_i r ho
    split at ha
    · rename_i hsuccess
      rw [ho]
      exact hsuccess
    · cases ha

end

/-- The exchanges of a project up to its test binary: at most the target was set, then the project
was built and the binary run, both with success. -/
def BuiltAndTested (tools : ToolSettings) (p : Project) (binary : Path) (xs : List Exchange) :
    Prop :=
  ∃ front x y, xs = front ++ [x, y] ∧ (∀ z ∈ front, z.command = setTargetCommand tools p) ∧
    x.command = buildCommand tools p ∧ x.succeeded = true ∧
    y.command = testCommand p binary ∧ y.succeeded = true

section

variable (h : Host) (tools : ToolSettings) (p : Project)

theorem sends_locate : Sends h (locate h p) (fun _ xs => xs = []) := by
  refine .after .get fun m => ?_
  cases Project.findBinary m.tree h.workingDir p.buildDir with
  | none => exact .throw _
  | some binary => exact .pure binary rfl

theorem sends_buildAndTest : Sends h (buildAndTest h tools p) (BuiltAndTested tools p) := by
  have hbuild : Sends h (build h tools p) (fun _ xs =>
      ∃ x, xs = [x] ∧ x.command = buildCommand tools p ∧ x.succeeded = true) :=
    .after (.say _ _) fun _ => sends_stage _ _ _
  have hexecute (binary : Path) : Sends h (execute h p binary >>= fun _ => pure binary)
      (fun b ys => ∃ y, ys = [y] ∧ y.command = testCommand p b ∧ y.succeeded = true) := by
    have hreturn (u : Unit) : Sends h (pure binary : Attempt Fault Path)
        (fun b ys => b = binary ∧ ys = []) := .pure binary ⟨rfl, rfl⟩
    refine .andThen (.after (.say _ _) fun _ => sends_stage _ _ _) hreturn ?_
    rintro _ b xs ys ⟨y, rfl, hy, hs⟩ ⟨rfl, rfl⟩
    exact ⟨y, rfl, hy, hs⟩
  have hfound : Sends h (locate h p >>= fun binary => execute h p binary >>= fun _ => pure binary)
      (fun b ys => ∃ y, ys = [y] ∧ y.command = testCommand p b ∧ y.succeeded = true) := by
    refine .andThen (sends_locate h p) hexecute ?_
    rintro _ b xs ys rfl hy
    exact hy
  refine .andThen hbuild (fun _ => hfound) ?_
  rintro _ b xs ys ⟨x, rfl, hx, hxs⟩ ⟨y, rfl, hy, hys⟩
  exact ⟨[], x, y, rfl, by simp, hx, hxs, hy, hys⟩

theorem sends_cleanBuild : Sends h (cleanBuild h tools p)
    (fun _ xs => ∀ x ∈ xs, x.command = setTargetCommand tools p) := by
  refine .after (.say _ _) fun _ => .after (keepsTo_removeBuild trivial) fun _ =>
    .after (.say _ _) fun _ m => ?_
  obtain ⟨m', r, xs, cs, ts, hm, hQ⟩ := sends_stage (h := h) (setTargetCommand tools p) _ _ m
  refine ⟨m', r, xs, cs, ts, hm, fun a ha => ?_⟩
  obtain ⟨x, rfl, hx, -⟩ := hQ a ha
  simpa using hx

theorem sends_stages (clean : Bool) :
    Sends h (stages h tools clean p) (BuiltAndTested tools p) := by
  have hrest : Sends h (do
      liftM (dropCounters h p)
      buildAndTest h tools p) (BuiltAndTested tools p) :=
    .after (keepsTo_dropCounters trivial) fun _ => sends_buildAndTest h tools p
  refine .after (.say _ _) fun _ => .after (.say _ _) fun _ => ?_
  cases clean with
  | false => exact hrest
  | true =>
    refine .andThen (sends_cleanBuild h tools p) (fun _ => hrest) ?_
    rintro _ b xs ys hxs ⟨front, x, y, rfl, hfront, hxy⟩
    exact ⟨xs ++ front, x, y, (List.append_assoc ..).symm,
      List.forall_mem_append.mpr ⟨hxs, hfront⟩, hxy⟩

end

/-! ## Trials in a run -/

/-- Between the machines of the trial its project was built and its test binary run, both with
success. -/
def Trial.Succeeded (h : Host) (tools : ToolSettings) (u : Trial) : Prop :=
  ∃ binary es, u.result.outcome = .ok binary ∧ u.after = u.before.after h es ∧
    BuiltAndTested tools u.project binary (exchangesIn h u.before es)

section

variable {h : Host} {tools : ToolSettings} {clean keepGoing : Bool} {m m' : Machine} {u : Trial}
  {us : List Trial}

/-- In a trial that passed both commands succeeded. -/
theorem Trial.succeeded_of_passed
    (hu : runProject h tools clean u.project u.before = (u.result, u.after))
    (hp : u.passed = true) : u.Succeeded h tools := by
  obtain ⟨m', r, xs, cs, ts, hm, hQ⟩ := sends_stages h tools u.project clean u.before
  have hrun : runProject h tools clean u.project u.before =
      (⟨u.project.name, ((stages h tools clean u.project).run u.before).2.clock - u.before.clock,
        ((stages h tools clean u.project).run u.before).1.mapError Failure.fault⟩,
        ((stages h tools clean u.project).run u.before).2) := rfl
  rw [hm.1, hu] at hrun
  obtain ⟨hresult, hafter⟩ := Prod.mk.inj hrun
  obtain ⟨-, es, rfl, rfl, -⟩ := hm
  unfold Trial.passed ProjectResult.passed at hp
  rw [hresult] at hp
  cases r with
  | error f => cases hp
  | ok binary => exact ⟨binary, es, by rw [hresult]; rfl, hafter, hQ binary rfl⟩

/-- Each trial of a series is a run of its project. -/
theorem Series.runs (hs : Series h tools clean keepGoing m us m') :
    ∀ u ∈ us, runProject h tools clean u.project u.before = (u.result, u.after) := by
  induction hs with
  | nil m => simp
  | cons hb hu _ ih => exact List.forall_mem_cons.mpr ⟨hb ▸ hu, ih⟩

/-- What is shown after a trial is an event of the run. -/
theorem Trial.left_eq : u.left h keepGoing = u.after.after h (u.shown h keepGoing) := by
  unfold Trial.left Trial.shown
  cases keepGoing with
  | false => simp [Machine.after]
  | true => cases u.result.fault? <;> simp [Machine.after, Machine.next]

theorem Trial.shown_within {C : Command → Prop} {D : Change → Prop} :
    ∀ e ∈ u.shown h keepGoing, e.Within C D := by
  unfold Trial.shown
  intro e he
  split at he
  · obtain ⟨f, -, rfl⟩ := List.mem_map.mp he
    trivial
  · cases he

/-- The events of a series are those of testing its projects. -/
theorem Series.within {s : Session} {ps : List Project}
    (hs : Series h s.config.tools clean keepGoing m us m') (hps : ∀ u ∈ us, u.project ∈ ps) :
    ∃ es, m' = m.after h es ∧ ∀ e ∈ es, e.Within (TestCommand s ps) (TestChange ps) := by
  induction hs with
  | nil m => exact ⟨[], rfl, by simp⟩
  | @cons m m' u us hb hu _ ih =>
    obtain ⟨hp, hps⟩ := List.forall_mem_cons.mp hps
    obtain ⟨fs, hfs, hf⟩ := ih hps
    obtain ⟨es, hes, he⟩ := keepsTo_runProject (s := s) (h := h) hp clean m
    rw [hu] at hes
    refine ⟨es ++ u.shown h keepGoing ++ fs, ?_, ?_⟩
    · rw [after_append, after_append, ← hes, ← Trial.left_eq, hfs]
    · exact List.forall_mem_append.mpr
        ⟨List.forall_mem_append.mpr ⟨he, Trial.shown_within⟩, hf⟩

end

/-! ## Testing -/

/-- All trials passed and the result is that, or one failed and the result is a failure. -/
inductive Verdict (us : List Trial) : Except Failure Unit → Prop
  | passed (hp : ∀ u ∈ us, u.passed = true) : Verdict us (.ok ())
  | failed {u : Trial} {f : Failure} (hu : u ∈ us) (hf : u.passed = false) : Verdict us (.error f)

/-- Nothing is sent or changed. -/
def OnlyShows (es : List Event) : Prop := ∀ e ∈ es, e.Within (fun _ => False) (fun _ => False)

section

variable {h : Host} {tools : ToolSettings} {clean keepGoing : Bool} {m m₁ : Machine}
  {us : List Trial}

/-- The close of a series gives the verdict on it. -/
theorem closeTests_verdict (hs : Series h tools clean keepGoing m us m₁) (m' : Machine) :
    ∃ r es, (closeTests h keepGoing ⟨us.map Trial.result⟩).run m' = (r, m'.after h es) ∧
      OnlyShows es ∧ Verdict us r := by
  obtain ⟨m'', ts, hm⟩ := closeTests_series_runs hs m'
  obtain ⟨es, rfl, hes⟩ := hm.within (by simp) (by simp)
  refine ⟨_, es, hm.1, hes, ?_⟩
  split
  · rename_i hnone
    exact .passed (failedProjects_eq_nil_iff.mp hnone)
  · rename_i hsome
    rw [failedProjects_eq_nil_iff] at hsome
    push Not at hsome
    obtain ⟨u, hu, hf⟩ := hsome
    exact .failed hu (by simpa using hf)

/-- The trials of some projects and what follows them: in both modes they are trials of the projects
in order, of all of them if they all passed. -/
theorem testAll_verdict (h : Host) (tools : ToolSettings) (clean keepGoing : Bool) (m : Machine)
    (ps : List Project) :
    ∃ us m₁ r es, Series h tools clean keepGoing m us m₁ ∧ us.map Trial.project <+: ps ∧
      (testAll h tools clean keepGoing ps {} >>= closeTests h keepGoing).run m =
        (r, m₁.after h es) ∧ OnlyShows es ∧ Verdict us r ∧
      (r = .ok () → us.map Trial.project = ps) := by
  obtain ⟨us, m₁, rfl, hus, hslow⟩ := testAll_keepGoing h tools clean m ps {}
  cases keepGoing with
  | true =>
    obtain ⟨r, es, hclose, hes, hr⟩ := closeTests_verdict hus m₁
    refine ⟨us, m₁, r, es, hus, List.prefix_refl _, ?_, hes, hr, fun _ => rfl⟩
    rw [Attempt.run_bind_ok hslow]
    exact hclose
  | false =>
    obtain ⟨-, hfront, hfast⟩ | ⟨front, u, rest, f, rfl, -, hu, -, hfront, -, hfast⟩ :=
      testAll_failFast hus {}
    · obtain ⟨r, es, hclose, hes, hr⟩ := closeTests_verdict hfront m₁
      refine ⟨us, m₁, r, es, hfront, List.prefix_refl _, ?_, hes, hr, fun _ => rfl⟩
      rw [Attempt.run_bind_ok hfast]
      exact hclose
    · refine ⟨front ++ [u], u.after, .error f, [], hfront, ⟨rest.map Trial.project, by simp⟩,
        Attempt.run_bind_error hfast, by simp [OnlyShows], .failed (by simp) hu, nofun⟩

end

/-- The tree on which the projects to test are chosen is the one that the version probe left. -/
def testedOn (h : Host) (m : Machine) (s : Session) : Tree :=
  treeAfter m.tree (versionProbe h m s s.config.tools.idf)

/-- The trials `us` of the chosen projects `ps` in the events `es` of testing. They are trials of
different projects, in order, as far as testing came; before them at most a version was asked for,
and after them nothing was sent or changed. -/
structure Tried (h : Host) (m : Machine) (s : Session) (selected : List String) (o : TestOptions)
    (ps : List Project) (us : List Trial) (es : List Event) : Prop where
  chosen : s.chosen (testedOn h m s) h.workingDir selected = .ok ps
  distinct : (testedOn h m s).WellNamed → (ps.map Project.name).Nodup
  inOrder : us.map Trial.project <+: ps
  events : ∃ front trials back, es = front ++ (trials ++ back) ∧
    Series h s.config.tools (o.clean || asksForCleanBuild h.cleanBuild) o.keepGoing
      (m.after h front) us (m.after h (front ++ trials)) ∧
    (∀ e ∈ front, e.Within (TestCommand s []) (TestChange [])) ∧
    (∀ e ∈ trials, e.Within (TestCommand s ps) (TestChange ps)) ∧ OnlyShows back

/-- The events of testing with its result. Nothing could be chosen, or a trial failed, and it fails;
or each of the chosen projects had its trial and succeeded in it. -/
inductive Tested (h : Host) (m : Machine) (s : Session) (selected : List String)
    (o : TestOptions) : Except Failure Unit → List Event → Prop
  | unready {f : Failure} {es : List Event}
      (hno : Tool.find? h m.tree s.config.tools.idf = none ∨
        ∃ g, s.chosen (testedOn h m s) h.workingDir selected = .error g)
      (he : ∀ e ∈ es, e.Within (TestCommand s []) (TestChange [])) :
      Tested h m s selected o (.error f) es
  | failed {ps : List Project} {us : List Trial} {u : Trial} {f : Failure} {es : List Event}
      (ht : Tried h m s selected o ps us es) (hu : u ∈ us) (hf : u.passed = false) :
      Tested h m s selected o (.error f) es
  | passed {ps : List Project} {us : List Trial} {es : List Event}
      (ht : Tried h m s selected o ps us es) (hall : us.map Trial.project = ps)
      (hs : ∀ u ∈ us, u.passed = true ∧ u.Succeeded h s.config.tools) :
      Tested h m s selected o (.ok ()) es

section

variable {h : Host} {m : Machine} {s : Session} {selected : List String} {o : TestOptions}

/-- From the verdict on the trials to the result of testing. -/
theorem tested_of_verdict {ps : List Project} {us : List Trial} {r : Except Failure Unit}
    {es : List Event} (ht : Tried h m s selected o ps us es) (hr : Verdict us r)
    (hall : r = .ok () → us.map Trial.project = ps) : Tested h m s selected o r es := by
  cases hr with
  | failed hu hf => exact .failed ht hu hf
  | passed hp =>
    obtain ⟨front, trials, back, -, hs, -⟩ := ht.events
    exact .passed ht (hall rfl) fun u hu =>
      ⟨hp u hu, Trial.succeeded_of_passed (hs.runs u hu) (hp u hu)⟩

/-- Distinct names, since names come in ascending order. -/
theorem nodup_of_chosen {t : Tree} {base : Place} {ps : List Project} (ht : t.WellNamed)
    (hps : s.chosen t base selected = .ok ps) : (ps.map Project.name).Nodup :=
  ((Session.givesProjects_chosen ht selected).ascending ps hps).imp fun hlt heq => by
    rw [heq] at hlt
    exact List.lt_irrefl _ hlt

theorem probe_within (m : Machine) :
    ∀ x ∈ versionProbe h m s s.config.tools.idf ++ [], TestCommand s [] x.command := by
  intro x hx
  rw [List.append_nil] at hx
  unfold versionProbe at hx
  split at hx
  · rw [List.mem_singleton.mp hx]
    exact .version
  · cases hx

/-- What follows once the projects are chosen. -/
theorem chosen_tried (h : Host) (m : Machine) (s : Session) (o : TestOptions)
    (ps : List Project) :
    ∃ us r trials back, (do
        if ps.isEmpty then
          liftM (notify h .warning ("No test projects found in " ++ s.root.text))
        else
          let clean := o.clean || asksForCleanBuild h.cleanBuild
          let summary ← testAll h s.config.tools clean o.keepGoing ps {}
          closeTests h o.keepGoing summary : Attempt Failure Unit).run m =
        (r, m.after h (trials ++ back)) ∧
      Series h s.config.tools (o.clean || asksForCleanBuild h.cleanBuild) o.keepGoing m us
        (m.after h trials) ∧
      us.map Trial.project <+: ps ∧
      (∀ e ∈ trials, e.Within (TestCommand s ps) (TestChange ps)) ∧ OnlyShows back ∧
      Verdict us r ∧ (r = .ok () → us.map Trial.project = ps) := by
  by_cases hne : ps = []
  · subst hne
    exact ⟨[], .ok (), [], [.printed .err _], rfl, .nil m, List.nil_prefix, by simp,
      by simp [OnlyShows, Event.Within], .passed (by simp), fun _ => rfl⟩
  · obtain ⟨us, m₁, r, back, hs, horder, hrun, hback, hr, hall⟩ := testAll_verdict h
      s.config.tools (o.clean || asksForCleanBuild h.cleanBuild) o.keepGoing m ps
    have hps : ∀ u ∈ us, u.project ∈ ps := fun u hu =>
      horder.subset (List.mem_map.mpr ⟨u, hu, rfl⟩)
    obtain ⟨trials, rfl, htrials⟩ := hs.within hps
    refine ⟨us, r, trials, back, ?_, hs, horder, htrials, hback, hr, hall⟩
    rw [if_neg (by simpa using hne), after_append]
    exact hrun

theorem testPhase_tested (h : Host) (m : Machine) (s : Session) (selected : List String)
    (o : TestOptions) :
    ∃ r es, (testPhase h s selected o).run m = (r, m.after h es) ∧
      Tested h m s selected o r es := by
  have hm := requireTool_runs h m s.config.tools.idf "building host tests"
  cases htool : Tool.require h m.tree s.config.tools.idf "building host tests" with
  | error f =>
    rw [htool] at hm
    exact ⟨_, [], Attempt.run_bind_error hm.1,
      .unready (.inl (Tool.require_eq_error_iff.mp htool).1) (by simp)⟩
  | ok tool =>
    rw [htool] at hm
    obtain ⟨m₁, hm₁⟩ := tellVersion_runs h m s tool
    rw [Tool.name_of_find? (Tool.require_eq_ok_iff.mp htool)] at hm₁
    obtain ⟨m₂, hm₂⟩ := chosen_runs h m₁ s selected
    rw [show m₁.tree = testedOn h m s from hm₁.tree] at hm₂
    have hopen := Runs.bind (f := fun _ => (failing (s.projects h selected)).run) hm₁ hm₂
    obtain ⟨front, rfl, hfront⟩ := hopen.within (C := TestCommand s []) (D := TestChange [])
      (probe_within m) (by simp)
    cases hps : s.chosen (testedOn h m s) h.workingDir selected with
    | error g =>
      rw [hps] at hm₂
      refine ⟨.error (.fault g), front, ?_, .unready (.inr ⟨g, hps⟩) hfront⟩
      unfold testPhase
      rw [Attempt.run_bind_ok hm.1, Attempt.run_bind_ok (Attempt.run_lift hm₁.1)]
      exact Attempt.run_bind_error hm₂.1
    | ok ps =>
      rw [hps] at hm₂
      obtain ⟨us, r, trials, back, hrun, hs, horder, hwithin, hback, hr, hall⟩ :=
        chosen_tried h (m.after h front) s o ps
      refine ⟨r, front ++ (trials ++ back), ?_, tested_of_verdict ⟨hps,
        fun ht => nodup_of_chosen ht hps, horder, front, trials, back, rfl, ?_, hfront, hwithin,
        hback⟩ hr hall⟩
      · unfold testPhase
        rw [Attempt.run_bind_ok hm.1, Attempt.run_bind_ok (Attempt.run_lift hm₁.1),
          Attempt.run_bind_ok hm₂.1, after_append]
        exact hrun
      · rw [after_append]
        exact hs

end

/-! ## Both -/

/-- Running both is a stretch of testing and then a stretch of coverage. If testing fails, which it
does when one of the chosen projects does, in either mode, that is the failure and there is no
second stretch. So whatever coverage does, it does after each of the chosen projects had its trial,
in which its build and its test binary succeeded. The projects are those that are chosen when
testing begins. -/
theorem run_in_turn (h : Host) (m : Machine) (s : Session) (selected : List String)
    (t : TestOptions) (c : CoverageOptions) :
    ∃ tested r es fs, (testPhase h s selected t).run m = (tested, m.after h es) ∧
      (perform h s selected (.run t c)).run m = (r, m.after h (es ++ fs)) ∧
      Tested h m s selected t tested es ∧
      (∀ f, tested = .error f → r = .error f ∧ fs = []) ∧
      ∀ e ∈ fs, e.Within (CoverageCommand s) (CoverageChange s) := by
  obtain ⟨tested, es, htest, hes⟩ := testPhase_tested h m s selected t
  cases tested with
  | error f =>
    refine ⟨_, .error f, es, [], htest, ?_, hes, fun g hg => ⟨hg ▸ rfl, rfl⟩, by simp⟩
    rw [List.append_nil]
    exact Attempt.run_bind_error htest
  | ok u =>
    have hrest : KeepsTo h (CoverageCommand s) (CoverageChange s) (do
        liftM (sayLine "")
        coveragePhase h s selected c : Attempt Failure Unit).run :=
      .andThen (.lift (.say _ _)) fun _ => keepsTo_coveragePhase selected c
    obtain ⟨fs, hfs, hwithin⟩ := hrest (m.after h es)
    have hrun : (perform h s selected (.run t c)).run m = _ := Attempt.run_bind_ok htest
    refine ⟨.ok u, ((perform h s selected (.run t c)).run m).1, es, fs, htest, ?_, hes, nofun,
      hwithin⟩
    rw [after_append, ← hfs, ← hrun]
    rfl

end HostSuite.Suite
