import HostSuite.Suite.Program
import HostSuite.Proofs.Suite.Trials

/-
  Needs that are not met. A threshold that is no percentage, and a tool that is not there, are
  faults of a command line (`Unmet`). Testing and coverage refuse before they do anything, and so
  does running both without the build tool (`unmet_refused`). Running both looks for what coverage
  needs only after the tests: if these fail, that is the failure, else the fault comes with
  everything that testing sent and changed (`run_refuses_late`).
-/

namespace HostSuite.Suite

open HostSuite.Action

/-- A need of a request that is not met on a tree, with its fault. -/
inductive Unmet (h : Host) (t : Tree) (c : Config) : Request → Fault → Prop
  | idf {o : TestOptions} (hf : Tool.find? h t c.tools.idf = none) :
      Unmet h t c (.test o)
        (.missingTool c.tools.idf "building host tests" (Tool.hintFor c.tools.idf))
  | coverage {o : CoverageOptions} {f : Fault} (hu : UnmetCoverage h t c o f) :
      Unmet h t c (.coverage o) f
  | runTest {o : TestOptions} {o' : CoverageOptions} {f : Fault} (hu : Unmet h t c (.test o) f) :
      Unmet h t c (.run o o') f
  | runCoverage {o : TestOptions} {o' : CoverageOptions} {f : Fault}
      (hu : UnmetCoverage h t c o' f) : Unmet h t c (.run o o') f

/-- The program ends with the fault of a need that is not met, having sent and changed nothing. -/
def Refuses (h : Host) (m : Machine) (c : Config) (l : CommandLine) : Prop :=
  ∃ g m' ts, Unmet h m.tree c l.request g ∧
    Runs (hostFor h l) (runProgram h l) m (some (.fault g)) m' [] [] ts

/-- The program finds out only after the tests what coverage needs. If they fail, that is its
failure; if they pass and then something is missing, that is its failure. Either way it has sent and
changed what testing sends and changes. -/
def RefusesLate (h : Host) (m : Machine) (s : Session) (l : CommandLine) (t : TestOptions)
    (c : CoverageOptions) : Prop :=
  ∃ m₁ r xs cs ts, Runs (hostFor h l) (testPhase (hostFor h l) s l.projects t).run m r m₁ xs cs ts ∧
    (∀ e, r = .error e →
      ∃ m' ts', Runs (hostFor h l) (runProgram h l) m (some e) m' xs cs ts') ∧
    (r = .ok () → ∀ f, UnmetCoverage h m₁.tree s.config c f →
      ∃ g m' ts', UnmetCoverage h m₁.tree s.config c g ∧
        Runs (hostFor h l) (runProgram h l) m (some (.fault g)) m' xs cs ts')

/-- Whatever need of a command line is not met, the program refuses. -/
def RefusesUnmet (h : Host) (m : Machine) (l : CommandLine) : Prop :=
  ∀ s f, Session.load m.tree h.workingDir (l.root.map Path.mk) l.verbose = .ok s →
    Unmet h m.tree s.config l.request f → Refuses h m s.config l

/-! ## The test phase leaves nothing out of the log -/

section

variable (h : Host)

theorem recorded_testAll (tools : ToolSettings) (clean keepGoing : Bool) (ps : List Project)
    (done : RunSummary) : Recorded h (testAll h tools clean keepGoing ps done).run := by
  induction ps generalizing done with
  | nil => exact .pure _
  | cons p ps ih =>
    refine .andThen (.lift fun m => ?_) fun r => ?_
    · obtain ⟨m', d, o, xs, cs, ts, hm⟩ := runProject_runs h tools p m clean
      exact ⟨m', _, xs, cs, ts, hm⟩
    · cases r.failure? with
      | none => exact ih (done.add r)
      | some f =>
        cases keepGoing with
        | false => exact .pure _
        | true =>
          simp only [if_true]
          split
          · exact .andThen (.lift (recorded_say h _ _)) fun _ => ih (done.add r)
          · exact ih (done.add r)

theorem recorded_closeTests (keepGoing : Bool) (summary : RunSummary) :
    Recorded h (closeTests h keepGoing summary).run := by
  intro m
  obtain ⟨m', ts, hm⟩ := closeTests_runs h m keepGoing summary
  exact ⟨m', _, _, _, ts, hm⟩

theorem recorded_testPhase (s : Session) (selected : List String) (o : TestOptions) :
    Recorded h (testPhase h s selected o).run := by
  refine .andThen (fun m => ?_) fun tool => .andThen (.lift fun m => ?_) fun _ =>
    .andThen (fun m => ?_) fun ps => ?_
  · exact ⟨m, _, _, _, _, requireTool_runs h m s.config.tools.idf "building host tests"⟩
  · obtain ⟨m', hm⟩ := tellVersion_runs h m s tool
    exact ⟨m', _, _, _, _, hm⟩
  · obtain ⟨m', hm⟩ := chosen_runs h m s selected
    exact ⟨m', _, _, _, _, hm⟩
  · split
    · exact .lift (recorded_say h _ _)
    · exact .andThen (recorded_testAll h _ _ _ ps _) fun summary => recorded_closeTests h _ summary

end

/-! ## The program around the phases -/

section

variable {h : Host} {m m' : Machine} {l : CommandLine} {s : Session} {r : Except Failure Unit}
  {xs : List Exchange} {cs : List Change} {ts : List String}

/-- What the program does with a request it does as the host that the command line wants. -/
theorem runProgram_runs
    (hs : Session.load m.tree h.workingDir (l.root.map Path.mk) l.verbose = .ok s)
    (hr : Runs (hostFor h l) (perform (hostFor h l) s l.projects l.request).run m r m' xs cs ts) :
    ∃ m'', Runs (hostFor h l) (runProgram h l) m
      (match r with | .ok _ => none | .error f => some f) m'' xs cs ts := by
  have hattempt : Runs (hostFor h l) (attempt (hostFor h l) l).run m r m' xs cs ts := by
    refine (Runs.get (hostFor h l) m).lift.bind_ok ?_
    rw [show (hostFor h l).workingDir = h.workingDir from rfl, hs]
    exact hr
  cases r with
  | ok u => exact ⟨m', hattempt.bind_silent (Runs.pure _ m' none)⟩
  | error f =>
    obtain ⟨m₁, hm₁⟩ := say_runs (hostFor h l) m' .err (f.display (hostFor h l).style)
    exact ⟨m₁, hattempt.bind_silent (hm₁.bind_silent (Runs.pure _ m₁ (some f)))⟩

/-- Without the build tool the test phase ends before it does anything. -/
theorem testPhase_refused (selected : List String) (o : TestOptions)
    (hf : Tool.find? h m.tree s.config.tools.idf = none) :
    Runs h (testPhase h s selected o).run m (.error (.fault (.missingTool s.config.tools.idf
      "building host tests" (Tool.hintFor s.config.tools.idf)))) m [] [] [] := by
  have hidf := requireTool_runs h m s.config.tools.idf "building host tests"
  rw [Tool.require_eq_error_iff.mpr ⟨hf, rfl⟩] at hidf
  exact hidf.bind_error

theorem run_refused (selected : List String) (t : TestOptions) (c : CoverageOptions)
    (hf : Tool.find? h m.tree s.config.tools.idf = none) :
    Runs h (perform h s selected (.run t c)).run m (.error (.fault (.missingTool s.config.tools.idf
      "building host tests" (Tool.hintFor s.config.tools.idf)))) m [] [] [] := by
  unfold perform
  exact (testPhase_refused selected t hf).bind_error

/-- With a need of coverage that is not met, running both ends like testing or after it. -/
theorem run_refusesLate {t : TestOptions} {c : CoverageOptions}
    (hs : Session.load m.tree h.workingDir (l.root.map Path.mk) l.verbose = .ok s)
    (hl : l.request = .run t c) : RefusesLate h m s l t c := by
  obtain ⟨m₁, r, xs, cs, ts, hm₁⟩ := recorded_testPhase (hostFor h l) s l.projects t m
  refine ⟨m₁, r, xs, cs, ts, hm₁, ?_, ?_⟩
  · rintro e rfl
    have hperform : Runs (hostFor h l) (perform (hostFor h l) s l.projects l.request).run m
        (.error e) m₁ xs cs ts := by
      rw [hl]
      exact hm₁.bind_error
    obtain ⟨m', hm'⟩ := runProgram_runs hs hperform
    exact ⟨m', ts, hm'⟩
  · rintro rfl f hf
    obtain ⟨m₂, hm₂⟩ := sayLine_runs (hostFor h l) m₁ ""
    have ht₂ : m₂.tree = m₁.tree := hm₂.tree
    obtain ⟨g, hg⟩ := hf.refused
    have hcoverage : Runs (hostFor h l) (coveragePhase (hostFor h l) s l.projects c).run m₂
        (.error (.fault g)) m₂ [] [] [] := coveragePhase_refused (by rw [ht₂]; exact hg)
    have hperform : Runs (hostFor h l) (perform (hostFor h l) s l.projects (.run t c)).run m
        (.error (.fault g)) m₂ _ _ _ := hm₁.bind_ok (hm₂.lift.bind_ok hcoverage)
    rw [List.append_nil, List.append_nil, List.append_nil, List.append_nil, ← hl] at hperform
    obtain ⟨m', hm'⟩ := runProgram_runs hs hperform
    exact ⟨g, m', _, unmet_of_coverageNeeds hg, hm'⟩

/-- With a need that is not met the program refuses, unless it is to run both, has the build tool,
and something that only coverage needs is missing; then it finds out after the tests. -/
theorem unmet_refused {f : Fault}
    (hs : Session.load m.tree h.workingDir (l.root.map Path.mk) l.verbose = .ok s)
    (hu : Unmet h m.tree s.config l.request f) :
    Refuses h m s.config l ∨ ∃ t c, l.request = .run t c ∧
      (Tool.find? h m.tree s.config.tools.idf).isSome = true ∧
      UnmetCoverage h m.tree s.config c f ∧ RefusesLate h m s l t c := by
  have hrefuses {g : Fault} {m' : Machine} {ts : List String}
      (hg : Unmet h m.tree s.config l.request g)
      (hr : Runs (hostFor h l) (perform (hostFor h l) s l.projects l.request).run m
        (.error (.fault g)) m' [] [] ts) : Refuses h m s.config l := by
    obtain ⟨m'', hm''⟩ := runProgram_runs hs hr
    exact ⟨g, m'', ts, hg, hm''⟩
  generalize hq : l.request = q at hu hrefuses
  cases hu with
  | idf hf => exact .inl (hrefuses (.idf hf) (testPhase_refused l.projects _ hf))
  | coverage hu =>
    obtain ⟨g, hg⟩ := hu.refused
    exact .inl (hrefuses (.coverage (unmet_of_coverageNeeds hg)) (coveragePhase_refused hg))
  | runTest hu =>
    cases hu with
    | idf hf =>
      exact .inl (hrefuses (.runTest (.idf hf)) (run_refused l.projects _ _ hf))
  | @runCoverage t c f hu =>
    cases hf : Tool.find? h m.tree s.config.tools.idf with
    | none =>
      exact .inl (hrefuses (.runTest (.idf hf)) (run_refused l.projects _ _ hf))
    | some idf => exact .inr ⟨t, c, rfl, rfl, hu, run_refusesLate hs hq⟩

end

/-- Coverage with a threshold of 140. -/
def coverageAbove : CommandLine := ⟨none, false, false, [], .coverage ⟨false, some (.ofNat 140)⟩⟩

theorem unmet_refused_above :
    Unmet idleHost suiteWithIdf {} coverageAbove.request
        (RuleFault.notPercentage (.ofNat 140)).toFault ∧
      Refuses idleHost ⟨suiteWithIdf, [], 0⟩ {} coverageAbove := by
  have hload : Session.load suiteWithIdf idleHost.workingDir none false =
      .ok ⟨Path.ofPlace [], {}, false⟩ := Except.eq_ok_of_toOption (by decide +kernel)
  have hu : Unmet idleHost suiteWithIdf {} coverageAbove.request
      (RuleFault.notPercentage (.ofNat 140)).toFault := by
    refine .coverage (.threshold rfl ?_)
    rw [← Config.isPercentage_iff]
    decide +kernel
  obtain hr | ⟨t, c, hrun, -⟩ :=
    unmet_refused (h := idleHost) (m := ⟨suiteWithIdf, [], 0⟩) (l := coverageAbove) hload hu
  · exact ⟨hu, hr⟩
  · cases hrun

/-- A project with its test binary, and no tool but the one that builds. -/
def builtSuite : Tree :=
  (suiteWithIdf.set ["a", "build"] (.dir 0o755)).set ["a", "build", "host_test"] (.file [] 0o755)

/-- Testing and coverage of that project. -/
def runBoth : CommandLine := ⟨none, false, false, ["a"], .run {} {}⟩

/-- The tool that captures is missed only after the project has been built and tested. -/
theorem run_tests_without_lcov :
    ¬RefusesUnmet idleHost ⟨builtSuite, [], 0⟩ runBoth ∧
      (runProgram idleHost runBoth ⟨builtSuite, [], 0⟩).1 =
        some (.fault (.missingTool "lcov" "coverage capture" Hint.lcov)) ∧
      (runProgram idleHost runBoth ⟨builtSuite, [], 0⟩).2.commands =
        [buildCommand {} (Project.named [] "build" "a"),
          testCommand (Project.named [] "build" "a") ⟨"/a/build/host_test"⟩] := by
  have hcommands : (runProgram idleHost runBoth ⟨builtSuite, [], 0⟩).2.commands =
      [buildCommand {} (Project.named [] "build" "a"),
        testCommand (Project.named [] "build" "a") ⟨"/a/build/host_test"⟩] := by decide +kernel
  refine ⟨fun hall => ?_, by decide +kernel, hcommands⟩
  obtain ⟨g, m', ts, -, hrun⟩ := hall ⟨Path.ofPlace [], {}, false⟩ _
    (Except.eq_ok_of_toOption (by decide +kernel)) (.runCoverage (.lcov (by decide +kernel)))
  have hm' : m' = (runProgram idleHost runBoth ⟨builtSuite, [], 0⟩).2 :=
    (congrArg Prod.snd hrun.1).symm
  have := hrun.commands
  rw [hm', hcommands] at this
  cases this

end HostSuite.Suite
