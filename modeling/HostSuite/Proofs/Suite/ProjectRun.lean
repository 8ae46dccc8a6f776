import HostSuite.Suite.ProjectRun
import HostSuite.Proofs.Machine.Course

/-
  The stages of a project. A stage sends one command and its answer is the verdict on the outcome
  (`stage_runs`); a clean build is one removal and then one stage (`cleanBuild_runs`). All stages
  together leave nothing out of the log (`recorded_stages`), and where one fails the result of the
  project holds a fault (`runProject_runs`).
-/

namespace HostSuite.Suite

open HostSuite.Action

theorem removeBuild_runs (h : Host) (m : Machine) (p : Project) :
    ∃ m', Runs h (removeBuild h p) m () m' [] [.removeDir p.buildDir] [] ∧
      m'.tree = (Change.removeDir p.buildDir).on h m.tree := by
  obtain ⟨m₁, hm₁, ht⟩ := removeDir_runs h m p.buildDir
  unfold removeBuild
  cases he : (m.tree.removeDirsIfThere h.workingDir p.buildDir).2 with
  | none =>
    rw [he] at hm₁
    exact ⟨m₁, hm₁.bind_silent (Runs.pure h m₁ ()), ht⟩
  | some e =>
    rw [he] at hm₁
    obtain ⟨m₂, hm₂⟩ := warn_runs h m₁
      ("Could not fully remove " ++ p.buildDir.text ++ ": " ++ e.message)
    exact ⟨m₂, hm₁.bind_silent hm₂, hm₂.tree.trans ht⟩

theorem stage_runs (h : Host) (m : Machine) (c : Command) (launchFault : LaunchError → Fault)
    (exitFault : CommandResult → Fault) :
    ∃ m', Runs h (stage h c launchFault exitFault).run m
      (verdict launchFault exitFault (m.exchange h c).outcome) m' [m.exchange h c] [] [] := by
  obtain ⟨m₁, hm₁⟩ := invoke_runs h m c
  exact ⟨m₁, hm₁.lift.bind_ok (Runs.pure h m₁ _)⟩

/-- A clean build removes the build directory and then sends one command, which finds the tree that
the removal left. -/
theorem cleanBuild_runs (h : Host) (m : Machine) (tools : ToolSettings) (p : Project) :
    ∃ m' r x ts, Runs h (cleanBuild h tools p).run m r m' [x] [.removeDir p.buildDir] ts ∧
      x.found = (Change.removeDir p.buildDir).on h m.tree := by
  obtain ⟨m₁, hm₁⟩ := say_runs h m Notice.info.stream
    (Notice.info.line h.style ("Cleaning build directory in " ++ p.root.text))
  obtain ⟨m₂, hm₂, ht⟩ := removeBuild_runs h m₁ p
  obtain ⟨m₃, hm₃⟩ := say_runs h m₂ Notice.info.stream
    (Notice.info.line h.style ("Setting target to " ++ tools.target))
  obtain ⟨m₄, hm₄⟩ := stage_runs h m₃ (setTargetCommand tools p)
    (fun _ => .missingTool tools.idf "set-target" Hint.idf)
    (fun _ => .buildFailure p.name ("Failed to set target to " ++ tools.target)
      (some ("Ensure " ++ tools.idf ++ " is in PATH and the ESP-IDF environment is exported")))
  refine ⟨m₄, _, _, _, hm₁.lift.bind_ok (hm₂.lift.bind_ok (hm₃.lift.bind_ok hm₄)), ?_⟩
  show m₃.tree = _
  rw [hm₃.tree, treeAfter_nil, ht, hm₁.tree, treeAfter_nil]

/-! ## All stages -/

section

variable (h : Host) (tools : ToolSettings) (p : Project)

theorem recorded_stage (c : Command) (launchFault : LaunchError → Fault)
    (exitFault : CommandResult → Fault) : Recorded h (stage h c launchFault exitFault).run :=
  fun m => (stage_runs h m c launchFault exitFault).elim fun m' hm => ⟨m', _, _, _, _, hm⟩

theorem recorded_cleanBuild : Recorded h (cleanBuild h tools p).run := by
  intro m
  obtain ⟨m', r, x, ts, hm, -⟩ := cleanBuild_runs h m tools p
  exact ⟨m', r, _, _, ts, hm⟩

theorem recorded_dropCounters : Recorded h (dropCounters h p) := by
  refine .bind (recorded_say h _ _) fun _ => .bind ?_ fun count => ?_
  · intro m
    obtain ⟨m', hm, -⟩ := change_runs h m (.dropCounters p.root)
      (fun t => t.dropCounters h.workingDir p.root) rfl
    exact ⟨m', _, _, _, _, hm⟩
  · split
    · exact recorded_say h _ _
    · exact .pure ()

theorem recorded_locate : Recorded h (locate h p).run := by
  refine .andThen (.lift .get) fun m => ?_
  split <;> exact .pure _

theorem recorded_buildAndTest : Recorded h (buildAndTest h tools p).run := by
  have hbuild : Recorded h (build h tools p).run :=
    .andThen (.lift (recorded_say h _ _)) fun _ => recorded_stage h _ _ _
  have hexecute (binary : Path) : Recorded h (execute h p binary).run :=
    .andThen (.lift (recorded_say h _ _)) fun _ => recorded_stage h _ _ _
  exact .andThen hbuild fun _ => .andThen (recorded_locate h p) fun binary =>
    .andThen (hexecute binary) fun _ => .pure _

theorem recorded_stages (clean : Bool) : Recorded h (stages h tools clean p).run := by
  have hrest : Recorded h (do
      liftM (dropCounters h p)
      buildAndTest h tools p : Attempt Fault Path).run :=
    .andThen (.lift (recorded_dropCounters h p)) fun _ => recorded_buildAndTest h tools p
  refine .andThen (.lift (recorded_say h _ _)) fun _ =>
    .andThen (.lift (recorded_say h _ _)) fun _ => ?_
  cases clean with
  | false => exact hrest
  | true => exact .andThen (recorded_cleanBuild h tools p) fun _ => hrest

/-- The result of a project bears its name, and a failure in it is a fault. -/
theorem runProject_runs (m : Machine) (clean : Bool) :
    ∃ m' d o xs cs ts, Runs h (runProject h tools clean p) m
      ⟨p.name, d, Except.mapError Failure.fault o⟩ m' xs cs ts := by
  obtain ⟨m₁, o, xs, cs, ts, hm₁⟩ := recorded_stages h tools p clean m
  refine ⟨m₁, m₁.clock - m.clock, o, xs, cs, ts, ?_⟩
  exact (Runs.get h m).bind (hm₁.bind_silent ((Runs.get h m₁).bind (Runs.pure h m₁ _)))

end

/-! ## The fault of a failed test -/

/-- Whenever the attempt fails, it does so with a fault like this. -/
def FailsWith {α : Type} (Q : Fault → Prop) (x : Attempt Fault α) : Prop :=
  ∀ m f, (x.run m).1 = .error f → Q f

section

variable {α β : Type} {Q : Fault → Prop}

theorem FailsWith.lift (a : Action α) : FailsWith Q (liftM a : Attempt Fault α) :=
  fun _ _ hf => nomatch hf

theorem FailsWith.andThen {x : Attempt Fault α} {f : α → Attempt Fault β} (hx : FailsWith Q x)
    (hf : ∀ r, FailsWith Q (f r)) : FailsWith Q (x >>= f) := by
  intro m e he
  obtain ⟨⟨r, m₁⟩, hm⟩ : ∃ z, x.run m = z := ⟨_, rfl⟩
  cases r with
  | error e' =>
    rw [Attempt.run_bind_error hm] at he
    exact Except.error.inj he ▸ hx m e' (by rw [hm])
  | ok r =>
    rw [Attempt.run_bind_ok hm] at he
    exact hf r m₁ e he

theorem failsWith_stage (h : Host) (c : Command) {launchFault : LaunchError → Fault}
    {exitFault : CommandResult → Fault} (hl : ∀ e, Q (launchFault e)) (he : ∀ r, Q (exitFault r)) :
    FailsWith Q (stage h c launchFault exitFault) := by
  refine .andThen (.lift _) fun o m f hf => ?_
  replace hf : verdict launchFault exitFault o = .error f := hf
  unfold verdict at hf
  split at hf
  · exact Except.error.inj hf ▸ hl _
  · split at hf
    · cases hf
    · exact Except.error.inj hf ▸ he _

/-- If the fault is that of a failed test, it has this name. -/
def NamesTest (name : String) (f : Fault) : Prop := ∀ n code, f = .testFailure n code → n = name

theorem stages_failsWith (h : Host) (tools : ToolSettings) (clean : Bool) (p : Project) :
    FailsWith (NamesTest p.name) (stages h tools clean p) := by
  have hbuild : FailsWith (NamesTest p.name) (build h tools p) :=
    .andThen (.lift _) fun _ => failsWith_stage h _ (fun _ => nofun) fun _ => nofun
  have htarget : FailsWith (NamesTest p.name) (setTarget h tools p) :=
    .andThen (.lift _) fun _ => failsWith_stage h _ (fun _ => nofun) fun _ => nofun
  have hexecute (binary : Path) : FailsWith (NamesTest p.name) (execute h p binary) := by
    refine .andThen (.lift _) fun _ => failsWith_stage h _ (fun _ => nofun) fun r n code hf => ?_
    exact (Fault.testFailure.inj hf).1.symm
  have hlocate : FailsWith (NamesTest p.name) (locate h p) := by
    refine .andThen (.lift _) fun m => ?_
    split
    · exact fun _ _ hf => nomatch hf
    · rintro m f hf n code rfl
      cases hf
  have hrest : FailsWith (NamesTest p.name) (do
      liftM (dropCounters h p)
      buildAndTest h tools p) :=
    .andThen (.lift _) fun _ => .andThen hbuild fun _ => .andThen hlocate fun binary =>
      .andThen (hexecute binary) fun _ _ _ hf => nomatch hf
  refine .andThen (.lift _) fun _ => .andThen (.lift _) fun _ => ?_
  cases clean with
  | false => exact hrest
  | true =>
    exact .andThen (.andThen (.lift _) fun _ => .andThen (.lift _) fun _ => htarget) fun _ => hrest

/-- A failed test is reported under the name of its project. -/
theorem testFailure_names {h : Host} {tools : ToolSettings} {clean : Bool} {p : Project}
    {m : Machine} {n : String} {code : Int}
    (hf : (runProject h tools clean p m).1.failure? = some (.fault (.testFailure n code))) :
    n = p.name := by
  have hstages := stages_failsWith h tools clean p m
  change ProjectResult.failure? ⟨_, _, ((stages h tools clean p).run m).1.mapError _⟩ = _ at hf
  cases hr : ((stages h tools clean p).run m).1 with
  | ok r =>
    rw [hr] at hf
    cases hf
  | error f =>
    rw [hr] at hf
    exact hstages f hr n code (Failure.fault.inj (Option.some.inj hf))

end

end HostSuite.Suite
