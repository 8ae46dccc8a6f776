import HostSuite.Proofs.Machine.KeepsTo
import HostSuite.Proofs.Suite.CoverageVerdict
import HostSuite.Suite.ProjectRun

/-
  What each phase does. The stages of projects send and change what testing does (`TestCommand`,
  `TestChange`), and the coverage phase what coverage does (`CoverageCommand`, `CoverageChange`).
  These have nothing in common but the question for a version, where both ask it of one program
  (`TestCommand.eq_version`).
-/

namespace HostSuite.Suite

open HostSuite.Action HostSuite.Coverage

/-! ## What each phase does -/

/-- The commands of testing some projects: one for the version of the build tool, and those of the
stages. -/
inductive TestCommand (s : Session) (ps : List Project) : Command → Prop
  | version : TestCommand s ps (versionCommand s s.config.tools.idf)
  | target {p : Project} (hp : p ∈ ps) : TestCommand s ps (setTargetCommand s.config.tools p)
  | build {p : Project} (hp : p ∈ ps) : TestCommand s ps (buildCommand s.config.tools p)
  | test {p : Project} (hp : p ∈ ps) (binary : Path) : TestCommand s ps (testCommand p binary)

/-- The changes of testing some projects. -/
inductive TestChange (ps : List Project) : Change → Prop
  | clean {p : Project} (hp : p ∈ ps) : TestChange ps (.removeDir p.buildDir)
  | counters {p : Project} (hp : p ∈ ps) : TestChange ps (.dropCounters p.root)

/-- The commands of coverage: those for its two tools and for the programs that may show the page.
Their output is captured. -/
structure CoverageCommand (s : Session) (c : Command) : Prop where
  captured : c.inheritsOutput = false
  program : c.program = s.config.tools.lcov ∨ c.program = s.config.tools.genhtml ∨
    ∃ l ∈ launchers, c.program = l.1

/-- The changes of coverage. -/
inductive CoverageChange (s : Session) : Change → Prop
  | ready : CoverageChange s (.readyDir (resultPaths s).dir)
  | stale : CoverageChange s (.removeFile (resultPaths s).unified)
  | report (text : String) : CoverageChange s (.writeText (resultPaths s).report text)

/-- Nothing belongs to both phases, unless the version is asked of one program for both. -/
theorem TestCommand.eq_version {s : Session} {ps : List Project} {c : Command}
    (ht : TestCommand s ps c) (hc : CoverageCommand s c) :
    c = versionCommand s s.config.tools.idf := by
  cases ht with
  | version => rfl
  | target | build | test => cases hc.captured

/-! ## Testing -/

section

variable {h : Host} {C : Command → Prop} {D : Change → Prop} {p : Project}

theorem keepsTo_removeBuild (hD : D (.removeDir p.buildDir)) :
    KeepsTo h C D (removeBuild h p) := by
  refine .bind (.change (fun _ => rfl) hD) fun r => ?_
  cases r with
  | none => exact .pure ()
  | some e => exact .say _ _

theorem keepsTo_dropCounters (hD : D (.dropCounters p.root)) :
    KeepsTo h C D (dropCounters h p) := by
  refine .bind (.say _ _) fun _ => .bind (.change (fun _ => rfl) hD) fun count => ?_
  split
  · exact .say _ _
  · exact .pure ()

theorem keepsTo_locate : KeepsTo h C D (locate h p).run := by
  refine .andThen (.lift .get) fun m => ?_
  split <;> exact .pure _

theorem keepsTo_stage {c : Command} (hC : C c) (launchFault : LaunchError → Fault)
    (exitFault : CommandResult → Fault) : KeepsTo h C D (stage h c launchFault exitFault).run :=
  .andThen (.lift (.invoke hC)) fun _ => .pure _

end

section

variable {h : Host} {s : Session} {ps : List Project}

theorem keepsTo_stages {p : Project} (hp : p ∈ ps) (clean : Bool) :
    KeepsTo h (TestCommand s ps) (TestChange ps) (stages h s.config.tools clean p).run := by
  have hclean : KeepsTo h (TestCommand s ps) (TestChange ps) (cleanBuild h s.config.tools p).run :=
    .andThen (.lift (.say _ _)) fun _ => .andThen (.lift (keepsTo_removeBuild (.clean hp))) fun _ =>
      .andThen (.lift (.say _ _)) fun _ => keepsTo_stage (.target hp) _ _
  have hrest : KeepsTo h (TestCommand s ps) (TestChange ps) (do
      liftM (dropCounters h p)
      buildAndTest h s.config.tools p : Attempt Fault Path).run :=
    .andThen (.lift (keepsTo_dropCounters (.counters hp))) fun _ =>
      .andThen (.andThen (.lift (.say _ _)) fun _ => keepsTo_stage (.build hp) _ _) fun _ =>
        .andThen keepsTo_locate fun binary =>
          .andThen (.andThen (.lift (.say _ _)) fun _ => keepsTo_stage (.test hp binary) _ _)
            fun _ => .pure _
  refine .andThen (.lift (.say _ _)) fun _ => .andThen (.lift (.say _ _)) fun _ => ?_
  cases clean with
  | false => exact hrest
  | true => exact .andThen hclean fun _ => hrest

theorem keepsTo_runProject {p : Project} (hp : p ∈ ps) (clean : Bool) :
    KeepsTo h (TestCommand s ps) (TestChange ps) (runProject h s.config.tools clean p) :=
  .bind .get fun _ => .bind (keepsTo_stages hp clean) fun _ => .bind .get fun _ => .pure _

theorem keepsTo_tellVersion {C : Command → Prop} {D : Change → Prop} {tool : Tool}
    (hC : C (versionCommand s tool.name)) : KeepsTo h C D (tellVersion h s tool) := by
  intro m
  obtain ⟨m', hm⟩ := tellVersion_runs h m s tool
  rw [hm.1]
  refine hm.within (fun x hx => ?_) (by simp)
  unfold versionProbe at hx
  split at hx
  · rw [List.mem_singleton.mp hx]
    exact hC
  · cases hx

/-- What comes after a tool is found knows its name. -/
theorem keepsTo_requireTool {C : Command → Prop} {D : Change → Prop} {name requiredFor : String}
    {β : Type} {f : Tool → Attempt Failure β}
    (hf : ∀ tool : Tool, tool.name = name → KeepsTo h C D (f tool).run) :
    KeepsTo h C D (requireTool h name requiredFor >>= f).run := by
  intro m
  have hm := requireTool_runs h m name requiredFor
  cases hr : Tool.require h m.tree name requiredFor with
  | error g =>
    rw [hr] at hm
    rw [Attempt.run_bind_error hm.1]
    exact ⟨[], rfl, by simp⟩
  | ok tool =>
    rw [hr] at hm
    rw [Attempt.run_bind_ok hm.1]
    exact hf tool (Tool.name_of_find? (Tool.require_eq_ok_iff.mp hr)) m

end

/-! ## Coverage -/

section

variable {h : Host} {s : Session}

/-- A command for the tool that captures. -/
theorem coverageCommand_lcov {args : List String} {cwd : Path} :
    CoverageCommand s ⟨s.config.tools.lcov, args, cwd, false⟩ :=
  ⟨rfl, .inl rfl⟩

theorem keepsTo_captureIn (p : Project) (ways : List Strictness) (last : Option String) :
    KeepsTo h (CoverageCommand s) (CoverageChange s)
      (captureIn h s.config.tools.lcov p ways last) := by
  induction ways generalizing last with
  | nil =>
    refine .bind (.say _ _) fun _ => .bind ?_ fun _ => .pure _
    cases last with
    | none => exact .pure ()
    | some text => exact .say _ _
  | cons way ways ih =>
    refine .bind (.invoke coverageCommand_lcov) fun o => ?_
    cases o with
    | error e => exact .bind (.say _ _) fun _ => .pure _
    | ok r =>
      dsimp only
      split
      · exact .pure _
      · exact ih r.diagnostics

theorem keepsTo_filter (p : Project) (raw : Path) (patterns : List String) :
    KeepsTo h (CoverageCommand s) (CoverageChange s)
      (filter h s.config.tools.lcov p raw patterns) := by
  unfold filter
  split
  · exact .pure none
  · refine .bind (.invoke coverageCommand_lcov) fun o => ?_
    split
    · exact .pure _
    · refine .bind (.say _ _) fun _ => .bind ?_ fun _ => .pure _
      cases troubleOf o with
      | none => exact .pure ()
      | some text => exact .say _ _

theorem keepsTo_summarize (dataset : Path) (label : String) (cwd : Path) :
    KeepsTo h (CoverageCommand s) (CoverageChange s)
      (summarize h s.config.tools.lcov dataset label cwd) :=
  .bind (.invoke coverageCommand_lcov) fun _ => .bind (.say _ _) fun _ => .pure _

theorem keepsTo_datasets (patterns : List String) (ps : List Project) :
    KeepsTo h (CoverageCommand s) (CoverageChange s) (datasets h s.config patterns ps) := by
  induction ps with
  | nil => exact .pure []
  | cons p ps ih =>
    refine .bind (.bind .get fun m => ?_) fun _ => .bind ih fun _ => .pure _
    split
    · refine .bind (.bind (keepsTo_captureIn p _ none) fun raw => ?_) fun captured => ?_
      · cases raw with
        | none => exact .pure none
        | some raw => exact .bind (keepsTo_filter p raw patterns) fun _ => .pure _
      · cases captured with
        | none => exact .pure none
        | some captured => exact .bind (keepsTo_summarize _ _ _) fun _ => .pure _
    · exact .pure none

theorem keepsTo_writeReport (r : Report) :
    KeepsTo h (CoverageCommand s) (CoverageChange s)
      (writeReport h (resultPaths s).report r) := by
  refine .bind (.change (fun t => ?_) (.report _)) fun e => ?_
  · simp only [Change.on]
    split <;> simp_all [Except.toOption]
  · cases e <;> exact .pure _

theorem keepsTo_writeReportAnyway (r : Report) :
    KeepsTo h (CoverageCommand s) (CoverageChange s)
      (writeReportAnyway h (resultPaths s).report r) := by
  refine .bind (keepsTo_writeReport r) fun f => ?_
  cases f with
  | none => exact .pure ()
  | some f => exact .say _ _

theorem keepsTo_prepare :
    KeepsTo h (CoverageCommand s) (CoverageChange s) (prepare h (resultPaths s)).run := by
  refine .andThen (.lift (.change (fun _ => rfl) .ready)) fun e => ?_
  cases e with
  | some e => exact .pure _
  | none =>
    refine .andThen (.lift (.change (fun _ => rfl) .stale)) fun e => ?_
    cases e <;> exact .pure _

theorem keepsTo_conclude (ds : List Dataset) :
    KeepsTo h (CoverageCommand s) (CoverageChange s)
      (conclude h s.config s.root (resultPaths s) ds).run := by
  refine .andThen (.lift (.say _ _)) fun _ => .andThen (.lift (keepsTo_summarize _ _ _)) fun _ =>
    .andThen (.lift (keepsTo_writeReport _)) fun f => ?_
  cases f with
  | some f => exact .pure _
  | none =>
    refine .andThen (.lift (.say _ _)) fun _ => .andThen (.lift (.behind .page (.bind
      (.invoke ⟨rfl, .inr (.inl rfl)⟩) fun o => ?_))) fun r => ?_
    · split <;> exact .pure _
    · cases r <;> exact .pure _

theorem keepsTo_unify (ps : List Project) (patterns : List String) :
    KeepsTo h (CoverageCommand s) (CoverageChange s)
      (unify h s.config s.root ps patterns).run := by
  refine .andThen keepsTo_prepare fun _ => .andThen (.lift (.say _ _)) fun _ =>
    .andThen (.lift (.say _ _)) fun _ =>
      .andThen (.lift (keepsTo_datasets patterns ps)) fun ds => ?_
  unfold combine
  split
  · exact .andThen (.lift (keepsTo_writeReportAnyway _)) fun _ => .pure _
  · refine .andThen (.lift (.say _ _)) fun _ => .andThen (.lift (.behind .merge (.bind
      (.invoke coverageCommand_lcov) fun o => ?_))) fun r => ?_
    · split <;> exact .pure _
    · cases r with
      | error f => exact .andThen (.lift (keepsTo_writeReportAnyway _)) fun _ => .pure _
      | ok _ => exact keepsTo_conclude ds

theorem keepsTo_showAddress (url : String) (ls : List (String × List String)) (last : String)
    (hls : ∀ l ∈ ls, l ∈ launchers) :
    KeepsTo h (CoverageCommand s) (CoverageChange s) (showAddress h url ls last) := by
  induction ls generalizing last with
  | nil => exact .pure _
  | cons l ls ih =>
    refine .bind (.send ⟨rfl, .inr (.inr ⟨l, hls l List.mem_cons_self, rfl⟩)⟩) fun o => ?_
    cases o with
    | ok r => exact .pure _
    | error e => exact ih e.innermost fun l hl => hls l (List.mem_cons_of_mem _ hl)

theorem keepsTo_openPage (page : Path) :
    KeepsTo h (CoverageCommand s) (CoverageChange s) (openPage h page) := by
  refine .bind (.say _ _) fun _ => .bind (keepsTo_showAddress _ _ _ fun _ hl => hl) fun r => ?_
  cases r with
  | none => exact .pure ()
  | some reason => exact .bind (.say _ _) fun _ => .say _ _

/-- The whole phase keeps to the commands and changes of coverage. -/
theorem keepsTo_coveragePhase (selected : List String) (o : CoverageOptions) :
    KeepsTo h (CoverageCommand s) (CoverageChange s) (coveragePhase h s selected o).run := by
  have htell (made : Unified) :
      KeepsTo h (CoverageCommand s) (CoverageChange s) (tellResults s made) :=
    .of_silent fun m => (tellResults_runs h m s made).imp fun m' hm => ⟨(), hm⟩
  unfold coveragePhase
  generalize effectiveThreshold s.config o = threshold
  refine .andThen (.pure _) fun _ => keepsTo_requireTool fun lcov hname =>
    keepsTo_requireTool fun _ _ =>
      .andThen (.lift (keepsTo_tellVersion (hname ▸ coverageCommand_lcov))) fun _ =>
        .andThen ?_ fun ps => .andThen (.lift ?_) fun patterns => .andThen (.lift ?_) fun _ =>
          .andThen (keepsTo_unify ps patterns) fun made => .andThen (.lift (htell made)) fun _ => ?_
  · exact .of_silent fun m => (chosen_runs h m s selected).imp fun m' hm => ⟨_, _, hm⟩
  · exact .of_silent fun m => (loadPatterns_runs h m _).imp fun m' hm => ⟨_, _, hm⟩
  · exact .of_silent fun m => (s.remark_runs h m _).imp fun m' hm => ⟨_, _, hm⟩
  · by_cases ho : o.openPage
    · rw [if_pos ho]
      refine .andThen (.lift (keepsTo_openPage made.page)) fun _ => ?_
      cases threshold <;> exact .pure _
    · rw [if_neg ho]
      cases threshold <;> exact .pure _

end

end HostSuite.Suite
