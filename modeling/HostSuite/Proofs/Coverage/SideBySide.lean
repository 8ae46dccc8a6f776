import HostSuite.Coverage.Unified
import HostSuite.Proofs.Machine.Twofold

/-
  Coverage on two hosts, by the rules that all judgements on two runs keep. The turns of the
  projects, the merge, the summaries and the page only send commands and show things, and whether a
  project has been built is all they read of the tree. Each of their commands has several arguments.
-/

namespace HostSuite.Coverage

section

variable {h h' : Host} {T : Tree → Tree → Prop} {C : Command → Prop}
  {R : (α : Type) → Action α → Action α → Prop} (hR : Twofold h h' T C R)

include hR

theorem twofold_showDiagnostics (d : Option String) :
    R Unit (showDiagnostics d) (showDiagnostics d) := by
  cases d with
  | none => exact hR.pure ()
  | some text => exact hR.say fun _ => lineEnded_indented text

/-- The beginning of a run, where both of its changes are judged. -/
theorem twofold_prepare {paths : OutputPaths}
    (hready : R _ (Action.readyDir h paths.dir) (Action.readyDir h' paths.dir))
    (hremove : R _ (Action.removeFile h paths.unified) (Action.removeFile h' paths.unified)) :
    R _ (prepare h paths).run (prepare h' paths).run := by
  refine hR.andThen (hR.lift hready) fun e => ?_
  cases e with
  | some e => exact hR.pure _
  | none =>
    refine hR.andThen (hR.lift hremove) fun e => ?_
    cases e <;> exact hR.pure _

variable (hC : ∀ c : Command, 1 < c.args.length → C c)

include hC

/-- Over the ways in which a capture is tried. -/
theorem twofold_captureIn (lcov : String) (p : Project) (ways : List Strictness)
    (last : Option String) :
    R _ (captureIn h lcov p ways last) (captureIn h' lcov p ways last) := by
  induction ways generalizing last with
  | nil =>
    unfold captureIn
    exact hR.bind (hR.notify _ _) fun _ =>
      hR.bind (twofold_showDiagnostics hR last) fun _ => hR.pure none
  | cons s more ih =>
    have hargs : 1 < (captureCommand lcov p s).args.length := by
      simp [captureCommand, Command.arg, Command.pathArg, Command.addArgs, Command.new]
    unfold captureIn
    refine hR.bind (hR.invoke (hC _ hargs)) fun o => ?_
    cases o with
    | error e => exact hR.bind (hR.notify _ _) fun _ => hR.pure none
    | ok r =>
      dsimp only
      split
      · exact hR.pure _
      · exact ih r.diagnostics

theorem twofold_filter (lcov : String) (p : Project) (raw : Path) (patterns : List String) :
    R _ (filter h lcov p raw patterns) (filter h' lcov p raw patterns) := by
  have hargs : 1 < (filterCommand lcov p raw patterns).args.length := by
    simp [filterCommand, Command.arg, Command.pathArg, Command.addArgs, Command.new]
  unfold filter
  split
  · exact hR.pure none
  · refine hR.bind (hR.invoke (hC _ hargs)) fun o => ?_
    split
    · exact hR.pure _
    · exact hR.bind (hR.notify _ _) fun _ =>
        hR.bind (twofold_showDiagnostics hR _) fun _ => hR.pure none

theorem twofold_collect (lcov : String) (p : Project) (patterns : List String) :
    R _ (collect h lcov p patterns) (collect h' lcov p patterns) := by
  refine hR.bind (twofold_captureIn hR hC lcov p _ none) fun raw => ?_
  cases raw with
  | none => exact hR.pure none
  | some raw => exact hR.bind (twofold_filter hR hC lcov p raw patterns) fun _ => hR.pure _

theorem twofold_summarize (lcov : String) (dataset : Path) (label : String) (cwd : Path) :
    R _ (summarize h lcov dataset label cwd) (summarize h' lcov dataset label cwd) :=
  hR.bind (hR.invoke (hC _ (by simp [summaryCommand, Command.arg, Command.pathArg,
    Command.addArgs, Command.new]))) fun _ => hR.bind (hR.sayOut _) fun _ => hR.pure _

theorem twofold_merge (lcov : String) (inputs : List Path) (output cwd : Path) :
    R _ (merge h lcov inputs output cwd) (merge h' lcov inputs output cwd) := by
  have hargs : 1 < (mergeCommand lcov inputs output cwd).args.length := by
    simp [mergeCommand, Command.arg, Command.pathArg, Command.addArgs, Command.new]
  refine hR.bind (hR.invoke (hC _ hargs)) fun o => ?_
  split <;> exact hR.pure _

theorem twofold_mergeAll (c : Config) (root : Path) (paths : OutputPaths) (ds : List Dataset) :
    R _ (mergeAll h c root paths ds) (mergeAll h' c root paths ds) :=
  hR.behind .merge (twofold_merge hR hC _ _ _ _)

theorem twofold_renderPage (c : Config) (root : Path) (paths : OutputPaths) :
    R _ (renderPage h c root paths) (renderPage h' c root paths) := by
  refine hR.behind .page (hR.bind (hR.invoke (hC _ (by simp [htmlCommand, Command.arg,
    Command.pathArg, Command.addArgs, Command.new]))) fun o => ?_)
  split <;> exact hR.pure _

theorem twofold_publish (c : Config) (root : Path) (paths : OutputPaths) (merged : List Path)
    (summary : Summary) :
    R _ (publish h c root paths merged summary).run
      (publish h' c root paths merged summary).run := by
  refine hR.andThen (hR.lift (hR.sayOut _)) fun _ =>
    hR.andThen (hR.lift (twofold_renderPage hR hC c root paths)) fun r => ?_
  cases r with
  | error f => exact hR.pure _
  | ok page => exact hR.pure _

variable (hbuilt : ∀ t t', T t t' → ∀ p : Path, t'.isDir h.workingDir p = t.isDir h.workingDir p)

include hbuilt

theorem twofold_dataset (c : Config) (patterns : List String) (p : Project) :
    R _ (dataset h c patterns p) (dataset h' c patterns p) := by
  refine hR.get fun m m' ht => ?_
  have hsame : p.isBuilt m'.tree h'.workingDir = p.isBuilt m.tree h.workingDir := by
    rw [hR.workingDir]
    exact hbuilt _ _ ht p.buildDir
  rw [hsame]
  split
  · refine hR.bind (twofold_collect hR hC _ p patterns) fun captured => ?_
    cases captured with
    | none => exact hR.pure none
    | some captured =>
      exact hR.bind (twofold_summarize hR hC _ _ _ _) fun _ => hR.pure _
  · exact hR.pure none

/-- The turns of the projects. -/
theorem twofold_datasets (c : Config) (patterns : List String) (ps : List Project) :
    R _ (datasets h c patterns ps) (datasets h' c patterns ps) := by
  induction ps with
  | nil => exact hR.pure []
  | cons p ps ih =>
    exact hR.bind (twofold_dataset hR hC hbuilt c patterns p) fun _ =>
      hR.bind ih fun _ => hR.pure _

end

end HostSuite.Coverage
