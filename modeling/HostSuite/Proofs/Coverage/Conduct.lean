import HostSuite.Proofs.Coverage.Protocol

/-
  Unified coverage keeps to its protocol. Each step of a run is followed by what it sends, prints
  and changes: a capture by `CaptureWord`, a filter by `FilterWord`, the turn of a project by
  `TurnWord`, all turns by `LoopWord`, and what comes after them by `Ending`. The steps are put
  together in `unify_runs`; a run whose output directory cannot be made ready sends nothing
  (`unify_runs_unready`).
-/

namespace HostSuite.Coverage

open HostSuite.Action

variable (h : Host) (m : Machine)

theorem succeeded_outcome (x : Exchange) : succeeded x.outcome = x.succeeded := rfl

/-- A command whose success decides on the answer. -/
theorem decided_runs {α : Type} (c : Command) (good : α) (bad : Outcome → α) :
    ∃ m', Runs h (do
        let outcome ← invoke h c
        if succeeded outcome then return good else return bad outcome) m
        (if (m.exchange h c).succeeded then good else bad (m.exchange h c).outcome) m'
        [m.exchange h c] [] [] := by
  obtain ⟨m₁, hm₁⟩ := invoke_runs h m c
  refine ⟨m₁, hm₁.bind_silent ?_⟩
  generalize m.exchange h c = x
  rw [succeeded_outcome]
  by_cases hs : x.succeeded
  · rw [if_pos hs, if_pos hs]
    exact Runs.pure h m₁ good
  · rw [if_neg hs, if_neg hs]
    exact Runs.pure h m₁ _

/-! ## The turn of a project -/

theorem showDiagnostics_runs (d : Option String) :
    ∃ m', Runs h (showDiagnostics d) m () m' [] [] [] := by
  cases d with
  | none => exact ⟨m, Runs.pure h m ()⟩
  | some text => exact say_runs h m .err (indented text)

theorem warnSkipped_runs (p : Project) (reason : String) :
    ∃ m', Runs h (warnSkipped h p reason) m () m' [] [] [] :=
  warn_runs h m _

theorem captureIn_nil_runs (lcov : String) (p : Project) (last : Option String) :
    ∃ m', Runs h (captureIn h lcov p [] last) m none m' [] [] [] := by
  obtain ⟨m₁, hm₁⟩ := warnSkipped_runs h m p "capture failed in strict and permissive mode"
  obtain ⟨m₂, hm₂⟩ := showDiagnostics_runs h m₁ last
  unfold captureIn
  exact ⟨m₂, hm₁.bind (hm₂.bind (Runs.pure h m₂ none))⟩

/-- One attempt at a capture. It gives the raw tracefile, or ends the capture when it could not be
launched, or, having run and failed, leaves the capture to the attempts after it. -/
theorem captureIn_cons_runs (lcov : String) (p : Project) (s : Strictness)
    (more : List Strictness) (last : Option String) :
    ∃ x : Exchange, x.command = captureCommand lcov p s ∧
      ((x.succeeded = true ∧ ∃ m', Runs h (captureIn h lcov p (s :: more) last) m
          (some (rawTracefile p)) m' [x] [] []) ∨
        (x.launched = false ∧
          ∃ m', Runs h (captureIn h lcov p (s :: more) last) m none m' [x] [] []) ∨
        (x.launched = true ∧ x.succeeded = false ∧ ∃ m₁ d, ∀ r m' xs,
          Runs h (captureIn h lcov p more d) m₁ r m' xs [] [] →
            Runs h (captureIn h lcov p (s :: more) last) m r m' (x :: xs) [] [])) := by
  refine ⟨m.exchange h (captureCommand lcov p s), rfl, ?_⟩
  rw [captureIn.eq_def]
  obtain ⟨m₁, hm₁⟩ := invoke_runs h m (captureCommand lcov p s)
  generalize m.exchange h (captureCommand lcov p s) = x at hm₁
  cases ho : x.outcome with
  | error e =>
    rw [ho] at hm₁
    obtain ⟨m₂, hm₂⟩ := warnSkipped_runs h m₁ p e.chain
    refine Or.inr (Or.inl ⟨by rw [Exchange.launched, ho]; rfl, m₂, ?_⟩)
    exact hm₁.bind (hm₂.bind (Runs.pure h m₂ none))
  | ok r =>
    rw [ho] at hm₁
    cases hs : r.success with
    | true =>
      refine Or.inl ⟨by rw [Exchange.succeeded, ho]; exact hs, m₁, ?_⟩
      refine hm₁.bind ?_
      simp only [hs, if_true]
      exact Runs.pure h m₁ _
    | false =>
      refine Or.inr (Or.inr ⟨by rw [Exchange.launched, ho]; rfl,
        by rw [Exchange.succeeded, ho]; exact hs, m₁, r.diagnostics, ?_⟩)
      intro o m' xs hm'
      refine hm₁.bind ?_
      simp only [hs, Bool.false_eq_true, if_false]
      exact hm'

/-- A capture is at most two attempts, and gives the raw tracefile exactly if one of them
succeeded. -/
theorem capture_runs (lcov : String) (p : Project) :
    ∃ m' xs got, Runs h (capture h lcov p) m (if got then some (rawTracefile p) else none) m'
        xs [] [] ∧ CaptureWord lcov p xs got := by
  unfold capture Strictness.attempts
  obtain ⟨x, hx, ⟨hs, m', hm'⟩ | ⟨hl, m', hm'⟩ | ⟨hl, hs, m₁, d, hmore⟩⟩ :=
    captureIn_cons_runs h m lcov p .strict [.permissive] none
  · exact ⟨m', [x], true, hm', .strict hx hs⟩
  · exact ⟨m', [x], false, hm', .unlaunched hx hl⟩
  · -- The second attempt ends the capture in each of its cases.
    obtain ⟨y, hy, ⟨hs', m', hm'⟩ | ⟨hl', m', hm'⟩ | ⟨-, hs', m₂, d', hlast⟩⟩ :=
      captureIn_cons_runs h m₁ lcov p .permissive [] d
    · refine ⟨m', [x, y], y.succeeded, ?_, .permissive hx hl hs hy⟩
      rw [hs']
      exact hmore _ _ _ hm'
    · have hs' := Exchange.not_succeeded_of_not_launched hl'
      refine ⟨m', [x, y], y.succeeded, ?_, .permissive hx hl hs hy⟩
      rw [hs']
      exact hmore _ _ _ hm'
    · obtain ⟨m', hm'⟩ := captureIn_nil_runs h m₂ lcov p d'
      refine ⟨m', [x, y], y.succeeded, ?_, .permissive hx hl hs hy⟩
      rw [hs']
      exact hmore _ _ _ (hlast _ _ _ hm')

theorem filter_runs (lcov : String) (p : Project) (patterns : List String) :
    ∃ m' xs f, Runs h (filter h lcov p (rawTracefile p) patterns) m f m' xs [] [] ∧
      FilterWord lcov p patterns xs (f.getD (rawTracefile p)) := by
  unfold filter
  by_cases hp : patterns = []
  · rw [if_pos (by rw [hp]; rfl)]
    exact ⟨m, [], none, Runs.pure h m none, .unfiltered hp⟩
  · rw [if_neg (by simpa using hp)]
    obtain ⟨m₁, hm₁⟩ := invoke_runs h m (filterCommand lcov p (rawTracefile p) patterns)
    have hword : FilterWord lcov p patterns
        [m.exchange h (filterCommand lcov p (rawTracefile p) patterns)] _ := .tried hp rfl
    generalize m.exchange h (filterCommand lcov p (rawTracefile p) patterns) = x at hm₁ hword
    by_cases hs : x.succeeded
    · refine ⟨m₁, [x], some (filteredTracefile p), hm₁.bind ?_, by simpa [hs] using hword⟩
      rw [succeeded_outcome, if_pos hs]
      exact Runs.pure h m₁ _
    · obtain ⟨m₂, hm₂⟩ := warn_runs h m₁
        ("Filtering failed for " ++ p.name ++ "; using unfiltered coverage")
      obtain ⟨m₃, hm₃⟩ := showDiagnostics_runs h m₂ (troubleOf x.outcome)
      refine ⟨m₃, [x], none, hm₁.bind ?_, by simpa [hs] using hword⟩
      rw [succeeded_outcome, if_neg hs]
      exact hm₂.bind (hm₃.bind (Runs.pure h m₃ none))

theorem summarize_runs (lcov : String) (dataset : Path) (label : String) (cwd : Path) :
    ∃ m' z, Runs h (summarize h lcov dataset label cwd) m (summaryOf label z.outcome) m' [z] []
        [(summaryOf label z.outcome).render] ∧ z.command = summaryCommand lcov dataset cwd := by
  obtain ⟨m₁, hm₁⟩ := invoke_runs h m (summaryCommand lcov dataset cwd)
  obtain ⟨m₂, hm₂⟩ := say_runs h m₁ .out
    (summaryOf label (m.exchange h (summaryCommand lcov dataset cwd)).outcome).render
  exact ⟨m₂, _, hm₁.bind (hm₂.bind (Runs.pure h m₂ _)), rfl⟩

theorem collect_runs (lcov : String) (p : Project) (patterns : List String) :
    (∃ m' xs, Runs h (collect h lcov p patterns) m none m' xs [] [] ∧ CaptureWord lcov p xs false) ∨
      ∃ m' xs ys k, Runs h (collect h lcov p patterns) m (some k) m' (xs ++ ys) [] [] ∧
        CaptureWord lcov p xs true ∧ FilterWord lcov p patterns ys k.effective := by
  unfold collect
  obtain ⟨m₁, xs, got, hm₁, hxs⟩ := capture_runs h m lcov p
  cases got with
  | false =>
    replace hm₁ : Runs h (capture h lcov p) m none m₁ xs [] [] := hm₁
    exact Or.inl ⟨m₁, xs, hm₁.bind_silent (Runs.pure h m₁ none), hxs⟩
  | true =>
    replace hm₁ : Runs h (capture h lcov p) m (some (rawTracefile p)) m₁ xs [] [] := hm₁
    obtain ⟨m₂, ys, f, hm₂, hys⟩ := filter_runs h m₁ lcov p patterns
    refine Or.inr ⟨m₂, xs, ys, ⟨rawTracefile p, f⟩, hm₁.bind ?_, hxs, hys⟩
    exact hm₂.bind_silent (Runs.pure h m₂ _)

theorem dataset_runs (c : Config) (patterns : List String) (p : Project) :
    ∃ m' xs d, Runs h (dataset h c patterns p) m d m' xs []
        (d.toList.map fun d => d.summary.render) ∧
      TurnWord h.workingDir c.tools.lcov patterns m.tree p xs d := by
  unfold dataset
  cases hb : p.isBuilt m.tree h.workingDir with
  | false =>
    refine ⟨m, [], none, (Runs.get h m).bind ?_, .unbuilt hb⟩
    rw [if_neg (Bool.eq_false_iff.mp hb)]
    exact Runs.pure h m none
  | true =>
    obtain ⟨m₁, xs, hm₁, hxs⟩ | ⟨m₁, xs, ys, k, hm₁, hxs, hys⟩ :=
      collect_runs h m c.tools.lcov p patterns
    · refine ⟨m₁, xs, none, (Runs.get h m).bind ?_, .uncaptured hb hxs⟩
      rw [if_pos hb]
      exact hm₁.bind_silent (Runs.pure h m₁ none)
    · obtain ⟨m₂, z, hm₂, hz⟩ := summarize_runs h m₁ c.tools.lcov k.effective p.name p.root
      refine ⟨m₂, xs ++ ys ++ [z], _, (Runs.get h m).bind ?_, .captured hb hxs hys hz⟩
      rw [if_pos hb]
      exact hm₁.bind (hm₂.bind (Runs.pure h m₂ _))

/-- Over the projects: each turn starts on the tree that the one before left. -/
theorem datasets_runs (c : Config) (patterns : List String) (ps : List Project) :
    ∃ m' xs ds, Runs h (datasets h c patterns ps) m ds m' xs []
        (ds.map fun d => d.summary.render) ∧
      LoopWord h.workingDir c.tools.lcov patterns m.tree ps xs ds := by
  induction ps generalizing m with
  | nil => exact ⟨m, [], [], Runs.pure h m [], .nil m.tree⟩
  | cons p ps ih =>
    obtain ⟨m₁, xs, d, hm₁, hp⟩ := dataset_runs h m c patterns p
    obtain ⟨m₂, ys, ds, hm₂, hps⟩ := ih m₁
    refine ⟨m₂, xs ++ ys, d.toList ++ ds, ?_, .cons hp (hm₁.tree ▸ hps)⟩
    rw [List.map_append]
    exact hm₁.bind (hm₂.bind_silent (Runs.pure h m₂ _))

/-! ## The report and the page -/

/-- The failure of a report that could not be written. -/
def unwrittenFailure (p : Path) (e : IoError) : Failure :=
  .other ("Failed to write summary to " ++ p.text) [e.message]

theorem writeReport_runs (p : Path) (q : Report) :
    ∃ m' e, Runs h (writeReport h p q) m (e.map (unwrittenFailure p)) m' []
        [.writeText p q.render] [] ∧
      m'.tree = (Change.writeText p q.render).on h m.tree ∧
      ∀ err, e = some err ↔ m.tree.write h.workingDir p (Text.encode q.render) = .error err := by
  obtain ⟨m₁, e, hm₁, ht, he⟩ := writeText_runs h m p q.render
  refine ⟨m₁, e, hm₁.bind_silent ?_, ht, he⟩
  cases e with
  | none => exact Runs.pure h m₁ none
  | some err => exact Runs.pure h m₁ _

theorem writeReportAnyway_runs (p : Path) (q : Report) :
    ∃ m', Runs h (writeReportAnyway h p q) m () m' [] [.writeText p q.render] [] ∧
      m'.tree = (Change.writeText p q.render).on h m.tree := by
  obtain ⟨m₁, e, hm₁, ht, -⟩ := writeReport_runs h m p q
  cases e with
  | none => exact ⟨m₁, hm₁.bind_silent (Runs.pure h m₁ ()), ht⟩
  | some err =>
    obtain ⟨m₂, hm₂⟩ := warn_runs h m₁ (unwrittenFailure p err).chain
    exact ⟨m₂, hm₁.bind_silent hm₂, hm₂.tree.trans ht⟩

theorem renderHtml_runs (genhtml : String) (tracefile dir : Path) (title : String) (cwd : Path) :
    ∃ m' z, Runs h (renderHtml h genhtml tracefile dir title cwd) m
        (if z.succeeded then .ok (dir.join "index.html")
          else .error (.reportFailure tracefile (troubleOf z.outcome))) m' [z] [] [] ∧
      z = m.exchange h (htmlCommand genhtml tracefile dir title cwd) := by
  obtain ⟨m₁, hm₁⟩ := decided_runs h m (htmlCommand genhtml tracefile dir title cwd)
    (Except.ok (dir.join "index.html"))
    fun o => Except.error (Fault.reportFailure tracefile (troubleOf o))
  exact ⟨m₁, _, hm₁, rfl⟩

/-- Nothing but the drawing of the spinner is new when a page is waited for. -/
theorem renderPage_runs (c : Config) (root : Path) (paths : OutputPaths) :
    ∃ m' z, Runs h (renderPage h c root paths) m
        (if z.succeeded then .ok (paths.html.join "index.html")
          else .error (.reportFailure paths.unified (troubleOf z.outcome))) m' [z] [] [] ∧
      z = m.exchange h
        (htmlCommand c.tools.genhtml paths.unified paths.html c.coverage.title root) := by
  obtain ⟨_, z, hm, hz⟩ := renderHtml_runs h m c.tools.genhtml paths.unified paths.html
    c.coverage.title root
  obtain ⟨m', hm'⟩ := behind_runs h m .page hm
  exact ⟨m', z, hm', hz⟩

theorem pageNote_eq (paths : OutputPaths) :
    pageNote paths = "\nGenerating HTML report in " ++ paths.html.text ++ "..." ++ "\n" := by
  unfold pageNote
  rw [show "...\n" = "..." ++ "\n" from rfl, ← String.append_assoc]

theorem publish_runs (c : Config) (root : Path) (paths : OutputPaths) (ds : List Dataset)
    (y : Exchange) :
    ∃ m' z, Runs h (publish h c root paths (ds.map Dataset.tracefile)
        (summaryOf unifiedLabel y.outcome)).run m (pageResult paths ds y z) m' [z] []
        [pageNote paths] ∧
      z.command =
        htmlCommand c.tools.genhtml paths.unified paths.html c.coverage.title root := by
  obtain ⟨m₁, hm₁⟩ := sayLine_runs h m ("\nGenerating HTML report in " ++ paths.html.text ++ "...")
  obtain ⟨m₂, z, hm₂, hz⟩ := renderPage_runs h m₁ c root paths
  refine ⟨m₂, z, ?_, congrArg Exchange.command hz⟩
  rw [pageNote_eq]
  refine hm₁.lift.bind_ok (hm₂.lift.bind_ok ?_)
  unfold pageResult
  by_cases hs : z.succeeded
  · rw [if_pos hs, if_pos hs]
    exact Runs.ok h m₂ _
  · rw [if_neg hs, if_neg hs]
    exact Runs.throw h m₂ _

theorem merge_runs (lcov : String) (inputs : List Path) (output cwd : Path) :
    ∃ m' x, Runs h (merge h lcov inputs output cwd) m
        (if x.succeeded then .ok ()
          else .error (.mergeFailure inputs (troubleOf x.outcome))) m' [x] [] [] ∧
      x = m.exchange h (mergeCommand lcov inputs output cwd) := by
  obtain ⟨m₁, hm₁⟩ := decided_runs h m (mergeCommand lcov inputs output cwd) (Except.ok ())
    fun o => Except.error (Fault.mergeFailure inputs (troubleOf o))
  exact ⟨m₁, _, hm₁, rfl⟩

theorem mergeAll_runs (c : Config) (root : Path) (paths : OutputPaths) (ds : List Dataset) :
    ∃ m' x, Runs h (mergeAll h c root paths ds) m
        (if x.succeeded then .ok ()
          else .error (.mergeFailure (ds.map Dataset.tracefile) (troubleOf x.outcome))) m' [x]
        [] [] ∧
      x = m.exchange h
        (mergeCommand c.tools.lcov (ds.map Dataset.tracefile) paths.unified root) := by
  obtain ⟨_, x, hm, hx⟩ := merge_runs h m c.tools.lcov (ds.map Dataset.tracefile) paths.unified
    root
  obtain ⟨m', hm'⟩ := behind_runs h m .merge hm
  exact ⟨m', x, hm', hx⟩

/-! ## The end of a run -/

/-- The tree after some exchanges between which, after so many of them, the report is written. -/
def treeWith (paths : OutputPaths) (q : Report) (count : Nat) (t : Tree) (xs : List Exchange) :
    Tree :=
  treeAfter ((Change.writeText paths.report q.render).on h (treeAfter t (xs.take count)))
    (xs.drop count)

/-- The report is written after the first command, the summary. -/
theorem conclude_runs (c : Config) (root : Path) (paths : OutputPaths) (ds : List Dataset) :
    ∃ m' xs ts q r, Runs h (conclude h c root paths ds).run m r m' xs
        [.writeText paths.report q.render] ts ∧
      Conclusion h c root paths ds xs ts q r ∧ m'.tree = treeWith h paths q 1 m.tree xs := by
  obtain ⟨m₁, hm₁⟩ := sayLine_runs h m ""
  obtain ⟨m₂, y, hm₂, hy⟩ := summarize_runs h m₁ c.tools.lcov paths.unified unifiedLabel root
  obtain ⟨m₃, e, hm₃, ht, he⟩ := writeReport_runs h m₂ paths.report (fullReport h ds y)
  rw [hm₂.tree] at he
  rw [hm₂.tree, hm₁.tree, treeAfter_nil] at ht
  cases e with
  | some err =>
    refine ⟨m₃, _, _, _, _, ?_, .unwritten hy ((he err).mp rfl), ht⟩
    exact hm₁.lift.bind_ok (hm₂.lift.bind_ok (hm₃.lift.bind_ok (Runs.throw h m₃ _)))
  | none =>
    obtain ⟨m₄, z, hm₄, hz⟩ := publish_runs h m₃ c root paths ds y
    cases hw : writing h paths ds y with
    | error err => cases (he err).mpr hw
    | ok t =>
      refine ⟨m₄, _, _, _, _, ?_, .rendered hy hw hz, ?_⟩
      · exact hm₁.lift.bind_ok (hm₂.lift.bind_ok (hm₃.lift.bind_ok hm₄))
      · rw [hm₄.tree, ht]
        rfl

/-- The report is written after the merge and the unified summary, as far as these are sent. -/
theorem combine_runs (c : Config) (root : Path) (paths : OutputPaths) (ds : List Dataset) :
    ∃ m' xs ts q r, Runs h (combine h c root paths ds).run m r m' xs
        [.writeText paths.report q.render] ts ∧
      Ending h c root paths ds xs ts q r ∧ m'.tree = treeWith h paths q 2 m.tree xs := by
  unfold combine
  by_cases hd : ds = []
  · rw [if_pos (by rw [hd]; rfl)]
    obtain ⟨m₁, hm₁, ht⟩ := writeReportAnyway_runs h m paths.report (reportOf h ds)
    refine ⟨m₁, _, _, _, _, ?_, .noData hd, ht⟩
    exact hm₁.lift.bind_ok (Runs.throw h m₁ _)
  · rw [if_neg (by simpa using hd)]
    obtain ⟨m₁, hm₁⟩ := sayLine_runs h m "\nMerging coverage data..."
    obtain ⟨m₂, x, hm₂, hx⟩ := mergeAll_runs h m₁ c root paths ds
    replace hx := congrArg Exchange.command hx
    by_cases hs : x.succeeded
    · rw [if_pos hs] at hm₂
      obtain ⟨m₃, xs, ts, q, r, hm₃, hc, ht⟩ := conclude_runs h m₂ c root paths ds
      rw [hm₂.tree, hm₁.tree, treeAfter_nil] at ht
      refine ⟨m₃, _, _, _, _, ?_, .merged hd hx hs hc, ht⟩
      exact hm₁.lift.bind_ok (hm₂.lift.bind_ok hm₃)
    · rw [if_neg hs] at hm₂
      obtain ⟨m₃, hm₃, ht⟩ := writeReportAnyway_runs h m₂ paths.report (reportOf h ds)
      rw [hm₂.tree, hm₁.tree, treeAfter_nil] at ht
      refine ⟨m₃, _, _, _, _, ?_, .unmerged hd hx (Bool.eq_false_iff.mpr hs), ht⟩
      exact hm₁.lift.bind_ok (hm₂.lift.bind_ok (hm₃.lift.bind_ok (Runs.throw h m₃ _)))

/-! ## The beginning of a run -/

/-- The output directory can be made ready on a tree. -/
structure OutputReady (h : Host) (paths : OutputPaths) (t : Tree) : Prop where
  dir : (t.ensureDir h.workingDir paths.dir).2 = none
  unified : (((Change.readyDir paths.dir).on h t).removeFileIfThere h.workingDir
    paths.unified).2 = none

/-- The tree once the output directory is ready. -/
def preparedTree (h : Host) (paths : OutputPaths) (t : Tree) : Tree :=
  (Change.removeFile paths.unified).on h ((Change.readyDir paths.dir).on h t)

theorem prepare_runs (paths : OutputPaths) (hr : OutputReady h paths m.tree) :
    ∃ m', Runs h (prepare h paths).run m (.ok ()) m' []
        [.readyDir paths.dir, .removeFile paths.unified] [] ∧
      m'.tree = preparedTree h paths m.tree := by
  obtain ⟨m₁, hm₁, ht₁⟩ := readyDir_runs h m paths.dir
  obtain ⟨m₂, hm₂, ht₂⟩ := removeFile_runs h m₁ paths.unified
  rw [hr.dir] at hm₁
  rw [ht₁] at hm₂ ht₂
  rw [hr.unified] at hm₂
  exact ⟨m₂, hm₁.lift.bind_ok (hm₂.lift.bind_ok (Runs.ok h m₂ ())), ht₂⟩

/-- Why the output directory is not ready. -/
inductive Unready (paths : OutputPaths) : Failure → Prop
  | dir (e : IoError) :
      Unready paths (.other ("Failed to create directory: " ++ paths.dir.text) [e.message])
  | unified (e : IoError) :
      Unready paths (.fault (.config ("Failed to remove previous " ++ paths.unified.text ++ ": " ++
        e.message) none))

/-- Without a ready directory the preparation fails, before anything is sent or printed. -/
theorem prepare_runs_unready (paths : OutputPaths) (hr : ¬OutputReady h paths m.tree) :
    ∃ m' f cs, Runs h (prepare h paths).run m (.error f) m' [] cs [] ∧
      cs <+: [.readyDir paths.dir, .removeFile paths.unified] ∧ Unready paths f := by
  obtain ⟨m₁, hm₁, ht₁⟩ := readyDir_runs h m paths.dir
  cases hd : (m.tree.ensureDir h.workingDir paths.dir).2 with
  | some e =>
    rw [hd] at hm₁
    exact ⟨m₁, _, _, hm₁.lift.bind_ok (Runs.throw h m₁ _), ⟨_, rfl⟩, .dir e⟩
  | none =>
    obtain ⟨m₂, hm₂, -⟩ := removeFile_runs h m₁ paths.unified
    rw [hd] at hm₁
    rw [ht₁] at hm₂
    cases hu : (((Change.readyDir paths.dir).on h m.tree).removeFileIfThere h.workingDir
        paths.unified).2 with
    | none => exact absurd ⟨hd, hu⟩ hr
    | some e =>
      rw [hu] at hm₂
      exact ⟨m₂, _, _, hm₁.lift.bind_ok (hm₂.lift.bind_ok (Runs.throw h m₂ _)),
        List.prefix_refl _, .unified e⟩

/-- What a run puts on the output in front of the sections. -/
def opening : List String := [h.style.bold (banner "Generating Coverage Reports") ++ "\n", "\n"]

/-- A run makes its directory ready and goes through the protocol. -/
theorem unify_runs (c : Config) (root : Path) (ps : List Project) (patterns : List String)
    (hr : OutputReady h (OutputPaths.inDir (c.outputDir root)) m.tree) :
    ∃ m' xs ds zs ts q r, Runs h (unify h c root ps patterns).run m r m' (xs ++ zs)
        [.readyDir (c.outputDir root), .removeFile ((c.outputDir root).join unifiedName),
          .writeText ((c.outputDir root).join reportName) q.render]
        (opening h ++ ds.map (fun d => d.summary.render) ++ ts) ∧
      LoopWord h.workingDir c.tools.lcov patterns
        (preparedTree h (OutputPaths.inDir (c.outputDir root)) m.tree) ps xs ds ∧
      Ending h c root (OutputPaths.inDir (c.outputDir root)) ds zs ts q r ∧
      m'.tree = treeWith h (OutputPaths.inDir (c.outputDir root)) q 2
        (treeAfter (preparedTree h (OutputPaths.inDir (c.outputDir root)) m.tree) xs) zs := by
  obtain ⟨m₁, hm₁, ht₁⟩ := prepare_runs h m _ hr
  obtain ⟨m₂, hm₂⟩ := announce_runs h m₁ "Generating Coverage Reports"
  obtain ⟨m₃, hm₃⟩ := sayLine_runs h m₂ ""
  obtain ⟨m₄, xs, ds, hm₄, hloop⟩ := datasets_runs h m₃ c patterns ps
  obtain ⟨m₅, zs, ts, q, r, hm₅, hend, ht₅⟩ := combine_runs h m₄ c root
    (OutputPaths.inDir (c.outputDir root)) ds
  have ht₃ : m₃.tree = preparedTree h (OutputPaths.inDir (c.outputDir root)) m.tree := by
    rw [hm₃.tree, treeAfter_nil, hm₂.tree, treeAfter_nil, ht₁]
  rw [ht₃] at hloop
  rw [hm₄.tree, ht₃] at ht₅
  refine ⟨m₅, xs, ds, zs, ts, q, r, ?_, hloop, hend, ht₅⟩
  have : Runs h (unify h c root ps patterns).run m r m₅ _ _ _ :=
    hm₁.bind_ok (hm₂.lift.bind_ok (hm₃.lift.bind_ok (hm₄.lift.bind_ok hm₅)))
  simpa [opening, OutputPaths.inDir] using this

/-- What a run sends once its directory is ready is a word of the protocol: the turns of the
projects, each in the root of its project, and an ending in the root of the suite. No other word is
answered like it. -/
theorem unify_keeps_protocol (c : Config) (root : Path) (ps : List Project)
    (patterns : List String) (hr : OutputReady h (OutputPaths.inDir (c.outputDir root)) m.tree) :
    ∃ m' xs ds zs cs ts us q r, Runs h (unify h c root ps patterns).run m r m' (xs ++ zs) cs ts ∧
      m'.commands = m.commands ++ (xs ++ zs).map Exchange.command ∧
      LoopWord h.workingDir c.tools.lcov patterns
        (preparedTree h (OutputPaths.inDir (c.outputDir root)) m.tree) ps xs ds ∧
      Ending h c root (OutputPaths.inDir (c.outputDir root)) ds zs us q r ∧
      (∃ stretches : List (List Exchange), stretches.flatten = xs ∧
        List.Forall₂ (fun p ys => ∀ y ∈ ys, y.command.cwd = p.root) ps stretches) ∧
      (∀ z ∈ zs, z.command.cwd = root) ∧
      ∀ xs' ds' zs' us' q' r',
        LoopWord h.workingDir c.tools.lcov patterns
          (preparedTree h (OutputPaths.inDir (c.outputDir root)) m.tree) ps xs' ds' →
        Ending h c root (OutputPaths.inDir (c.outputDir root)) ds' zs' us' q' r' →
        Alike (xs ++ zs) (xs' ++ zs') → xs' = xs ∧ zs' = zs := by
  obtain ⟨m', xs, ds, zs, ts, q, r, hm, hl, he, -⟩ := unify_runs h m c root ps patterns hr
  refine ⟨m', xs, ds, zs, _, _, ts, q, r, hm, hm.commands, hl, he, hl.cwd, he.cwd, ?_⟩
  intro xs' ds' zs' us' q' r' hl' he' halike
  obtain ⟨rfl, rfl⟩ := hl.unique hl' halike
  exact ⟨rfl, (he.unique he' halike.append_left).symm⟩

/-- A suite at the top with one project, which is built. -/
def sampleTree : Tree := (Tree.empty.set ["a"] (.dir 0o755)).set ["a", "build"] (.dir 0o755)

/-- Every tool succeeds and changes nothing. -/
def sampleHost : Host where
  runner := fun _ _ t => ⟨.ok ⟨true, 0, "", "", 0, none⟩, t, []⟩

theorem outputReady_sample :
    OutputReady sampleHost (OutputPaths.inDir (({} : Config).outputDir ⟨"/"⟩)) sampleTree where
  dir := by decide +kernel
  unified := by decide +kernel

theorem unify_keeps_protocol_sample :
    OutputReady sampleHost (OutputPaths.inDir (({} : Config).outputDir ⟨"/"⟩)) sampleTree ∧
      ∃ m' xs zs cs ts r, Runs sampleHost (unify sampleHost {} ⟨"/"⟩ [.inDir ⟨"/a"⟩ "build"] []).run
          ⟨sampleTree, [], 0⟩ r m' (xs ++ zs) cs ts ∧
        ∀ z ∈ zs, z.command.cwd = ⟨"/"⟩ := by
  refine ⟨outputReady_sample, ?_⟩
  obtain ⟨m', xs, ds, zs, cs, ts, us, q, r, hm, -, -, -, -, hcwd, -⟩ :=
    unify_keeps_protocol sampleHost ⟨sampleTree, [], 0⟩ {} ⟨"/"⟩ [.inDir ⟨"/a"⟩ "build"] []
      outputReady_sample
  exact ⟨m', xs, zs, cs, ts, r, hm, hcwd⟩

/-- A run whose directory cannot be made ready ends there. -/
theorem unify_runs_unready (c : Config) (root : Path) (ps : List Project) (patterns : List String)
    (hr : ¬OutputReady h (OutputPaths.inDir (c.outputDir root)) m.tree) :
    ∃ m' f cs, Runs h (unify h c root ps patterns).run m (.error f) m' [] cs [] ∧
      cs <+: [.readyDir (c.outputDir root), .removeFile ((c.outputDir root).join unifiedName)] ∧
      Unready (OutputPaths.inDir (c.outputDir root)) f := by
  obtain ⟨m₁, f, cs, hm₁, hcs, hf⟩ := prepare_runs_unready h m _ hr
  exact ⟨m₁, f, cs, hm₁.bind_error, hcs, hf⟩

end HostSuite.Coverage
