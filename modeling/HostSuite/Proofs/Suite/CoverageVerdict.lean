import Mathlib.Data.List.Nodup
import HostSuite.Proofs.Coverage.MergeInputs
import HostSuite.Proofs.Coverage.Report
import HostSuite.Proofs.Suite.Phase

/-
  What decides on a coverage phase. A phase ends at the first of its needs that is not met, or after
  the unified coverage of the chosen projects (`CoverageEnd`, `coveragePhase_runs`). It succeeds
  exactly if the report and the page were made (`Made`) and the threshold was reached (`Reached`);
  nothing else that happens on the way is in these conditions (`coveragePhase_ok_iff`).
-/

namespace HostSuite.Suite

open HostSuite.Action HostSuite.Coverage

/-! ## Steps that decide nothing -/

section

variable (h : Host) (m : Machine)

/-- The patterns in a file; without a file that can be read there are none. -/
def patternsIn (h : Host) (t : Tree) (p : Path) : List String :=
  match t.readText h.workingDir p with
  | .ok text => patternsOf text
  | .error _ => []

theorem loadPatterns_runs (p : Path) :
    ∃ m', Runs h (loadPatterns h p) m (patternsIn h m.tree p) m' [] [] [] := by
  unfold loadPatterns patternsIn
  cases hr : m.tree.readText h.workingDir p with
  | ok text =>
    refine ⟨m, (Runs.get h m).bind ?_⟩
    rw [hr]
    exact Runs.pure h m _
  | error e =>
    obtain ⟨m₁, hm₁⟩ := warn_runs h m
      ("Ignoring unreadable pattern file " ++ p.text ++ ": " ++ e.message)
    by_cases he : e = .noEntry
    · refine ⟨m, (Runs.get h m).bind ?_⟩
      rw [hr, he]
      exact Runs.pure h m _
    · refine ⟨m₁, (Runs.get h m).bind ?_⟩
      rw [hr]
      cases e with
      | noEntry => exact absurd rfl he
      | _ => exact hm₁.bind (Runs.pure h m₁ _)

theorem remarks_runs (s : Session) (texts : Path → String) (ps : List Path) :
    ∃ m', Runs h (ps.forM fun p => s.remark (texts p)) m () m' [] [] [] := by
  induction ps generalizing m with
  | nil => exact ⟨m, Runs.pure h m ()⟩
  | cons p ps ih =>
    obtain ⟨m₁, hm₁⟩ := s.remark_runs h m (texts p)
    obtain ⟨m₂, hm₂⟩ := ih m₁
    exact ⟨m₂, hm₁.bind hm₂⟩

theorem tellResults_runs (s : Session) (made : Unified) :
    ∃ m' ts, Runs h (tellResults s made) m () m' [] [] ts := by
  obtain ⟨m₁, hm₁⟩ := s.remark_runs h m
    ("Merged " ++ toString made.merged.length ++ " tracefile(s):")
  obtain ⟨m₂, hm₂⟩ := remarks_runs h m₁ s (fun p => "  " ++ p.text) made.merged
  obtain ⟨m₃, hm₃⟩ := sayLine_runs h m₂
    ("\nSuccess! Full report available at: " ++ fileUrl made.page)
  obtain ⟨m₄, hm₄⟩ := sayLine_runs h m₃ ("Text summary available at: " ++
    (OutputPaths.inDir (s.config.outputDir s.root)).report.text)
  exact ⟨m₄, _, hm₁.bind (hm₂.bind (hm₃.bind hm₄))⟩

/-- The command starts a program that shows a page. -/
def IsLauncher (x : Exchange) : Prop := ∃ l ∈ launchers, x.command.program = l.1

theorem showAddress_runs (url : String) (ls : List (String × List String)) (last : String)
    (hls : ∀ l ∈ ls, l ∈ launchers) :
    ∃ m' r xs, Runs h (showAddress h url ls last) m r m' xs [] [] ∧ ∀ x ∈ xs, IsLauncher x := by
  induction ls generalizing m last with
  | nil => exact ⟨m, _, [], Runs.pure h m _, by simp⟩
  | cons l ls ih =>
    obtain ⟨program, args⟩ := l
    obtain ⟨m₁, hm₁⟩ := send_runs h m
      ((Command.new program (Path.ofPlace h.workingDir)).addArgs (args ++ [url]))
    have hl : IsLauncher (m.exchange h
        ((Command.new program (Path.ofPlace h.workingDir)).addArgs (args ++ [url]))) :=
      ⟨_, hls _ List.mem_cons_self, rfl⟩
    generalize m.exchange h _ = x at hm₁ hl
    cases ho : x.outcome with
    | ok r =>
      rw [ho] at hm₁
      exact ⟨m₁, _, [x], hm₁.bind_silent (Runs.pure h m₁ _), by simpa using hl⟩
    | error e =>
      rw [ho] at hm₁
      obtain ⟨m₂, r, xs, hm₂, hxs⟩ :=
        ih m₁ e.innermost fun l hl => hls l (List.mem_cons_of_mem _ hl)
      exact ⟨m₂, r, x :: xs, hm₁.bind hm₂, by simpa using ⟨hl, hxs⟩⟩

/-- Whether a page can be shown or not, the phase goes on. -/
theorem openPage_runs (page : Path) :
    ∃ m' xs ts, Runs h (openPage h page) m () m' xs [] ts ∧ ∀ x ∈ xs, IsLauncher x := by
  obtain ⟨m₁, hm₁⟩ := sayLine_runs h m "\nOpening report in browser..."
  obtain ⟨m₂, r, xs, hm₂, hxs⟩ := showAddress_runs h m₁ (fileUrl page) launchers "" fun _ hl => hl
  cases r with
  | none => exact ⟨m₂, _, _, hm₁.bind (hm₂.bind (Runs.pure h m₂ ())), by simpa using hxs⟩
  | some reason =>
    obtain ⟨m₃, hm₃⟩ := warn_runs h m₂ ("Failed to open browser: " ++ reason)
    obtain ⟨m₄, hm₄⟩ := sayLine_runs h m₃ ("You can manually open: " ++ fileUrl page)
    exact ⟨m₄, _, _, hm₁.bind (hm₂.bind (hm₃.bind hm₄)), by simpa using hxs⟩

end

/-! ## The ends of a phase -/

/-- What a coverage phase sent: the version probe, the turns of the projects, what came after them,
and the attempts to show the page; with the sections of its report. -/
structure CoverageTrace where
  probe : List Exchange := []
  turns : List Turn := []
  closing : List Exchange := []
  sections : List Summary := []
  shown : List Exchange := []

def CoverageTrace.exchanges (tr : CoverageTrace) : List Exchange :=
  tr.probe ++ (tr.turns.flatMap Turn.exchanges ++ tr.closing) ++ tr.shown

/-- Where the results of a session go. -/
def resultPaths (s : Session) : OutputPaths := .inDir (s.config.outputDir s.root)

section

variable (h : Host) (m : Machine) (s : Session) (selected : List String) (o : CoverageOptions)

/-- The tree on which the projects are chosen is the one that the version probe left. -/
def chosenOn : Tree := treeAfter m.tree (versionProbe h m s s.config.tools.lcov)

/-- The patterns of a session. -/
def patternsOn : List String := patternsIn h (chosenOn h m s) (s.config.ignoreFile s.root)

/-- The turns follow each other from the prepared tree on, each as its own exchanges say, and those
that count give the datasets. -/
structure Collected (turns : List Turn) (ds : List Dataset) : Prop where
  consecutive : Consecutive (preparedTree h (resultPaths s) (chosenOn h m s)) turns
  own : ∀ u ∈ turns, ∃ d, TurnWord h.workingDir s.config.tools.lcov (patternsOn h m s) u.found
    u.project u.exchanges d
  tracefiles : ds.map Dataset.tracefile =
    (turns.filter (Turn.counts h.workingDir s.config.tools.lcov)).map
      (Turn.effective (patternsOn h m s))
  sections : List.Forall₂ (Turn.Describes s.config.tools.lcov (patternsOn h m s))
    (turns.filter (Turn.counts h.workingDir s.config.tools.lcov)) (ds.map Dataset.summary)

/-- A summary held against a threshold, if there is one. -/
def heldAgainst (threshold : Option Number.Binary64) (unified : Summary) : Except Failure Unit :=
  match threshold with
  | some x => (checkReached unified.percent? x).mapError Failure.fault
  | none => .ok ()

/-- How a phase that starts on `m` ends: at the first need that is not met, without projects or a
place for the results, in the making of the unified coverage, or at the threshold. -/
inductive CoverageEnd : CoverageTrace → Except Failure Unit → Prop
  | refused {f : Fault} (hn : coverageNeeds h m.tree s.config o = .error f) :
      CoverageEnd {} (.error (.fault f))
  | unchosen {lcov : Tool} {f : Fault} (hn : coverageNeeds h m.tree s.config o = .ok lcov)
      (hps : s.chosen (chosenOn h m s) h.workingDir selected = .error f) :
      CoverageEnd { probe := versionProbe h m s s.config.tools.lcov } (.error (.fault f))
  | unready {lcov : Tool} {ps : List Project} {f : Failure}
      (hn : coverageNeeds h m.tree s.config o = .ok lcov)
      (hps : s.chosen (chosenOn h m s) h.workingDir selected = .ok ps)
      (hr : ¬OutputReady h (resultPaths s) (chosenOn h m s)) (hf : Unready (resultPaths s) f) :
      CoverageEnd { probe := versionProbe h m s s.config.tools.lcov } (.error f)
  | unmade {lcov : Tool} {turns : List Turn} {ds : List Dataset} {zs : List Exchange}
      {ss : List Summary} {f : Failure} (hn : coverageNeeds h m.tree s.config o = .ok lcov)
      (hps : s.chosen (chosenOn h m s) h.workingDir selected = .ok (turns.map Turn.project))
      (hr : OutputReady h (resultPaths s) (chosenOn h m s)) (hc : Collected h m s turns ds)
      (hf : Fate h s.config s.root (resultPaths s) ds zs ss (.error f)) :
      CoverageEnd ⟨versionProbe h m s s.config.tools.lcov, turns, zs, ss, []⟩ (.error f)
  | made {lcov : Tool} {turns : List Turn} {ds : List Dataset} {zs shown : List Exchange}
      {ss : List Summary} {u : Unified} (hn : coverageNeeds h m.tree s.config o = .ok lcov)
      (hps : s.chosen (chosenOn h m s) h.workingDir selected = .ok (turns.map Turn.project))
      (hr : OutputReady h (resultPaths s) (chosenOn h m s)) (hc : Collected h m s turns ds)
      (hf : Fate h s.config s.root (resultPaths s) ds zs ss (.ok u))
      (hl : ∀ x ∈ shown, IsLauncher x) :
      CoverageEnd ⟨versionProbe h m s s.config.tools.lcov, turns, zs, ss, shown⟩
        (heldAgainst (effectiveThreshold s.config o) u.summary)

/-- After the unified coverage has been made. -/
theorem closing_runs (made : Unified) :
    ∃ m' xs ts, Runs h (do
        liftM (tellResults s made)
        if o.openPage then liftM (openPage h made.page)
        match effectiveThreshold s.config o with
        | some x => failing (ExceptT.mk (pure (checkReached made.summary.percent? x)))
        | none => pure () : Attempt Failure Unit).run m
      (heldAgainst (effectiveThreshold s.config o) made.summary) m' xs [] ts ∧
      ∀ x ∈ xs, IsLauncher x := by
  have hheld (m₂ : Machine) : Runs h (match effectiveThreshold s.config o with
        | some x => failing (ExceptT.mk (pure (checkReached made.summary.percent? x)))
        | none => pure () : Attempt Failure Unit).run m₂
      (heldAgainst (effectiveThreshold s.config o) made.summary) m₂ [] [] [] := by
    unfold heldAgainst
    cases effectiveThreshold s.config o with
    | none => exact Runs.ok h m₂ ()
    | some x => exact check_runs h m₂ rfl
  obtain ⟨m₁, ts, hm₁⟩ := tellResults_runs h m s made
  by_cases ho : o.openPage
  · obtain ⟨m₂, xs, ts', hm₂, hxs⟩ := openPage_runs h m₁ made.page
    refine ⟨m₂, [] ++ (xs ++ []), ts ++ (ts' ++ []), hm₁.lift.bind_ok ?_, by simpa using hxs⟩
    rw [if_pos ho]
    exact hm₂.lift.bind_ok (hheld m₂)
  · refine ⟨m₁, [] ++ [], ts ++ [], hm₁.lift.bind_ok ?_, by simp⟩
    rw [if_neg ho]
    exact hheld m₁

/-- A phase as far as its projects are chosen. -/
def chooseCovered : Attempt Failure (List Project) := do
  failing (ExceptT.mk (pure (checkGiven (effectiveThreshold s.config o))))
  let lcov ← requireTool h s.config.tools.lcov "coverage capture"
  let _ ← requireTool h s.config.tools.genhtml "HTML report generation"
  tellVersion h s lcov
  failing (s.projects h selected)

/-- A phase from its chosen projects on. -/
def coverChosen (ps : List Project) : Attempt Failure Unit := do
  let ignoreFile := s.config.ignoreFile s.root
  let patterns ← loadPatterns h ignoreFile
  s.remark ("Loaded " ++ toString patterns.length ++ " ignore pattern(s) from " ++ ignoreFile.text)
  let made ← unify h s.config s.root ps patterns
  tellResults s made
  if o.openPage then openPage h made.page
  match effectiveThreshold s.config o with
  | some x => failing (ExceptT.mk (pure (checkReached made.summary.percent? x)))
  | none => pure ()

theorem coveragePhase_eq : coveragePhase h s selected o =
    chooseCovered h s selected o >>= coverChosen h s o := by
  simp only [coveragePhase, chooseCovered, bind_assoc]
  rfl

theorem chooseCovered_runs {lcov : Tool} (hn : coverageNeeds h m.tree s.config o = .ok lcov) :
    ∃ m', Runs h (chooseCovered h s selected o).run m
      ((s.chosen (chosenOn h m s) h.workingDir selected).mapError Failure.fault) m'
      (versionProbe h m s s.config.tools.lcov) [] [] ∧ m'.tree = chosenOn h m s := by
  obtain ⟨hgiven, hl, hg⟩ := coverageNeeds_eq_ok_iff.mp hn
  obtain ⟨genhtml, hg⟩ := Option.isSome_iff_exists.mp hg
  have hchecked := check_runs h m (checkGiven_eq_ok_iff.mpr hgiven)
  have hlcov := requireTool_runs h m s.config.tools.lcov "coverage capture"
  have hgenhtml := requireTool_runs h m s.config.tools.genhtml "HTML report generation"
  rw [Tool.require_eq_ok_iff.mpr hl] at hlcov
  rw [Tool.require_eq_ok_iff.mpr hg] at hgenhtml
  obtain ⟨m₁, hm₁⟩ := tellVersion_runs h m s lcov
  rw [Tool.name_of_find? hl] at hm₁
  have ht₁ : m₁.tree = chosenOn h m s := hm₁.tree
  obtain ⟨m₂, hm₂⟩ := chosen_runs h m₁ s selected
  have ht₂ : m₂.tree = chosenOn h m s := hm₂.tree.trans ht₁
  rw [ht₁] at hm₂
  have hrun : Runs h (chooseCovered h s selected o).run m _ m₂ _ _ _ :=
    hchecked.bind_ok (hlcov.bind_ok (hgenhtml.bind_ok (hm₁.lift.bind_ok hm₂)))
  exact ⟨m₂, by simpa using hrun, ht₂⟩

/-- From the chosen projects on, a phase does what its end says. -/
theorem coverChosen_runs {m₀ : Machine} {lcov : Tool} {ps : List Project}
    (ht : m₀.tree = chosenOn h m s) (hn : coverageNeeds h m.tree s.config o = .ok lcov)
    (hps : s.chosen (chosenOn h m s) h.workingDir selected = .ok ps) :
    ∃ m' r turns zs ss shown cs ts,
      Runs h (coverChosen h s o ps).run m₀ r m'
        (turns.flatMap Turn.exchanges ++ zs ++ shown) cs ts ∧
      CoverageEnd h m s selected o
        ⟨versionProbe h m s s.config.tools.lcov, turns, zs, ss, shown⟩ r := by
  obtain ⟨m₁, hm₁⟩ := loadPatterns_runs h m₀ (s.config.ignoreFile s.root)
  obtain ⟨m₂, hm₂⟩ := s.remark_runs h m₁ ("Loaded " ++ toString (patternsIn h m₀.tree
    (s.config.ignoreFile s.root)).length ++ " ignore pattern(s) from " ++
    (s.config.ignoreFile s.root).text)
  have ht₂ : m₂.tree = chosenOn h m s := (hm₂.tree.trans hm₁.tree).trans ht
  rw [ht] at hm₁ hm₂
  by_cases hr : OutputReady h (resultPaths s) (chosenOn h m s)
  · obtain ⟨m₃, xs, ds, zs, us, q, r, hm₃, hloop, hend, -⟩ := unify_runs h m₂ s.config s.root ps
      (patternsOn h m s) (ht₂ ▸ hr)
    rw [ht₂] at hloop
    obtain ⟨turns, rfl, rfl, hcon, hown, htrace, hsum⟩ := hloop.turns
    have hcollected : Collected h m s turns ds := ⟨hcon, hown, htrace, hsum⟩
    cases r with
    | error f =>
      have hrun : Runs h (coverChosen h s o (turns.map Turn.project)).run m₀ (.error f) m₃ _ _ _ :=
        hm₁.lift.bind_ok (hm₂.lift.bind_ok hm₃.bind_error)
      exact ⟨m₃, _, turns, zs, q.sections, [], _, _, by simpa using hrun,
        .unmade hn hps hr hcollected hend.fate⟩
    | ok made =>
      obtain ⟨m₄, shown, vs, hm₄, hshown⟩ := closing_runs h m₃ s o made
      have hrun : Runs h (coverChosen h s o (turns.map Turn.project)).run m₀ _ m₄ _ _ _ :=
        hm₁.lift.bind_ok (hm₂.lift.bind_ok (hm₃.bind_ok hm₄))
      exact ⟨m₄, _, turns, zs, q.sections, shown, _, _, by simpa using hrun,
        .made hn hps hr hcollected hend.fate hshown⟩
  · obtain ⟨m₃, f, cs, hm₃, -, hf⟩ := unify_runs_unready h m₂ s.config s.root ps
      (patternsOn h m s) (ht₂ ▸ hr)
    have hrun : Runs h (coverChosen h s o ps).run m₀ (.error f) m₃ _ _ _ :=
      hm₁.lift.bind_ok (hm₂.lift.bind_ok hm₃.bind_error)
    exact ⟨m₃, _, [], [], [], [], _, _, by simpa using hrun, .unready hn hps hr hf⟩

/-- Every coverage phase comes to one of its ends. -/
theorem coveragePhase_runs :
    ∃ m' r tr cs ts, Runs h (coveragePhase h s selected o).run m r m' tr.exchanges cs ts ∧
      CoverageEnd h m s selected o tr r := by
  cases hn : coverageNeeds h m.tree s.config o with
  | error f => exact ⟨m, _, {}, [], [], coveragePhase_refused hn, .refused hn⟩
  | ok lcov =>
    rw [coveragePhase_eq]
    obtain ⟨m₁, hm₁, ht₁⟩ := chooseCovered_runs h m s selected o hn
    cases hps : s.chosen (chosenOn h m s) h.workingDir selected with
    | error f =>
      rw [hps] at hm₁
      exact ⟨m₁, _, { probe := versionProbe h m s s.config.tools.lcov }, _, _,
        by simpa [CoverageTrace.exchanges] using hm₁.bind_error, .unchosen hn hps⟩
    | ok ps =>
      rw [hps] at hm₁
      obtain ⟨m₂, r, turns, zs, ss, shown, cs, ts, hm₂, hend⟩ :=
        coverChosen_runs h m s selected o ht₁ hn hps
      exact ⟨m₂, r, ⟨versionProbe h m s s.config.tools.lcov, turns, zs, ss, shown⟩, _, _,
        by simpa [CoverageTrace.exchanges] using hm₁.bind_ok hm₂, hend⟩

/-! ## What has to hold -/

/-- The report and the page were made by the phase that sent `tr`. -/
structure Made (tr : CoverageTrace) : Prop where
  threshold : ∀ x ∈ effectiveThreshold s.config o, x.IsPercent
  lcov : (Tool.find? h m.tree s.config.tools.lcov).isSome = true
  genhtml : (Tool.find? h m.tree s.config.tools.genhtml).isSome = true
  chosen : s.chosen (chosenOn h m s) h.workingDir selected = .ok (tr.turns.map Turn.project)
  ready : OutputReady h (resultPaths s) (chosenOn h m s)
  captured : ∃ u ∈ tr.turns, u.counts h.workingDir s.config.tools.lcov = true
  merged : ∃ x ∈ tr.closing, x.succeeded = true ∧
    x.command = mergeCommand s.config.tools.lcov
      ((tr.turns.filter (Turn.counts h.workingDir s.config.tools.lcov)).map
        (Turn.effective (patternsOn h m s))) (resultPaths s).unified s.root
  written : ∃ y ∈ tr.closing,
    y.command = summaryCommand s.config.tools.lcov (resultPaths s).unified s.root ∧
    ∃ t, y.reply.tree.write h.workingDir (resultPaths s).report
      (Text.encode (Report.mk h.timestamp tr.sections).render) = .ok t
  rendered : ∃ z ∈ tr.closing, z.succeeded = true ∧
    z.command = htmlCommand s.config.tools.genhtml (resultPaths s).unified (resultPaths s).html
      s.config.coverage.title s.root

/-- The unified section tells a percentage that is not below the threshold, if there is one. -/
def Reached (tr : CoverageTrace) : Prop :=
  ∀ x ∈ effectiveThreshold s.config o, ∃ y ∈ tr.closing,
    y.command = summaryCommand s.config.tools.lcov (resultPaths s).unified s.root ∧
    ∃ p ∈ (summaryOf unifiedLabel y.outcome).percent?, x.le p = true

end

section

variable {h : Host} {m : Machine} {s : Session} {selected : List String} {o : CoverageOptions}

theorem heldAgainst_eq_ok_iff {threshold : Option Number.Binary64} {unified : Summary} :
    heldAgainst threshold unified = .ok () ↔
      ∀ x ∈ threshold, ∃ p ∈ unified.percent?, x.le p = true := by
  cases threshold with
  | none => simp [heldAgainst]
  | some x =>
    unfold heldAgainst checkReached
    rw [Except.mapError_eq_ok_iff]
    cases unified.percent? with
    | none => simp
    | some p => cases hp : x.le p <;> simp [hp]

theorem chosen_eq_error {t : Tree} {base : Place} {f : Fault}
    (hf : s.chosen t base selected = .error f) : ∃ message hint, f = .config message hint := by
  unfold Session.chosen at hf
  cases hd : s.discovered t base with
  | error g =>
    rw [hd] at hf
    obtain rfl := Except.error.inj hf
    unfold Session.discovered Project.discover at hd
    split at hd
    · exact ⟨_, _, (Except.error.inj hd).symm⟩
    · cases hd
  | ok found =>
    rw [hd] at hf
    dsimp only at hf
    unfold Project.select at hf
    split at hf
    · cases hf
    · split at hf
      · cases hf
      · exact ⟨_, _, (Except.error.inj hf).symm⟩

/-- Of the merge, the unified summary and the page each is known by its command. -/
theorem nodup_closing {ds : List Dataset} {zs : List Exchange} {ss : List Summary}
    {r : Except Failure Unified} (hf : Fate h s.config s.root (resultPaths s) ds zs ss r) :
    (zs.map Exchange.command).Nodup := by
  have hmerge {x : Exchange} (hx : IsMergeOf s.config s.root (resultPaths s) ds x) :
      x.command.isMerge = true :=
    hx.2 ▸ isMerge_mergeCommand _ _ _ _ (by simpa using hx.1)
  have hsummary {x y : Exchange} (hy : IsUnifiedSummary s.config s.root (resultPaths s) x y) :
      y.command.isMerge = false := by
    rw [hy.2]
    rfl
  have hpage {y z : Exchange} (hz : IsPage h s.config s.root (resultPaths s) ds y z) :
      z.command.isMerge = false ∧ z.command.verb ≠ some "--summary" := by
    rw [hz.2]
    exact ⟨isMerge_htmlCommand _ _ _ _ _, verb_htmlCommand_ne _ _ _ _ _ (by decide)⟩
  have htwo {x y : Exchange} (hx : IsMergeOf s.config s.root (resultPaths s) ds x)
      (hy : IsUnifiedSummary s.config s.root (resultPaths s) x y) : x.command ≠ y.command :=
    fun he => by simpa [he, hsummary hy] using hmerge hx
  have hthree {x y z : Exchange} (hx : IsMergeOf s.config s.root (resultPaths s) ds x)
      (hy : IsUnifiedSummary s.config s.root (resultPaths s) x y)
      (hz : IsPage h s.config s.root (resultPaths s) ds y z) :
      ([x, y, z].map Exchange.command).Nodup := by
    have hxz : x.command ≠ z.command := fun he => by simpa [he, (hpage hz).1] using hmerge hx
    have hyz : y.command ≠ z.command := fun he => (hpage hz).2 (by rw [← he, hy.2]; rfl)
    simp [htwo hx hy, hxz, hyz]
  cases hf with
  | noData => simp
  | mergeFailed hx hs => simp
  | writeFailed hx hy hw => simp [htwo hx hy]
  | pageFailed hx hy hz hs => exact hthree hx hy hz
  | done hx hy hz hs => exact hthree hx hy hz

/-- Each end is that of a phase that made everything and then held it against the threshold, or of
one that did not and failed for another reason than the threshold. -/
theorem CoverageEnd.decided {tr : CoverageTrace} {r : Except Failure Unit}
    (he : CoverageEnd h m s selected o tr r) :
    Made h m s selected o tr ∧ (r = .ok () ↔ Reached s o tr) ∨
      ¬Made h m s selected o tr ∧ ∃ f, r = .error f ∧ ∀ a t, f ≠ .fault (.belowThreshold a t) := by
  cases he with
  | @refused f hn =>
    refine .inr ⟨fun hm => ?_, _, rfl, ?_⟩
    · obtain ⟨lcov, hl⟩ := Option.isSome_iff_exists.mp hm.lcov
      rw [coverageNeeds_eq_ok_iff.mpr ⟨hm.threshold, hl, hm.genhtml⟩] at hn
      cases hn
    · rintro a t ⟨⟩
      cases unmet_of_coverageNeeds hn
  | unchosen hn hps =>
    refine .inr ⟨fun hm => ?_, _, rfl, ?_⟩
    · rw [hm.chosen] at hps
      cases hps
    · obtain ⟨message, hint, rfl⟩ := chosen_eq_error hps
      rintro a t ⟨⟩
  | unready hn hps hr hf =>
    refine .inr ⟨fun hm => hr hm.ready, _, rfl, ?_⟩
    rintro a t rfl
    cases hf
  | @unmade lcov turns ds zs ss f hn hps hr hc hf =>
    have hknown := List.inj_on_of_nodup_map (nodup_closing hf)
    generalize he : Except.error f = e at hf
    refine .inr ⟨fun hm => ?_, _, rfl, ?_⟩
    · cases hf with
      | noData =>
        obtain ⟨u, hu, hcounts⟩ := hm.captured
        have hnone : turns.filter (Turn.counts h.workingDir s.config.tools.lcov) = [] := by
          simpa using hc.tracefiles
        exact List.filter_eq_nil_iff.mp hnone u hu hcounts
      | mergeFailed hx hs =>
        obtain ⟨w, hw, hsw, -⟩ := hm.merged
        rw [List.mem_singleton.mp hw, hs] at hsw
        cases hsw
      | writeFailed hx hy hw =>
        obtain ⟨w, hwmem, hwy, t, ht⟩ := hm.written
        obtain rfl := hknown hwmem (by simp) (hwy.trans hy.2.symm)
        cases hw.symm.trans ht
      | pageFailed hx hy hz hs =>
        obtain ⟨w, hwmem, hsw, hwz⟩ := hm.rendered
        obtain rfl := hknown hwmem (by simp) (hwz.trans hz.2.symm)
        rw [hs] at hsw
        cases hsw
      | done hx hy hz hs => cases he
    · rintro a t rfl
      cases hf <;> cases he
  | @made lcov turns ds zs shown ss u hn hps hr hc hf hl =>
    have hknown := List.inj_on_of_nodup_map (nodup_closing hf)
    obtain ⟨hgiven, hlcov, hgenhtml⟩ := coverageNeeds_eq_ok_iff.mp hn
    cases hf with
    | @done ds x y z hx hy hz hs =>
      left
      refine ⟨⟨hgiven, by rw [hlcov]; rfl, hgenhtml, hps, hr, ?_, ?_, ?_, ?_⟩, ?_⟩
      · have hne : turns.filter (Turn.counts h.workingDir s.config.tools.lcov) ≠ [] := by
          intro hnil
          exact hx.1 (by simpa [hnil] using hc.tracefiles)
        obtain ⟨u, hu⟩ := List.exists_mem_of_ne_nil _ hne
        exact ⟨u, (List.mem_filter.mp hu).1, (List.mem_filter.mp hu).2⟩
      · exact ⟨x, by simp, hy.1, hc.tracefiles ▸ hx.2⟩
      · exact ⟨y, by simp, hy.2, hz.1⟩
      · exact ⟨z, by simp, hs, hz.2⟩
      · rw [heldAgainst_eq_ok_iff]
        refine forall₂_congr fun t _ => ⟨fun hp => ⟨y, by simp, hy.2, hp⟩, ?_⟩
        rintro ⟨w, hw, hwy, hp⟩
        obtain rfl := hknown hw (by simp) (hwy.trans hy.2.symm)
        exact hp

/-- A coverage phase succeeds exactly if everything was made and the threshold was reached, and a
threshold is missed only after everything was made. -/
theorem coveragePhase_ok_iff (h : Host) (m : Machine) (s : Session) (selected : List String)
    (o : CoverageOptions) :
    ∃ m' r tr cs ts, Runs h (coveragePhase h s selected o).run m r m' tr.exchanges cs ts ∧
      CoverageEnd h m s selected o tr r ∧
      (r = .ok () ↔ Made h m s selected o tr ∧ Reached s o tr) ∧
      ∀ a t, r = .error (.fault (.belowThreshold a t)) → Made h m s selected o tr := by
  obtain ⟨m', r, tr, cs, ts, hrun, hend⟩ := coveragePhase_runs h m s selected o
  refine ⟨m', r, tr, cs, ts, hrun, hend, ?_⟩
  obtain ⟨hmade, hreached⟩ | ⟨hnot, f, rfl, hf⟩ := hend.decided
  · exact ⟨by rw [hreached, and_iff_right hmade], fun _ _ _ => hmade⟩
  · exact ⟨⟨nofun, fun hboth => absurd hboth.1 hnot⟩,
      fun a t he => absurd (Except.error.inj he) (hf a t)⟩

end

end HostSuite.Suite
