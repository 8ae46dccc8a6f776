import Mathlib.Data.List.Forall2
import HostSuite.Coverage.Unified
import HostSuite.Proofs.Machine.Course

/-
  The protocol of unified coverage, as words over exchanges. `TurnWord` holds what one project
  may send: its captures (`CaptureWord`), the removal of the ignored sources (`FilterWord`), one
  summary. `LoopWord` strings the turns together and gathers the datasets; `Ending` holds the
  ways in which a run can go on from there, with the texts on the output, the report and the
  result that belong to each.

  The protocol leaves no choice: two words that are answered alike are the same
  (`LoopWord.unique`, `Ending.unique`). Answered alike (`Alike`) means that as long as the same
  commands are sent, the same is found and replied.
-/

namespace HostSuite.Coverage

/-- The captures of a project: a strict one, and a permissive one exactly if the strict one ran
and failed. -/
inductive CaptureWord (lcov : String) (p : Project) : List Exchange → Bool → Prop
  | strict {x : Exchange} (hx : x.command = captureCommand lcov p .strict)
      (hs : x.succeeded = true) : CaptureWord lcov p [x] true
  | unlaunched {x : Exchange} (hx : x.command = captureCommand lcov p .strict)
      (hl : x.launched = false) : CaptureWord lcov p [x] false
  | permissive {x y : Exchange} (hx : x.command = captureCommand lcov p .strict)
      (hl : x.launched = true) (hs : x.succeeded = false)
      (hy : y.command = captureCommand lcov p .permissive) : CaptureWord lcov p [x, y] y.succeeded

/-- The removal of ignored sources, exactly if there are patterns, and the tracefile that counts
after it. -/
inductive FilterWord (lcov : String) (p : Project) (patterns : List String) :
    List Exchange → Path → Prop
  | unfiltered (hp : patterns = []) : FilterWord lcov p patterns [] (rawTracefile p)
  | tried {x : Exchange} (hp : patterns ≠ [])
      (hx : x.command = filterCommand lcov p (rawTracefile p) patterns) :
      FilterWord lcov p patterns [x]
        (if x.succeeded then filteredTracefile p else rawTracefile p)

/-- The turn of a project on a tree: nothing unless the project is built, and after a capture its
filter and the summary of what counts. -/
inductive TurnWord (base : Place) (lcov : String) (patterns : List String) (t : Tree)
    (p : Project) : List Exchange → Option Dataset → Prop
  | unbuilt (hb : p.isBuilt t base = false) : TurnWord base lcov patterns t p [] none
  | uncaptured {xs : List Exchange} (hb : p.isBuilt t base = true)
      (hc : CaptureWord lcov p xs false) : TurnWord base lcov patterns t p xs none
  | captured {xs ys : List Exchange} {e : Path} {z : Exchange} (hb : p.isBuilt t base = true)
      (hc : CaptureWord lcov p xs true) (hf : FilterWord lcov p patterns ys e)
      (hz : z.command = summaryCommand lcov e p.root) :
      TurnWord base lcov patterns t p (xs ++ ys ++ [z]) (some ⟨e, summaryOf p.name z.outcome⟩)

/-- The turns of projects, each on the tree that the one before left, with their datasets. -/
inductive LoopWord (base : Place) (lcov : String) (patterns : List String) :
    Tree → List Project → List Exchange → List Dataset → Prop
  | nil (t : Tree) : LoopWord base lcov patterns t [] [] []
  | cons {t : Tree} {p : Project} {ps : List Project} {xs ys : List Exchange}
      {d : Option Dataset} {ds : List Dataset} (hp : TurnWord base lcov patterns t p xs d)
      (hps : LoopWord base lcov patterns (treeAfter t xs) ps ys ds) :
      LoopWord base lcov patterns t (p :: ps) (xs ++ ys) (d.toList ++ ds)

/-- The report with the unified section last. -/
def fullReport (h : Host) (ds : List Dataset) (y : Exchange) : Report :=
  (reportOf h ds).add (summaryOf unifiedLabel y.outcome)

/-- Writing the full report on the tree that the unified summary left. -/
def writing (h : Host) (paths : OutputPaths) (ds : List Dataset) (y : Exchange) :
    Except IoError Tree :=
  y.reply.tree.write h.workingDir paths.report (Text.encode (fullReport h ds y).render)

/-- What stands on the output between the sections. -/
def mergeNote : String := "\nMerging coverage data...\n"

def pageNote (paths : OutputPaths) : String :=
  "\nGenerating HTML report in " ++ paths.html.text ++ "...\n"

section

variable (h : Host) (c : Config) (root : Path) (paths : OutputPaths) (ds : List Dataset)

/-- What comes of the page: the run succeeds exactly if rendering it did. -/
def pageResult (y z : Exchange) : Except Failure Unified :=
  if z.succeeded then
    .ok ⟨ds.map Dataset.tracefile, summaryOf unifiedLabel y.outcome, paths.html.join "index.html"⟩
  else .error (.fault (.reportFailure paths.unified (troubleOf z.outcome)))

/-- What follows a merge: the summary of the unified tracefile and, exactly if the full report
could be written, the page; with the texts on the output, the report and the result. -/
inductive Conclusion : List Exchange → List String → Report → Except Failure Unified → Prop
  | unwritten {y : Exchange} {e : IoError}
      (hy : y.command = summaryCommand c.tools.lcov paths.unified root)
      (hw : writing h paths ds y = .error e) :
      Conclusion [y] ["\n", (summaryOf unifiedLabel y.outcome).render] (fullReport h ds y)
        (.error (.other ("Failed to write summary to " ++ paths.report.text) [e.message]))
  | rendered {y z : Exchange} {t : Tree}
      (hy : y.command = summaryCommand c.tools.lcov paths.unified root)
      (hw : writing h paths ds y = .ok t)
      (hz : z.command =
        htmlCommand c.tools.genhtml paths.unified paths.html c.coverage.title root) :
      Conclusion [y, z] ["\n", (summaryOf unifiedLabel y.outcome).render, pageNote paths]
        (fullReport h ds y) (pageResult paths ds y z)

/-- What follows the datasets: a merge exactly if there are any, and its conclusion exactly if it
succeeded; with the texts on the output, the report and the result. -/
inductive Ending : List Exchange → List String → Report → Except Failure Unified → Prop
  | noData (hd : ds = []) : Ending [] [] (reportOf h ds) (.error (.fault .noCoverageData))
  | unmerged {x : Exchange} (hd : ds ≠ [])
      (hx : x.command = mergeCommand c.tools.lcov (ds.map Dataset.tracefile) paths.unified root)
      (hs : x.succeeded = false) :
      Ending [x] [mergeNote] (reportOf h ds)
        (.error (.fault (.mergeFailure (ds.map Dataset.tracefile) (troubleOf x.outcome))))
  | merged {x : Exchange} {xs : List Exchange} {ts : List String} {q : Report}
      {r : Except Failure Unified} (hd : ds ≠ [])
      (hx : x.command = mergeCommand c.tools.lcov (ds.map Dataset.tracefile) paths.unified root)
      (hs : x.succeeded = true) (hc : Conclusion h c root paths ds xs ts q r) :
      Ending (x :: xs) (mergeNote :: ts) q r

end

/-! ## Where the commands run -/

section

variable (tool : String) (p : Project) (cwd : Path)

@[simp] theorem cwd_captureCommand (s : Strictness) : (captureCommand tool p s).cwd = p.root := rfl

@[simp] theorem cwd_filterCommand (raw : Path) (patterns : List String) :
    (filterCommand tool p raw patterns).cwd = p.root := rfl

@[simp] theorem cwd_summaryCommand (d : Path) : (summaryCommand tool d cwd).cwd = cwd := rfl

@[simp] theorem cwd_mergeCommand (inputs : List Path) (output : Path) :
    (mergeCommand tool inputs output cwd).cwd = cwd := rfl

@[simp] theorem cwd_htmlCommand (tracefile dir : Path) (title : String) :
    (htmlCommand tool tracefile dir title cwd).cwd = cwd := rfl

end

theorem CaptureWord.cwd {lcov : String} {p : Project} {xs : List Exchange} {got : Bool}
    (hc : CaptureWord lcov p xs got) : ∀ x ∈ xs, x.command.cwd = p.root := by
  cases hc <;> simp_all

theorem FilterWord.cwd {lcov : String} {p : Project} {patterns : List String}
    {xs : List Exchange} {e : Path} (hf : FilterWord lcov p patterns xs e) :
    ∀ x ∈ xs, x.command.cwd = p.root := by
  cases hf <;> simp_all

theorem TurnWord.cwd {base : Place} {lcov : String} {patterns : List String} {t : Tree}
    {p : Project} {xs : List Exchange} {d : Option Dataset}
    (hw : TurnWord base lcov patterns t p xs d) : ∀ x ∈ xs, x.command.cwd = p.root := by
  cases hw with
  | unbuilt hb => simp
  | uncaptured hb hc => exact hc.cwd
  | captured hb hc hf hz =>
    intro x hx
    simp only [List.mem_append, List.mem_singleton] at hx
    obtain (hx | hx) | rfl := hx
    · exact hc.cwd x hx
    · exact hf.cwd x hx
    · rw [hz, cwd_summaryCommand]

/-- The loop falls into one stretch for each project, and all of it runs in the root of that
project. -/
theorem LoopWord.cwd {base : Place} {lcov : String} {patterns : List String} {t : Tree}
    {ps : List Project} {xs : List Exchange} {ds : List Dataset}
    (hw : LoopWord base lcov patterns t ps xs ds) :
    ∃ stretches : List (List Exchange), stretches.flatten = xs ∧
      List.Forall₂ (fun p ys => ∀ y ∈ ys, y.command.cwd = p.root) ps stretches := by
  induction hw with
  | nil t => exact ⟨[], rfl, .nil⟩
  | cons hp _ ih =>
    obtain ⟨stretches, rfl, hall⟩ := ih
    exact ⟨_ :: stretches, rfl, .cons hp.cwd hall⟩

theorem Ending.cwd {h : Host} {c : Config} {root : Path} {paths : OutputPaths}
    {ds : List Dataset} {xs : List Exchange} {ts : List String} {q : Report}
    {r : Except Failure Unified} (hx : Ending h c root paths ds xs ts q r) :
    ∀ x ∈ xs, x.command.cwd = root := by
  cases hx with
  | noData hd => simp
  | unmerged hd hx hs => simp [hx]
  | merged hd hx hs hc => cases hc <;> simp_all

/-! ## The protocol leaves no choice -/

/-- As long as the same commands are sent, the same is found and replied. -/
def Alike : List Exchange → List Exchange → Prop
  | x :: xs, y :: ys => x.command = y.command → x = y ∧ Alike xs ys
  | _, _ => True

theorem Alike.append_left {xs ys zs : List Exchange} (ha : Alike (xs ++ ys) (xs ++ zs)) :
    Alike ys zs := by
  induction xs with
  | nil => exact ha
  | cons x xs ih => exact ih (ha rfl).2

theorem CaptureWord.unique {lcov : String} {p : Project} {xs ys us vs : List Exchange}
    {a b : Bool} (hx : CaptureWord lcov p xs a) (hy : CaptureWord lcov p ys b)
    (ha : Alike (xs ++ us) (ys ++ vs)) : xs = ys ∧ a = b := by
  cases hx with
  | strict hx hs =>
    cases hy with
    | strict hy hs' => exact ⟨by rw [(ha (hx.trans hy.symm)).1], rfl⟩
    | unlaunched hy hl =>
      obtain ⟨rfl, -⟩ := ha (hx.trans hy.symm)
      rw [Exchange.launched_of_succeeded hs] at hl; cases hl
    | permissive hy hl hs' _ =>
      obtain ⟨rfl, -⟩ := ha (hx.trans hy.symm)
      rw [hs] at hs'; cases hs'
  | unlaunched hx hl =>
    cases hy with
    | strict hy hs =>
      obtain ⟨rfl, -⟩ := ha (hx.trans hy.symm)
      rw [Exchange.launched_of_succeeded hs] at hl; cases hl
    | unlaunched hy _ => exact ⟨by rw [(ha (hx.trans hy.symm)).1], rfl⟩
    | permissive hy hl' _ _ =>
      obtain ⟨rfl, -⟩ := ha (hx.trans hy.symm)
      rw [hl] at hl'; cases hl'
  | permissive hx hl hs hx' =>
    cases hy with
    | strict hy hs' =>
      obtain ⟨rfl, -⟩ := ha (hx.trans hy.symm)
      rw [hs] at hs'; cases hs'
    | unlaunched hy hl' =>
      obtain ⟨rfl, -⟩ := ha (hx.trans hy.symm)
      rw [hl] at hl'; cases hl'
    | permissive hy _ _ hy' =>
      obtain ⟨rfl, ha'⟩ := ha (hx.trans hy.symm)
      obtain ⟨rfl, -⟩ := ha' (hx'.trans hy'.symm)
      exact ⟨rfl, rfl⟩

theorem FilterWord.unique {lcov : String} {p : Project} {patterns : List String}
    {xs ys us vs : List Exchange} {d e : Path} (hx : FilterWord lcov p patterns xs d)
    (hy : FilterWord lcov p patterns ys e) (ha : Alike (xs ++ us) (ys ++ vs)) :
    xs = ys ∧ d = e := by
  cases hx with
  | unfiltered hp =>
    cases hy with
    | unfiltered _ => exact ⟨rfl, rfl⟩
    | tried hp' _ => exact absurd hp hp'
  | tried hp hx =>
    cases hy with
    | unfiltered hp' => exact absurd hp' hp
    | tried _ hy =>
      obtain ⟨rfl, -⟩ := ha (hx.trans hy.symm)
      exact ⟨rfl, rfl⟩

theorem TurnWord.unique {base : Place} {lcov : String} {patterns : List String} {t : Tree}
    {p : Project} {xs ys us vs : List Exchange} {d e : Option Dataset}
    (hx : TurnWord base lcov patterns t p xs d) (hy : TurnWord base lcov patterns t p ys e)
    (ha : Alike (xs ++ us) (ys ++ vs)) : xs = ys ∧ d = e := by
  cases hx with
  | unbuilt hb =>
    cases hy with
    | unbuilt _ => exact ⟨rfl, rfl⟩
    | uncaptured hb' _ | captured hb' _ _ _ => rw [hb] at hb'; cases hb'
  | uncaptured hb hc =>
    cases hy with
    | unbuilt hb' => rw [hb] at hb'; cases hb'
    | uncaptured _ hc' => exact ⟨(hc.unique hc' ha).1, rfl⟩
    | captured _ hc' _ _ =>
      rw [List.append_assoc, List.append_assoc] at ha
      cases (hc.unique hc' ha).2
  | captured hb hc hf hz =>
    rw [List.append_assoc, List.append_assoc] at ha
    cases hy with
    | unbuilt hb' => rw [hb] at hb'; cases hb'
    | uncaptured _ hc' => cases (hc.unique hc' ha).2
    | captured _ hc' hf' hz' =>
      rw [List.append_assoc, List.append_assoc] at ha
      obtain ⟨rfl, -⟩ := hc.unique hc' ha
      obtain ⟨rfl, rfl⟩ := hf.unique hf' ha.append_left
      obtain ⟨rfl, -⟩ := ha.append_left.append_left (hz.trans hz'.symm)
      exact ⟨rfl, rfl⟩

/-- Over the projects: the first turn is the same, and it leaves the same tree to the others. -/
theorem LoopWord.unique {base : Place} {lcov : String} {patterns : List String} {t : Tree}
    {ps : List Project} {xs ys us vs : List Exchange} {ds es : List Dataset}
    (hx : LoopWord base lcov patterns t ps xs ds) (hy : LoopWord base lcov patterns t ps ys es)
    (ha : Alike (xs ++ us) (ys ++ vs)) : xs = ys ∧ ds = es := by
  induction hx generalizing ys es with
  | nil t => cases hy with | nil => exact ⟨rfl, rfl⟩
  | cons hp hps ih =>
    cases hy with
    | cons hp' hps' =>
      rw [List.append_assoc, List.append_assoc] at ha
      obtain ⟨rfl, rfl⟩ := hp.unique hp' ha
      obtain ⟨rfl, rfl⟩ := ih hps' ha.append_left
      exact ⟨rfl, rfl⟩

theorem Conclusion.unique {h : Host} {c : Config} {root : Path} {paths : OutputPaths}
    {ds : List Dataset} {xs ys : List Exchange} {ts us : List String} {q q' : Report}
    {r r' : Except Failure Unified} (hx : Conclusion h c root paths ds xs ts q r)
    (hy : Conclusion h c root paths ds ys us q' r') (ha : Alike xs ys) : xs = ys := by
  cases hx with
  | unwritten hx hw =>
    cases hy with
    | unwritten hy _ => rw [(ha (hx.trans hy.symm)).1]
    | rendered hy hw' _ =>
      obtain ⟨rfl, -⟩ := ha (hx.trans hy.symm)
      rw [hw] at hw'; cases hw'
  | rendered hx hw hz =>
    cases hy with
    | unwritten hy hw' =>
      obtain ⟨rfl, -⟩ := ha (hx.trans hy.symm)
      rw [hw] at hw'; cases hw'
    | rendered hy _ hz' =>
      obtain ⟨rfl, ha'⟩ := ha (hx.trans hy.symm)
      rw [(ha' (hz.trans hz'.symm)).1]

theorem Ending.unique {h : Host} {c : Config} {root : Path} {paths : OutputPaths}
    {ds : List Dataset} {xs ys : List Exchange} {ts us : List String} {q q' : Report}
    {r r' : Except Failure Unified} (hx : Ending h c root paths ds xs ts q r)
    (hy : Ending h c root paths ds ys us q' r') (ha : Alike xs ys) : xs = ys := by
  cases hx with
  | noData hd =>
    cases hy with
    | noData _ => rfl
    | unmerged hd' _ _ | merged hd' _ _ _ => exact absurd hd hd'
  | unmerged hd hx hs =>
    cases hy with
    | noData hd' => exact absurd hd' hd
    | unmerged _ hy _ => rw [(ha (hx.trans hy.symm)).1]
    | merged _ hy hs' _ =>
      obtain ⟨rfl, -⟩ := ha (hx.trans hy.symm)
      rw [hs] at hs'; cases hs'
  | merged hd hx hs hc =>
    cases hy with
    | noData hd' => exact absurd hd' hd
    | unmerged _ hy hs' =>
      obtain ⟨rfl, -⟩ := ha (hx.trans hy.symm)
      rw [hs] at hs'; cases hs'
    | merged _ hy _ hc' =>
      obtain ⟨rfl, ha'⟩ := ha (hx.trans hy.symm)
      rw [hc.unique hc' ha']

end HostSuite.Coverage
