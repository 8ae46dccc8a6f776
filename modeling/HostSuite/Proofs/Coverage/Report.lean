import HostSuite.Proofs.Coverage.Conduct
import HostSuite.Proofs.Path.Lexical
import HostSuite.Proofs.Tree.Frame

/-
  The report of a run. Once the output directory is ready the report is written exactly once,
  whichever of five ways the run ends in: `Fate` tells the sections of the report and the result for
  each of them. The sections on the output are the ones in the report. Of the tree the run itself
  changes nothing but the output directory, the unified tracefile, and the report (`Confined`); the
  unified tracefile of an earlier run is gone before the first command is sent.
-/

namespace HostSuite.Coverage

/-! ## The five ends -/

section

variable (h : Host) (c : Config) (root : Path) (paths : OutputPaths)

/-- The merge of some datasets. -/
def IsMergeOf (ds : List Dataset) (x : Exchange) : Prop :=
  ds ≠ [] ∧ x.command = mergeCommand c.tools.lcov (ds.map Dataset.tracefile) paths.unified root

/-- The summary of the unified tracefile, after a merge that succeeded. -/
def IsUnifiedSummary (x y : Exchange) : Prop :=
  x.succeeded = true ∧ y.command = summaryCommand c.tools.lcov paths.unified root

/-- The rendering of the page, after a report that could be written. -/
def IsPage (ds : List Dataset) (y z : Exchange) : Prop :=
  (∃ t, writing h paths ds y = .ok t) ∧
    z.command = htmlCommand c.tools.genhtml paths.unified paths.html c.coverage.title root

/-- What was sent after the turns, the sections of the report, and the result. -/
inductive Fate : List Dataset → List Exchange → List Summary → Except Failure Unified → Prop
  | noData : Fate [] [] [] (.error (.fault .noCoverageData))
  | mergeFailed {ds : List Dataset} {x : Exchange} (hx : IsMergeOf c root paths ds x)
      (hs : x.succeeded = false) :
      Fate ds [x] (ds.map Dataset.summary)
        (.error (.fault (.mergeFailure (ds.map Dataset.tracefile) (troubleOf x.outcome))))
  | writeFailed {ds : List Dataset} {x y : Exchange} {e : IoError}
      (hx : IsMergeOf c root paths ds x) (hy : IsUnifiedSummary c root paths x y)
      (hw : writing h paths ds y = .error e) :
      Fate ds [x, y] (ds.map Dataset.summary ++ [summaryOf unifiedLabel y.outcome])
        (.error (unwrittenFailure paths.report e))
  | pageFailed {ds : List Dataset} {x y z : Exchange} (hx : IsMergeOf c root paths ds x)
      (hy : IsUnifiedSummary c root paths x y) (hz : IsPage h c root paths ds y z)
      (hs : z.succeeded = false) :
      Fate ds [x, y, z] (ds.map Dataset.summary ++ [summaryOf unifiedLabel y.outcome])
        (.error (.fault (.reportFailure paths.unified (troubleOf z.outcome))))
  | done {ds : List Dataset} {x y z : Exchange} (hx : IsMergeOf c root paths ds x)
      (hy : IsUnifiedSummary c root paths x y) (hz : IsPage h c root paths ds y z)
      (hs : z.succeeded = true) :
      Fate ds [x, y, z] (ds.map Dataset.summary ++ [summaryOf unifiedLabel y.outcome])
        (.ok ⟨ds.map Dataset.tracefile, summaryOf unifiedLabel y.outcome,
          paths.html.join "index.html"⟩)

variable {h c root paths} {ds : List Dataset} {zs : List Exchange} {ts : List String} {q : Report}
  {r : Except Failure Unified}

theorem Conclusion.fate {x : Exchange} (hx : IsMergeOf c root paths ds x)
    (hs : x.succeeded = true) (hc : Conclusion h c root paths ds zs ts q r) :
    Fate h c root paths ds (x :: zs) q.sections r := by
  cases hc with
  | unwritten hy hw => exact .writeFailed hx ⟨hs, hy⟩ hw
  | @rendered y z t hy hw hz =>
    unfold pageResult
    by_cases hp : z.succeeded
    · rw [if_pos hp]
      exact .done hx ⟨hs, hy⟩ ⟨⟨t, hw⟩, hz⟩ hp
    · rw [if_neg hp]
      exact .pageFailed hx ⟨hs, hy⟩ ⟨⟨t, hw⟩, hz⟩ (Bool.eq_false_iff.mpr hp)

theorem Ending.fate (he : Ending h c root paths ds zs ts q r) :
    Fate h c root paths ds zs q.sections r := by
  cases he with
  | noData hd =>
    subst hd
    exact .noData
  | unmerged hd hx hs => exact .mergeFailed ⟨hd, hx⟩ hs
  | merged hd hx hs hc => exact hc.fate ⟨hd, hx⟩ hs

theorem Ending.generated (he : Ending h c root paths ds zs ts q r) :
    q.generated = h.timestamp := by
  cases he with
  | noData _ | unmerged _ _ _ => rfl
  | merged _ _ _ hc => cases hc <;> rfl

end

/-! ## What is on the output -/

/-- A text of the run itself, or the block of a section. -/
inductive Piece
  | note (text : String)
  | block (s : Summary)

namespace Piece

def text : Piece → String
  | note text => text
  | block s => s.render

def section? : Piece → Option Summary
  | note _ => none
  | block s => some s

def note? : Piece → Option String
  | note text => some text
  | block _ => none

end Piece

/-- The texts that a run puts on the output in front of the sections and between them. -/
def ownTexts (h : Host) (paths : OutputPaths) : List String :=
  opening h ++ [mergeNote, pageNote paths]

/-- The texts are the blocks of the sections, in order, among texts of the run itself. -/
def Shows (h : Host) (paths : OutputPaths) (ts : List String) (ss : List Summary) : Prop :=
  ∃ pieces : List Piece, pieces.map Piece.text = ts ∧ pieces.filterMap Piece.section? = ss ∧
    ∀ n ∈ pieces.filterMap Piece.note?, n ∈ ownTexts h paths

section

variable {h : Host} {c : Config} {root : Path} {paths : OutputPaths} {ds : List Dataset}
  {zs : List Exchange} {ts us : List String} {ss ss' : List Summary} {q : Report}
  {r : Except Failure Unified}

theorem Shows.nil : Shows h paths [] [] := ⟨[], rfl, rfl, by simp⟩

theorem Shows.note {n : String} (hn : n ∈ ownTexts h paths) (hs : Shows h paths ts ss) :
    Shows h paths (n :: ts) ss := by
  obtain ⟨pieces, rfl, rfl, hown⟩ := hs
  refine ⟨.note n :: pieces, rfl, rfl, ?_⟩
  intro k hk
  obtain rfl | hk := List.mem_cons.mp hk
  · exact hn
  · exact hown k hk

theorem Shows.block (s : Summary) (hs : Shows h paths ts ss) :
    Shows h paths (s.render :: ts) (s :: ss) := by
  obtain ⟨pieces, rfl, rfl, hown⟩ := hs
  exact ⟨.block s :: pieces, rfl, rfl, hown⟩

theorem Shows.blocks (ds : List Dataset) (hs : Shows h paths ts ss) :
    Shows h paths (ds.map (fun d => d.summary.render) ++ ts) (ds.map Dataset.summary ++ ss) := by
  induction ds with
  | nil => exact hs
  | cons d ds ih => exact ih.block d.summary

end

/-! ## What is changed -/

/-- What the changes of a run do to a tree: directories are added on the way to the output
directory, the unified tracefile is removed, the report is written. -/
structure Confined (h : Host) (paths : OutputPaths) (q : Report) (t : Tree) : Prop where
  dir : Tree.GrowsAlong h.workingDir paths.dir t ((Change.readyDir paths.dir).on h t)
  unified : Tree.OnlyClears (t.NamesFile h.workingDir paths.unified) t
    ((Change.removeFile paths.unified).on h t)
  report : ∀ place,
    ((Change.writeText paths.report q.render).on h t).lookup place = t.lookup place ∨
    t.resolve h.workingDir paths.report = .ok place ∧
      ∃ mode, ((Change.writeText paths.report q.render).on h t).lookup place =
        some (.file (Text.encode q.render) mode)

theorem confined (h : Host) (paths : OutputPaths) (q : Report) (t : Tree) :
    Confined h paths q t where
  dir := Tree.ensureDir_growsAlong t h.workingDir paths.dir
  unified := Tree.removeFileIfThere_onlyClears t h.workingDir paths.unified
  report := by
    intro place
    simp only [Change.on]
    cases hw : t.write h.workingDir paths.report (Text.encode q.render) with
    | error e => exact Or.inl rfl
    | ok t' => exact Tree.lookup_write hw place

/-- The unified tracefile is gone once the output directory is ready. -/
theorem find_unified_preparedTree {h : Host} {dir : Path} {t : Tree}
    (hr : OutputReady h (OutputPaths.inDir dir) t) :
    (preparedTree h (OutputPaths.inDir dir) t).find h.workingDir (dir.join unifiedName) false =
      .error .noEntry := by
  have hplain : Path.IsPlain unifiedName := by decide
  have := Tree.find_removeFileIfThere hr.unified
  rwa [show (OutputPaths.inDir dir).unified = dir.join unifiedName from rfl,
    Path.withoutSlash_join dir hplain] at this

end HostSuite.Coverage
