import HostSuite.Config.Basic
import HostSuite.Coverage.Html

/-
  Unified coverage. Every built project gives a dataset, if it can be captured; the tracefiles of
  the datasets are merged into one, which is summarized and rendered. The report is written once,
  whatever happens after the output directory is ready: without datasets it is empty, after a
  failed merge it holds the datasets, else the datasets and the unified section last. Where the
  run fails anyway, trouble with writing the report is only a warning. Merging and rendering are
  waited for behind a spinner.
-/

namespace HostSuite.Coverage

def unifiedName : String := "unified_coverage.info"

def reportName : String := "summary.txt"

def unifiedLabel : String := "UNIFIED REPORT"

/-- Where the results go. -/
structure OutputPaths where
  dir : Path
  unified : Path
  html : Path
  report : Path
  deriving DecidableEq, Repr

def OutputPaths.inDir (dir : Path) : OutputPaths where
  dir := dir
  unified := dir.join unifiedName
  html := dir.join "html"
  report := dir.join reportName

/-- What one project adds: its tracefile and the section about it. -/
structure Dataset where
  tracefile : Path
  summary : Summary
  deriving DecidableEq, Repr

/-- What a successful run made. -/
structure Unified where
  merged : List Path
  summary : Summary
  page : Path
  deriving DecidableEq, Repr

/-- The dataset of a project that has been built and can be captured. -/
def dataset (h : Host) (c : Config) (patterns : List String) (p : Project) :
    Action (Option Dataset) := do
  let m ← get
  if p.isBuilt m.tree h.workingDir then
    match ← collect h c.tools.lcov p patterns with
    | none => return none
    | some captured =>
      let summary ← summarize h c.tools.lcov captured.effective p.name p.root
      return some ⟨captured.effective, summary⟩
  else return none

/-- The datasets of the projects, in order. -/
def datasets (h : Host) (c : Config) (patterns : List String) :
    List Project → Action (List Dataset)
  | [] => return []
  | p :: ps => do
    let first ← dataset h c patterns p
    let rest ← datasets h c patterns ps
    return first.toList ++ rest

/-- The report on some datasets. -/
def reportOf (h : Host) (ds : List Dataset) : Report := ⟨h.timestamp, ds.map Dataset.summary⟩

/-- Writes the report. -/
def writeReport (h : Host) (p : Path) (r : Report) : Action (Option Failure) := do
  match ← Action.writeText h p r.render with
  | none => return none
  | some e => return some (.other ("Failed to write summary to " ++ p.text) [e.message])

/-- Writes the report of a run that fails for another reason. -/
def writeReportAnyway (h : Host) (p : Path) (r : Report) : Action Unit := do
  match ← writeReport h p r with
  | none => pure ()
  | some failure => Action.notify h .warning failure.chain

/-- Makes the output directory ready and removes the unified tracefile of an earlier run. -/
def prepare (h : Host) (paths : OutputPaths) : Attempt Failure Unit := do
  match ← Action.readyDir h paths.dir with
  | some e => throw (.other ("Failed to create directory: " ++ paths.dir.text) [e.message])
  | none =>
    match ← Action.removeFile h paths.unified with
    | some e =>
      throw (.fault (.config ("Failed to remove previous " ++ paths.unified.text ++ ": " ++
        e.message) none))
    | none => pure ()

/-- Renders the page of the unified tracefile behind a spinner. -/
def renderPage (h : Host) (c : Config) (root : Path) (paths : OutputPaths) :
    Action (Except Fault Path) :=
  Action.behind h .page
    (renderHtml h c.tools.genhtml paths.unified paths.html c.coverage.title root)

/-- Renders the unified tracefile. -/
def publish (h : Host) (c : Config) (root : Path) (paths : OutputPaths) (merged : List Path)
    (summary : Summary) : Attempt Failure Unified := do
  Action.sayLine ("\nGenerating HTML report in " ++ paths.html.text ++ "...")
  match ← renderPage h c root paths with
  | .error f => throw (.fault f)
  | .ok page => return ⟨merged, summary, page⟩

/-- Summarizes the merged datasets, writes the report and renders the page. -/
def conclude (h : Host) (c : Config) (root : Path) (paths : OutputPaths) (ds : List Dataset) :
    Attempt Failure Unified := do
  Action.sayLine ""
  let summary ← summarize h c.tools.lcov paths.unified unifiedLabel root
  match ← writeReport h paths.report ((reportOf h ds).add summary) with
  | some failure => throw failure
  | none => publish h c root paths (ds.map Dataset.tracefile) summary

/-- Merges the tracefiles of the datasets behind a spinner. -/
def mergeAll (h : Host) (c : Config) (root : Path) (paths : OutputPaths) (ds : List Dataset) :
    Action (Except Fault Unit) :=
  Action.behind h .merge
    (merge h c.tools.lcov (ds.map Dataset.tracefile) paths.unified root)

/-- Merges the datasets and goes on from there. -/
def combine (h : Host) (c : Config) (root : Path) (paths : OutputPaths) (ds : List Dataset) :
    Attempt Failure Unified := do
  if ds.isEmpty then
    writeReportAnyway h paths.report (reportOf h ds)
    throw (.fault .noCoverageData)
  else
    Action.sayLine "\nMerging coverage data..."
    match ← mergeAll h c root paths ds with
    | .error f => do
      writeReportAnyway h paths.report (reportOf h ds)
      throw (.fault f)
    | .ok _ => conclude h c root paths ds

/-- Makes the unified coverage of some projects. -/
def unify (h : Host) (c : Config) (root : Path) (projects : List Project)
    (patterns : List String) : Attempt Failure Unified := do
  let paths := OutputPaths.inDir (c.outputDir root)
  prepare h paths
  Action.announce h "Generating Coverage Reports"
  Action.sayLine ""
  let ds ← datasets h c patterns projects
  combine h c root paths ds

end HostSuite.Coverage
