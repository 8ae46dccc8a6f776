import HostSuite.Proofs.Coverage.MergeInputs
import HostSuite.Proofs.Coverage.Report
import HostSuite.Proofs.Text.Blocks
import HostSuite.Proofs.Text.Trimmed

/-
  Diagnostics. What a tool printed before it failed goes with the fault: its two streams are put
  together, trimmed as a whole, kept in the fault, and cut into lines again where the fault is
  shown. Up to the blanks around them no line is lost on this way (`Keeps`), whatever blank lines,
  carriage returns and missing line feeds there are in either stream. A display is written line by
  line, the rows with what the tool printed between the error and the hint (`display_eq_unlines`).
  A merge or a page that ran and failed gives such a fault, and unified coverage fails with it
  (`diagnostics_kept`).
-/

namespace HostSuite

namespace CommandResult

/-! ## The text of both streams -/

/-- The line feed that may be put between the streams is a blank. -/
theorem blank_combinedChars_iff (out err : List Char) :
    (∀ c ∈ combinedChars out err, Text.isBlank c = true) ↔
      ∀ c ∈ out ++ err, Text.isBlank c = true := by
  have hfeed : Text.isBlank '\n' = true := by decide
  unfold combinedChars
  split
  · rfl
  · simp only [List.forall_mem_append, List.forall_mem_cons, hfeed, true_and]

/-- There is something to show exactly if a character was printed that is no blank. -/
theorem isSome_diagnostics_iff (r : CommandResult) :
    r.diagnostics.isSome = true ↔
      ∃ c ∈ r.stdout.toList ++ r.stderr.toList, Text.isBlank c = false := by
  have hnone : Text.trim r.combined = "" ↔
      ∀ c ∈ r.stdout.toList ++ r.stderr.toList, Text.isBlank c = true := by
    rw [← blank_combinedChars_iff, ← Text.trimChars_eq_nil_iff, Text.trim, combined,
      String.toList_ofList]
    exact String.ofList_eq_empty_iff
  unfold diagnostics
  by_cases ht : Text.trim r.combined = ""
  · simp only [ht, if_true]
    have hall := hnone.mp ht
    constructor
    · intro hsome
      cases hsome
    · rintro ⟨c, hc, hb⟩
      rw [hall c hc] at hb
      cases hb
  · simp only [ht, if_false]
    rw [hnone] at ht
    push Not at ht
    simpa using ht

theorem nonblankLines_diagnostics (r : CommandResult) :
    r.diagnostics.elim [] Text.nonblankLines =
      Text.nonblankLines r.stdout ++ Text.nonblankLines r.stderr := by
  have hlines : Text.nonblankLines (Text.trim r.combined) =
      Text.nonblankLines r.stdout ++ Text.nonblankLines r.stderr := by
    rw [Text.nonblankLines_trim, Text.nonblankLines_combined]
  unfold diagnostics
  by_cases ht : Text.trim r.combined = ""
  · have hempty : Text.nonblankLines "" = [] := by decide
    rw [if_pos ht, Option.elim_none, ← hlines, ht, hempty]
  · rw [if_neg ht, Option.elim_some, hlines]

end CommandResult

/-! ## The display of a fault, line by line -/

theorem indented_eq_unlines (text : String) :
    indented text = Text.unlines ((Text.lines text).map ("  " ++ ·)) := by
  unfold indented Text.unlines
  rw [List.map_map]
  rfl

namespace Fault

/-- What a missing tool would have been needed for. -/
def requiredFor : Fault → Option String
  | missingTool _ requiredFor _ => some requiredFor
  | _ => none

/-- The tracefiles that could not be merged. -/
def inputs : Fault → List Path
  | mergeFailure inputs _ => inputs
  | _ => []

section

variable (s : Style) (f : Fault)

def errorLines : List String :=
  ["", s.label .red "ERROR:" ++ " " ++ f.message] ++
    (f.requiredFor.map ("  required for: " ++ ·)).toList

/-- A row for each line of what the tool printed. -/
def outputRows : List String := (f.toolOutput.elim [] Text.lines).map ("  " ++ ·)

def outputLines : List String :=
  if f.toolOutput.isSome then ["", s.label .cyan "OUTPUT:"] ++ f.outputRows else []

def hintLines : List String := f.hint.elim [] fun h => ["", s.label .yellow "HINT:" ++ " " ++ h]

def inputLines : List String :=
  if f.inputs = [] then []
  else ["", s.label .cyan "INPUTS:"] ++ f.inputs.map fun p => "  • " ++ p.text

def displayLines : List String :=
  f.errorLines s ++ f.outputLines s ++ f.hintLines s ++ f.inputLines s ++ [""]

/-- The parts of a display, those left out that the fault has no data for. -/
theorem display_eq_parts :
    f.display s =
      "\n" ++ s.label .red "ERROR:" ++ " " ++ f.message ++ "\n" ++
        (f.requiredFor.elim "" fun r => "  required for: " ++ r ++ "\n") ++
        (f.toolOutput.elim "" fun o => "\n" ++ s.label .cyan "OUTPUT:" ++ "\n" ++ indented o) ++
        (f.hint.elim "" fun h => "\n" ++ s.label .yellow "HINT:" ++ " " ++ h ++ "\n") ++
        (if f.inputs.isEmpty then ""
          else "\n" ++ s.label .cyan "INPUTS:" ++ "\n" ++
            String.join (f.inputs.map fun p => "  • " ++ p.text ++ "\n")) ++ "\n" := by
  cases f <;> rfl

theorem unlines_errorLines :
    Text.unlines (f.errorLines s) = "\n" ++ s.label .red "ERROR:" ++ " " ++ f.message ++ "\n" ++
      (f.requiredFor.elim "" fun r => "  required for: " ++ r ++ "\n") := by
  unfold errorLines
  cases f.requiredFor <;> simp [Text.unlines, String.join_cons, String.append_assoc]

theorem unlines_outputLines :
    Text.unlines (f.outputLines s) =
      f.toolOutput.elim "" fun o => "\n" ++ s.label .cyan "OUTPUT:" ++ "\n" ++ indented o := by
  unfold outputLines outputRows
  cases f.toolOutput with
  | none => rfl
  | some o => simp [indented_eq_unlines, Text.unlines_cons, String.append_assoc]

theorem unlines_hintLines :
    Text.unlines (f.hintLines s) =
      f.hint.elim "" fun h => "\n" ++ s.label .yellow "HINT:" ++ " " ++ h ++ "\n" := by
  unfold hintLines
  cases f.hint <;> simp [Text.unlines, String.join_cons, String.append_assoc]

theorem unlines_inputLines :
    Text.unlines (f.inputLines s) =
      if f.inputs.isEmpty then ""
      else "\n" ++ s.label .cyan "INPUTS:" ++ "\n" ++
        String.join (f.inputs.map fun p => "  • " ++ p.text ++ "\n") := by
  unfold inputLines
  cases f.inputs with
  | nil => rfl
  | cons p ps => simp [Text.unlines, String.join_cons, String.append_assoc, Function.comp_def]

theorem display_eq_unlines : f.display s = Text.unlines (f.displayLines s) := by
  have hend : Text.unlines [""] = "\n" := rfl
  unfold displayLines
  rw [display_eq_parts, Text.unlines_append, Text.unlines_append, Text.unlines_append,
    Text.unlines_append, unlines_errorLines, unlines_outputLines, unlines_hintLines,
    unlines_inputLines, hend]

end

end Fault

/-! ## Nothing is lost -/

/-- Two spaces in front of a text are gone once it is trimmed. -/
theorem trim_row (l : String) : Text.trim ("  " ++ l) = Text.trim l := by
  have hrow : ("  " ++ l).toList = ' ' :: ' ' :: l.toList := by simp
  have hblank : Text.isBlank ' ' = true := by decide
  unfold Text.trim Text.trimChars
  rw [hrow, List.dropWhile_cons_of_pos hblank, List.dropWhile_cons_of_pos hblank]

/-- The fault keeps what the command printed. It has output exactly if there was anything but blanks
to keep, the lines that have anything on them are those of the output and then those of the error
output, and the display shows each of them in a row of its own, between the error and the hint; the
inputs of a merge follow, one a line. -/
structure Keeps (r : CommandResult) (f : Fault) : Prop where
  carried : f.toolOutput.isSome = true ↔
    ∃ c ∈ r.stdout.toList ++ r.stderr.toList, Text.isBlank c = false
  lines : f.toolOutput.elim [] Text.nonblankLines =
    Text.nonblankLines r.stdout ++ Text.nonblankLines r.stderr
  rows : (f.outputRows.map Text.trim).filter (· ≠ "") =
    Text.nonblankLines r.stdout ++ Text.nonblankLines r.stderr
  indented : ∀ row ∈ f.outputRows, "  ".toList <+: row.toList ∧ '\n' ∉ row.toList
  displayed : ∀ s, f.display s = Text.unlines (f.errorLines s ++ f.outputLines s ++ f.hintLines s ++
    f.inputLines s ++ [""])

/-- It is enough that the fault has the diagnostics of the command. -/
theorem keeps_of_toolOutput {r : CommandResult} {f : Fault} (hf : f.toolOutput = r.diagnostics) :
    Keeps r f := by
  have hlines : f.toolOutput.elim [] Text.nonblankLines =
      Text.nonblankLines r.stdout ++ Text.nonblankLines r.stderr := by
    rw [hf, r.nonblankLines_diagnostics]
  have hrows : f.outputRows.map Text.trim = f.toolOutput.elim [] Text.trimmedLines := by
    unfold Fault.outputRows
    simp only [List.map_map, Function.comp_def, trim_row]
    cases f.toolOutput <;> rfl
  refine ⟨?_, hlines, ?_, ?_, f.display_eq_unlines⟩
  · rw [hf, r.isSome_diagnostics_iff]
  · rw [hrows, ← hlines]
    cases f.toolOutput <;> rfl
  · intro row hrow
    obtain ⟨l, hl, rfl⟩ := List.mem_map.mp hrow
    have hfeed : '\n' ∉ l.toList := by
      cases ho : f.toolOutput with
      | none => rw [ho] at hl; cases hl
      | some o => rw [ho] at hl; exact Text.not_mem_of_mem_lines hl
    simp [hfeed]

-- The output is a variable in these equations, or else the diagnostics would be computed.
theorem keeps_mergeFailure (r : CommandResult) (inputs : List Path) :
    Keeps r (.mergeFailure inputs r.diagnostics) := by
  have hf (o : Option String) : (Fault.mergeFailure inputs o).toolOutput = o := rfl
  exact keeps_of_toolOutput (hf r.diagnostics)

theorem keeps_reportFailure (r : CommandResult) (tracefile : Path) :
    Keeps r (.reportFailure tracefile r.diagnostics) := by
  have hf (o : Option String) : (Fault.reportFailure tracefile o).toolOutput = o := rfl
  exact keeps_of_toolOutput (hf r.diagnostics)

namespace Coverage

section

variable {h : Host} {c : Config} {root : Path} {paths : OutputPaths} {ds : List Dataset}
  {zs : List Exchange} {ss : List Summary} {res : Except Failure Unified}

theorem failed_of_outcome {x : Exchange} {r : CommandResult} (ho : x.outcome = .ok r)
    (hr : r.success = false) : x.succeeded = false ∧ troubleOf x.outcome = r.diagnostics := by
  rw [Exchange.succeeded, ho]
  exact ⟨hr, rfl⟩

/-- Of what follows the turns, a merge or a page that ran and failed is what the run fails with. A
summary may fail as well. -/
theorem Fate.failed (hf : Fate h c root paths ds zs ss res) {x : Exchange} (hx : x ∈ zs)
    {r : CommandResult} (ho : x.outcome = .ok r) (hr : r.success = false) :
    x.command = summaryCommand c.tools.lcov paths.unified root ∨
      (IsMergeOf c root paths ds x ∧
        res = .error (.fault (.mergeFailure (ds.map Dataset.tracefile) r.diagnostics))) ∨
      x.command = htmlCommand c.tools.genhtml paths.unified paths.html c.coverage.title root ∧
        res = .error (.fault (.reportFailure paths.unified r.diagnostics)) := by
  obtain ⟨hfailed, htrouble⟩ := failed_of_outcome ho hr
  have hne {y : Exchange} (hy : y.succeeded = true) : x ≠ y := by
    rintro rfl
    rw [hy] at hfailed
    cases hfailed
  cases hf with
  | noData => cases hx
  | mergeFailed hmerge _ =>
    obtain rfl := List.mem_singleton.mp hx
    rw [htrouble]
    exact Or.inr (Or.inl ⟨hmerge, rfl⟩)
  | writeFailed hmerge hy hw =>
    simp only [List.mem_cons, List.not_mem_nil, or_false] at hx
    rcases hx with rfl | rfl
    · exact absurd rfl (hne hy.1)
    · exact Or.inl hy.2
  | pageFailed hmerge hy hz _ =>
    simp only [List.mem_cons, List.not_mem_nil, or_false] at hx
    rcases hx with rfl | rfl | rfl
    · exact absurd rfl (hne hy.1)
    · exact Or.inl hy.2
    · rw [htrouble]
      exact Or.inr (Or.inr ⟨hz.2, rfl⟩)
  | done hmerge hy hz hs =>
    simp only [List.mem_cons, List.not_mem_nil, or_false] at hx
    rcases hx with rfl | rfl | rfl
    · exact absurd rfl (hne hy.1)
    · exact Or.inl hy.2
    · exact absurd rfl (hne hs)

end

variable (h : Host) (m : Machine)

theorem merge_keeps (lcov : String) (inputs : List Path) (output cwd : Path) {r : CommandResult}
    (ho : (m.exchange h (mergeCommand lcov inputs output cwd)).outcome = .ok r)
    (hr : r.success = false) :
    ∃ m' o, Runs h (merge h lcov inputs output cwd) m (.error (.mergeFailure inputs o)) m'
        [m.exchange h (mergeCommand lcov inputs output cwd)] [] [] ∧
      Keeps r (.mergeFailure inputs o) := by
  obtain ⟨m', x, hm, hx⟩ := merge_runs h m lcov inputs output cwd
  obtain ⟨hs, ht⟩ := failed_of_outcome ho hr
  rw [hx, if_neg (Bool.eq_false_iff.mp hs), ht] at hm
  exact ⟨m', r.diagnostics, hm, keeps_mergeFailure r inputs⟩

theorem renderHtml_keeps (genhtml : String) (tracefile dir : Path) (title : String) (cwd : Path)
    {r : CommandResult}
    (ho : (m.exchange h (htmlCommand genhtml tracefile dir title cwd)).outcome = .ok r)
    (hr : r.success = false) :
    ∃ m' o, Runs h (renderHtml h genhtml tracefile dir title cwd) m
        (.error (.reportFailure tracefile o)) m'
        [m.exchange h (htmlCommand genhtml tracefile dir title cwd)] [] [] ∧
      Keeps r (.reportFailure tracefile o) := by
  obtain ⟨m', z, hm, hz⟩ := renderHtml_runs h m genhtml tracefile dir title cwd
  obtain ⟨hs, ht⟩ := failed_of_outcome ho hr
  rw [hz, if_neg (Bool.eq_false_iff.mp hs), ht] at hm
  exact ⟨m', r.diagnostics, hm, keeps_reportFailure r tracefile⟩

/-- The command that renders the page of a run. -/
def pageCommand (c : Config) (root : Path) : Command :=
  htmlCommand c.tools.genhtml ((c.outputDir root).join unifiedName)
    (OutputPaths.inDir (c.outputDir root)).html c.coverage.title root

/-- A run fails with what the failed command printed. -/
structure TellsFailure (c : Config) (root : Path) (x : Exchange) (r : CommandResult)
    (res : Except Failure Unified) : Prop where
  merge : x.command.isMerge = true → ∃ inputs o, res = .error (.fault (.mergeFailure inputs o)) ∧
    inputs.map Path.text = Command.markedInputs x.command.args ∧ Keeps r (.mergeFailure inputs o)
  page : x.command = pageCommand c root → ∃ o,
    res = .error (.fault (.reportFailure ((c.outputDir root).join unifiedName) o)) ∧
    Keeps r (.reportFailure ((c.outputDir root).join unifiedName) o)

theorem verb_pageCommand_ne (c : Config) (root : Path) {text : String}
    (ht : text.length < unifiedName.length) : (pageCommand c root).verb ≠ some text :=
  verb_htmlCommand_ne _ root c.tools.genhtml _ c.coverage.title ht

theorem isMerge_pageCommand (c : Config) (root : Path) : (pageCommand c root).isMerge = false :=
  isMerge_htmlCommand _ root c.tools.genhtml _ c.coverage.title

/-- The commands of the turns and the summaries are neither merges nor pages. -/
theorem tellsFailure_of_verb {c : Config} {root : Path} {x : Exchange} {r : CommandResult}
    {res : Except Failure Unified}
    (hx : ∃ v ∈ ["--capture", "--remove", "--summary"], x.command.verb = some v) :
    TellsFailure c root x r res := by
  obtain ⟨v, hv, hverb⟩ := hx
  have hall : ∀ v ∈ ["--capture", "--remove", "--summary"],
      v ≠ "-a" ∧ v.length < unifiedName.length := by decide
  obtain ⟨hne, hshort⟩ := hall v hv
  constructor
  · intro hm
    unfold Command.isMerge at hm
    rw [hverb] at hm
    exact absurd (Option.some.inj (of_decide_eq_true hm)) hne
  · intro hp
    rw [hp] at hverb
    exact absurd hverb (verb_pageCommand_ne c root hshort)

theorem Fate.tellsFailure {h : Host} {c : Config} {root : Path} {ds : List Dataset}
    {zs : List Exchange} {ss : List Summary} {res : Except Failure Unified}
    (hf : Fate h c root (OutputPaths.inDir (c.outputDir root)) ds zs ss res) {x : Exchange}
    (hx : x ∈ zs) {r : CommandResult} (ho : x.outcome = .ok r) (hr : r.success = false) :
    TellsFailure c root x r res := by
  rcases hf.failed hx ho hr with hsummary | ⟨⟨hds, hmerge⟩, rfl⟩ | ⟨hpage, rfl⟩
  · exact tellsFailure_of_verb ⟨"--summary", by simp, by rw [hsummary]; rfl⟩
  · have hyes : x.command.isMerge = true := by
      rw [hmerge]
      exact isMerge_mergeCommand _ root _ _ (by simpa using hds)
    constructor
    · intro _
      refine ⟨_, _, rfl, ?_, keeps_mergeFailure r _⟩
      rw [hmerge, markedInputs_mergeCommand]
    · intro hp
      rw [hp, isMerge_pageCommand] at hyes
      cases hyes
  · constructor
    · intro hm
      rw [show x.command = pageCommand c root from hpage, isMerge_pageCommand] at hm
      cases hm
    · intro _
      exact ⟨_, rfl, keeps_reportFailure r _⟩

theorem unify_tellsFailure (c : Config) (root : Path) (ps : List Project) (patterns : List String) :
    ∃ m' xs cs ts res, Runs h (unify h c root ps patterns).run m res m' xs cs ts ∧
      ∀ x ∈ xs, ∀ r, x.outcome = .ok r → r.success = false → TellsFailure c root x r res := by
  by_cases hready : OutputReady h (OutputPaths.inDir (c.outputDir root)) m.tree
  · obtain ⟨m', xs, ds, zs, ts, q, res, hm, hl, he, -⟩ := unify_runs h m c root ps patterns hready
    refine ⟨m', xs ++ zs, _, _, res, hm, ?_⟩
    intro x hx r ho hr
    rcases List.mem_append.mp hx with hx | hx
    · exact tellsFailure_of_verb (hl.verbs x hx)
    · exact he.fate.tellsFailure hx ho hr
  · obtain ⟨m', f, cs, hm, -⟩ := unify_runs_unready h m c root ps patterns hready
    exact ⟨m', [], cs, [], _, hm, by simp⟩

/-- Whatever a merge or the rendering of a page printed on its two streams before it failed, the
fault that comes of it keeps and shows it. A run of unified coverage in which a merge or the page
ran and failed ends with that fault, and the fault of a merge names the inputs of the command, in
order. -/
theorem diagnostics_kept (h : Host) (m : Machine) :
    (∀ lcov inputs output cwd r,
      (m.exchange h (mergeCommand lcov inputs output cwd)).outcome = .ok r → r.success = false →
      ∃ m' o, Runs h (merge h lcov inputs output cwd) m (.error (.mergeFailure inputs o)) m'
          [m.exchange h (mergeCommand lcov inputs output cwd)] [] [] ∧
        Keeps r (.mergeFailure inputs o)) ∧
    (∀ genhtml tracefile dir title cwd r,
      (m.exchange h (htmlCommand genhtml tracefile dir title cwd)).outcome = .ok r →
      r.success = false →
      ∃ m' o, Runs h (renderHtml h genhtml tracefile dir title cwd) m
          (.error (.reportFailure tracefile o)) m'
          [m.exchange h (htmlCommand genhtml tracefile dir title cwd)] [] [] ∧
        Keeps r (.reportFailure tracefile o)) ∧
    ∀ c root ps patterns,
      ∃ m' xs cs ts res, Runs h (unify h c root ps patterns).run m res m' xs cs ts ∧
        ∀ x ∈ xs, ∀ r, x.outcome = .ok r → r.success = false → TellsFailure c root x r res := by
  refine ⟨?_, ?_, unify_tellsFailure h m⟩
  · intro lcov inputs output cwd r ho hr
    exact merge_keeps h m lcov inputs output cwd ho hr
  · intro genhtml tracefile dir title cwd r ho hr
    exact renderHtml_keeps h m genhtml tracefile dir title cwd ho hr

/-- Blank lines, a carriage return, and no line feed at the end of either stream. -/
def corruptResult : CommandResult :=
  ⟨false, 1, "Combining tracefiles.\r\n\r\n\t a.info", "  lcov: ERROR: corrupt", 0, none⟩

/-- Captures and summaries succeed; every other command fails. -/
def corruptHost : Host where
  runner := fun _ c t =>
    ⟨.ok (if c.verb = some "--capture" ∨ c.verb = some "--summary" then ⟨true, 0, "", "", 0, none⟩
      else corruptResult), t, []⟩

/-- The lines of both streams. -/
def corruptLines : List String := ["Combining tracefiles.", "a.info", "lcov: ERROR: corrupt"]

theorem nonblankLines_corruptResult :
    Text.nonblankLines corruptResult.stdout ++ Text.nonblankLines corruptResult.stderr =
      corruptLines := by
  decide +kernel

theorem printed_corruptResult :
    ∃ c ∈ corruptResult.stdout.toList ++ corruptResult.stderr.toList, Text.isBlank c = false :=
  ⟨'C', by simp [corruptResult], by decide⟩

theorem outcome_corruptHost (m : Machine) {c : Command} (hc : c.isMerge = true) :
    (m.exchange corruptHost c).outcome = .ok corruptResult := by
  have hverb : c.verb = some "-a" := of_decide_eq_true hc
  show Except.ok (if c.verb = some "--capture" ∨ c.verb = some "--summary" then _ else _) = _
  rw [hverb, if_neg (by decide)]

theorem diagnostics_kept_corrupt :
    (∃ m' o xs, Runs corruptHost
        (merge corruptHost "lcov" [⟨"a.info"⟩, ⟨"b.info"⟩] ⟨"all.info"⟩ ⟨"/"⟩) ⟨Tree.empty, [], 0⟩
        (.error (.mergeFailure [⟨"a.info"⟩, ⟨"b.info"⟩] o)) m' xs [] [] ∧
      o.isSome = true ∧ o.elim [] Text.nonblankLines = corruptLines) ∧
    (∃ m' o xs, Runs corruptHost
        (renderHtml corruptHost "genhtml" ⟨"all.info"⟩ ⟨"html"⟩ "Suite" ⟨"/"⟩) ⟨Tree.empty, [], 0⟩
        (.error (.reportFailure ⟨"all.info"⟩ o)) m' xs [] [] ∧
      o.isSome = true ∧ o.elim [] Text.nonblankLines = corruptLines) ∧
    ∃ m' xs cs ts f, Runs corruptHost
        (unify corruptHost {} ⟨"/"⟩ [.inDir ⟨"/a"⟩ "build"] []).run ⟨sampleTree, [], 0⟩
        (.error (.fault f)) m' xs cs ts ∧
      (f.outputRows.map Text.trim).filter (· ≠ "") = corruptLines := by
  obtain ⟨hmerge, hpage, -⟩ := diagnostics_kept corruptHost ⟨Tree.empty, [], 0⟩
  obtain ⟨-, -, hrun⟩ := diagnostics_kept corruptHost ⟨sampleTree, [], 0⟩
  refine ⟨?_, ?_, ?_⟩
  · obtain ⟨m', o, hm, hk⟩ := hmerge "lcov" [⟨"a.info"⟩, ⟨"b.info"⟩] ⟨"all.info"⟩ ⟨"/"⟩
      corruptResult rfl rfl
    exact ⟨m', o, _, hm, hk.carried.mpr printed_corruptResult,
      hk.lines.trans nonblankLines_corruptResult⟩
  · obtain ⟨m', o, hm, hk⟩ := hpage "genhtml" ⟨"all.info"⟩ ⟨"html"⟩ "Suite" ⟨"/"⟩
      corruptResult rfl rfl
    exact ⟨m', o, _, hm, hk.carried.mpr printed_corruptResult,
      hk.lines.trans nonblankLines_corruptResult⟩
  · obtain ⟨m', xs, cs, ts, res, hm, htells⟩ := hrun {} ⟨"/"⟩ [.inDir ⟨"/a"⟩ "build"] []
    -- The run comes to its merge.
    have hsent : ((unify corruptHost {} ⟨"/"⟩ [.inDir ⟨"/a"⟩ "build"] []).run
        ⟨sampleTree, [], 0⟩).2.commands.any Command.isMerge = true := by decide +kernel
    rw [hm.1, hm.commands] at hsent
    obtain ⟨c, hc, hx⟩ := List.any_eq_true.mp hsent
    obtain ⟨x, hmem, rfl⟩ := List.mem_map.mp hc
    obtain ⟨m₁, c, rfl⟩ := hm.answered x hmem
    obtain ⟨inputs, o, rfl, -, hk⟩ :=
      (htells _ hmem corruptResult (outcome_corruptHost m₁ hx) rfl).merge hx
    exact ⟨m', xs, cs, ts, _, hm, hk.rows.trans nonblankLines_corruptResult⟩

end Coverage

end HostSuite
