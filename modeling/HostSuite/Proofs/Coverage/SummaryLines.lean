import HostSuite.Coverage.Percent
import HostSuite.Proofs.Project.Version

/-
  Lines read out of what a command printed. The words that make a summary line hold no blanks at
  their ends, so it does not matter whether a line is trimmed before it is judged, and the summary
  lines of a text are some of its non-blank trimmed lines (`summaryLines_eq`). The two outputs of a
  command keep their non-blank lines when they are put together, so what is read out of both is what
  is read out of the output and then what is read out of the error output (`streams_read_in_turn`).
-/

namespace HostSuite.Coverage

theorem isSummaryLine_trim (line : String) :
    isSummaryLine (Text.trim line) = isSummaryLine line := by
  have hcolon : Text.contains (Text.trim line) ":" = Text.contains line ":" :=
    Text.contains_trim (by decide) line
  have hlines : Text.contains (Text.trim line) "lines" = Text.contains line "lines" :=
    Text.contains_trim (by decide) line
  have hfunctions : Text.contains (Text.trim line) "functions" = Text.contains line "functions" :=
    Text.contains_trim (by decide) line
  unfold isSummaryLine
  rw [hcolon, hlines, hfunctions]

/-- Nothing is left out for being blank: a summary line has a colon. -/
theorem summaryLines_eq (text : String) :
    summaryLines text = (Text.nonblankLines text).filter isSummaryLine := by
  have hnonblank (l : String) : (isSummaryLine l && decide (l ≠ "")) = isSummaryLine l := by
    by_cases hl : l = ""
    · subst hl
      decide
    · simp [hl]
  have hjudged : isSummaryLine ∘ Text.trim = isSummaryLine := by
    funext line
    rw [Function.comp_apply, isSummaryLine_trim]
  unfold summaryLines Text.nonblankLines Text.trimmedLines
  rw [List.filter_filter, List.filter_map]
  simp only [hnonblank, hjudged]

theorem isTrimmedLine_of_mem_summaryLines {text l : String} (hl : l ∈ summaryLines text) :
    Text.IsTrimmedLine l := by
  rw [summaryLines_eq] at hl
  exact Text.isTrimmedLine_of_mem (List.mem_of_mem_filter hl)

theorem summaryLines_combined (r : CommandResult) :
    summaryLines r.combined = summaryLines r.stdout ++ summaryLines r.stderr := by
  rw [summaryLines_eq, summaryLines_eq, summaryLines_eq, Text.nonblankLines_combined,
    List.filter_append]

/-- Summary lines that are written one below the other are read again as they are. -/
theorem summaryLines_intercalate (text : String) :
    summaryLines ("\n".intercalate (summaryLines text)) = summaryLines text := by
  simp only [summaryLines_eq, Text.filter_nonblankLines_intercalate]

/-- Whatever a command put on its two outputs, the summary lines of both together are those of the
output and then those of the error output. Each one is trimmed, has something on it and is one line,
and written one below the other they are read as they are. The version of a tool that ran with
success is the first non-blank trimmed line of its output, and only without one that of its error
output. -/
theorem streams_read_in_turn :
    (∀ r : CommandResult,
      summaryLines r.combined = summaryLines r.stdout ++ summaryLines r.stderr) ∧
    (∀ text, ∀ l ∈ summaryLines text, Text.IsTrimmedLine l) ∧
    (∀ text, summaryLines ("\n".intercalate (summaryLines text)) = summaryLines text) ∧
    ∀ (h : Host) (m : Machine) (name : String) (cwd : Path),
      ∃ m' v, Runs h (Tool.version? h name cwd) m v m'
          [m.exchange h ((Command.new name cwd).arg "--version")] [] [] ∧
        ∀ r, (m.exchange h ((Command.new name cwd).arg "--version")).outcome = .ok r →
          r.success = true →
            v = (Text.nonblankLines r.stdout).head?.or (Text.nonblankLines r.stderr).head? := by
  refine ⟨summaryLines_combined, fun text l hl => isTrimmedLine_of_mem_summaryLines hl,
    summaryLines_intercalate, ?_⟩
  intro h m name cwd
  obtain ⟨m', hm⟩ := Tool.version?_runs h m name cwd
  refine ⟨m', _, hm, ?_⟩
  intro r ho hs
  rw [ho]
  show (if r.success then Tool.firstLine? r.combined else none) = _
  rw [if_pos hs, Tool.firstLine?_combined]

/-- Tools whose output ends in a carriage return, or has a blank line only. -/
def sampleResult : CommandResult := .ofStatus 0 " lines......: 50.0%\r" "functions..: no data\n" 1
def sampleVersion : CommandResult := .ofStatus 0 " \n" "tool 1.0\r\nmore\n" 1
def versionHost : Host where
  runner := fun _ _ t => ⟨.ok sampleVersion, t, []⟩

theorem streams_read_in_turn_sample :
    summaryLines sampleResult.combined = ["lines......: 50.0%", "functions..: no data"] ∧
      ∃ m' x, Runs versionHost (Tool.version? versionHost "tool" ⟨"/"⟩) ⟨.empty, [], 0⟩
        (some "tool 1.0") m' [x] [] [] := by
  obtain ⟨hcombined, -, -, hversion⟩ := streams_read_in_turn
  refine ⟨?_, ?_⟩
  · rw [hcombined]
    decide +kernel
  · obtain ⟨m', v, hruns, hv⟩ := hversion versionHost ⟨.empty, [], 0⟩ "tool" ⟨"/"⟩
    have hsome : v = some "tool 1.0" := by
      rw [hv sampleVersion rfl rfl]
      decide +kernel
    rw [hsome] at hruns
    exact ⟨m', _, hruns⟩

end HostSuite.Coverage
