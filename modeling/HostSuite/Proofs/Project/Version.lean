import HostSuite.Project.Tool
import HostSuite.Proofs.Machine.Course
import HostSuite.Proofs.Text.Trimmed

/-
  Versions of tools. What a tool tells about its version is the first line it printed with anything
  on it, which is the first one of its output, or without one that of its error output
  (`firstLine?_combined`).
-/

namespace HostSuite.Tool

theorem firstLine?_eq (text : String) :
    firstLine? text = (Text.nonblankLines text).head? := by
  unfold firstLine? Text.nonblankLines Text.trimmedLines
  rw [List.head?_filter]

theorem firstLine?_combined (r : CommandResult) :
    firstLine? r.combined =
      (Text.nonblankLines r.stdout).head?.or (Text.nonblankLines r.stderr).head? := by
  rw [firstLine?_eq, Text.nonblankLines_combined, List.head?_append]

/-- A tool is asked once, and tells its version exactly if it ran with success. -/
theorem version?_runs (h : Host) (m : Machine) (name : String) (cwd : Path) :
    ∃ m', Runs h (version? h name cwd) m
      ((m.exchange h ((Command.new name cwd).arg "--version")).outcome.toOption.bind fun r =>
        if r.success then firstLine? r.combined else none)
      m' [m.exchange h ((Command.new name cwd).arg "--version")] [] [] := by
  obtain ⟨m₁, hm₁⟩ := Action.invoke_runs h m ((Command.new name cwd).arg "--version")
  unfold version?
  cases ho : (m.exchange h ((Command.new name cwd).arg "--version")).outcome with
  | error e =>
    rw [ho] at hm₁
    exact ⟨m₁, hm₁.bind_silent (Runs.pure h m₁ none)⟩
  | ok r =>
    rw [ho] at hm₁
    exact ⟨m₁, hm₁.bind_silent (Runs.pure h m₁ _)⟩

end HostSuite.Tool
