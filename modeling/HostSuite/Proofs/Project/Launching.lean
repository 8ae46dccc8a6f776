import HostSuite.Proofs.Machine.Course
import HostSuite.Proofs.Tree.Walk

/-
  What is known of launching commands. The child of a command is in the working directory of the
  command before its program is looked for. A name with a slash is a path from there; a plain name
  is looked for along the search path, where the search goes on after a file that is missing or may
  not be started (`startedPath?`). What comes of starting a file is nobody's business here
  (`Starter`): it either gives the reply to the command or a reason why it was not started.
-/

namespace HostSuite

/-- What comes of the child of a command, sent after some others, that works at a place and starts
the file at a path. -/
abbrev Starter := List Command → Command → Place → Tree → Path → Except IoError Reply

/-- The search goes on after a file that cannot be started for this reason. -/
def IoError.isPassedOver : IoError → Bool
  | permissionDenied | noEntry | notDirectory => true
  | _ => false

/-- The search goes on after what came of a file. -/
def passesOver {α : Type} : Except IoError α → Bool
  | .error e => e.isPassedOver
  | .ok _ => false

/-- The path that a child is started from: its name, or the first along the search path that is not
passed over. -/
def startedPath? {α : Type} (dirs : List Path) (name : String) (start : Path → Except IoError α) :
    Option Path :=
  if name = "" then none
  else if '/' ∈ name.toList then some ⟨name⟩
  else (dirs.map (·.join name)).find? fun q => !passesOver (start q)

/-- The place of the file that a path leads to, if it may be executed. -/
def programAt? (t : Tree) (here : Place) (q : Path) : Option Place :=
  match t.find here q with
  | .ok (place, .file _ mode) => if Tree.mayExecute mode then some place else none
  | _ => none

/-- The reply of the child of a command, if a file could be started for it. -/
def launched? (dirs : List Path) (start : Starter) (before : List Command) (c : Command)
    (here : Place) (t : Tree) : Option Reply :=
  (startedPath? dirs c.program (start before c here t)).bind fun q =>
    (start before c here t q).toOption

/-- What is known of how a host launches commands. -/
structure Host.Launches (h : Host) (start : Starter) : Prop where
  refuses : ∀ {before c here t q}, programAt? t here q = none → ∃ e,
    start before c here t q = .error e ∧ (e = .permissionDenied ∨ t.find here q = .error e)
  answers : ∀ {before c here t mode reply}, t.find h.workingDir c.cwd = .ok (here, .dir mode) →
    launched? h.searchPath start before c here t = some reply → h.runner before c t = reply
  fails : ∀ {before c here t mode}, t.find h.workingDir c.cwd = .ok (here, .dir mode) →
    launched? h.searchPath start before c here t = none →
    ∃ e, (h.runner before c t).outcome = .error e

/-- The place of the file that a command is carried out by, from a working directory. -/
def startedFile? (dirs : List Path) (start : Starter) (before : List Command) (c : Command)
    (here : Place) (t : Tree) : Option Place :=
  (startedPath? dirs c.program (start before c here t)).bind (programAt? t here)

section

variable {t : Tree} {here place : Place} {q : Path}

theorem programAt?_eq_some_iff : programAt? t here q = some place ↔
    ∃ content mode, t.find here q = .ok (place, .file content mode) ∧
      Tree.mayExecute mode = true := by
  unfold programAt?
  split
  · rename_i found content mode hf
    rw [hf, Option.ite_none_right_eq_some]
    constructor
    · rintro ⟨he, hfound⟩
      cases hfound
      exact ⟨content, mode, rfl, he⟩
    · rintro ⟨_, _, hfile, he⟩
      cases hfile
      exact ⟨he, rfl⟩
  · rename_i hne
    constructor
    · intro h
      cases h
    · rintro ⟨content, mode, hf, -⟩
      exact absurd hf (hne place content mode)

theorem isProgram_iff_programAt? : t.isProgram here q = true ↔
    ∃ place, programAt? t here q = some place := by
  rw [Tree.isProgram_iff]
  exact exists_congr fun place => programAt?_eq_some_iff.symm

/-- A path that leads to a program from one place leads to it from another exactly if it leads to
its place. -/
theorem programAt?_eq_some_iff_resolve {base : Place} {p : Path}
    (hp : programAt? t base p = some place) :
    programAt? t here q = some place ↔ t.resolve here q = .ok place := by
  obtain ⟨content, mode, hf, he⟩ := programAt?_eq_some_iff.mp hp
  rw [programAt?_eq_some_iff]
  constructor
  · rintro ⟨_, _, hf', -⟩
    exact (Tree.find_eq_ok_iff.mp hf').1
  · intro hr
    exact ⟨content, mode, Tree.find_eq_ok_iff.mpr ⟨hr, (Tree.find_eq_ok_iff.mp hf).2⟩, he⟩

theorem resolve_of_isAbsolute (hq : q.isAbsolute = true) (base base' : Place) :
    t.resolve base q = t.resolve base' q := by
  unfold Tree.resolve Tree.walkStart
  rw [if_pos hq, if_pos hq]

theorem find_of_isAbsolute (hq : q.isAbsolute = true) (base base' : Place) :
    t.find base q = t.find base' q := by
  unfold Tree.find
  rw [resolve_of_isAbsolute hq base base']

theorem programAt?_of_isAbsolute (hq : q.isAbsolute = true) (base base' : Place) :
    programAt? t base q = programAt? t base' q := by
  unfold programAt?
  rw [find_of_isAbsolute hq base base']

end

section

variable {α : Type} {dirs : List Path} {name : String} {start : Path → Except IoError α}

theorem startedPath?_slash (hs : '/' ∈ name.toList) :
    startedPath? dirs name start = some ⟨name⟩ := by
  have hne : name ≠ "" := by
    rintro rfl
    cases hs
  unfold startedPath?
  rw [if_neg hne, if_pos hs]

theorem startedPath?_plain (hne : name ≠ "") (hs : '/' ∉ name.toList) :
    startedPath? dirs name start =
      (dirs.map (·.join name)).find? fun q => !passesOver (start q) := by
  unfold startedPath?
  rw [if_neg hne, if_neg hs]

end

/-- A name that goes through directories is the path that is started. -/
theorem startedFile?_slash {dirs : List Path} {start : Starter} {before : List Command}
    {c : Command} {here : Place} {t : Tree} (hs : '/' ∈ c.program.toList) :
    startedFile? dirs start before c here t = programAt? t here ⟨c.program⟩ := by
  unfold startedFile?
  rw [startedPath?_slash hs]
  rfl

end HostSuite
