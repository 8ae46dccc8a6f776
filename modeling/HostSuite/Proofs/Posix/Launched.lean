import HostSuite.Posix.Snapshot
import HostSuite.Proofs.Project.Launching

/-
  Launching on the machine. The search along the path ends with the first file that is not passed
  over (`startAlong_of_find?`), so a process is what comes of starting the file at `startedPath?`,
  seen from its working directory. A snapshot launches its commands in this way
  (`Snapshot.launches`), and what cannot be found or executed is not started.
-/

namespace HostSuite.Posix

/-! ## The search for a program -/

section

variable {start : Path → Except IoError Ended} {name : String} {dirs : List Path} {q : Path}

theorem startAlong_cons_passed {dir : Path} (dirs : List Path) (denied : Bool)
    (hp : passesOver (start (dir.join name)) = true) :
    ∃ denied', startAlong start name denied (dir :: dirs) = startAlong start name denied' dirs := by
  cases hs : start (dir.join name) with
  | ok e =>
    rw [hs] at hp
    cases hp
  | error e =>
    rw [hs] at hp
    cases e with
    | permissionDenied => exact ⟨true, by rw [startAlong, hs]⟩
    | noEntry | notDirectory => exact ⟨denied, by rw [startAlong, hs]⟩
    | _ => cases hp

theorem startAlong_cons_stopped {dir : Path} (denied : Bool)
    (hp : passesOver (start (dir.join name)) = false) :
    startAlong start name denied (dir :: dirs) = start (dir.join name) := by
  rw [startAlong]
  split <;> simp_all [passesOver, IoError.isPassedOver]

/-- The search ends with the first file that is not passed over. -/
theorem startAlong_of_find? (denied : Bool)
    (hq : (dirs.map (·.join name)).find? (fun q => !passesOver (start q)) = some q) :
    startAlong start name denied dirs = start q := by
  induction dirs generalizing denied with
  | nil => cases hq
  | cons dir dirs ih =>
    rw [List.map_cons, List.find?_cons] at hq
    cases hp : passesOver (start (dir.join name)) with
    | false =>
      rw [hp] at hq
      rw [startAlong_cons_stopped denied hp, Option.some.inj hq]
    | true =>
      rw [hp] at hq
      obtain ⟨denied', hrest⟩ := startAlong_cons_passed dirs denied hp
      rw [hrest, ih denied' hq]

theorem startAlong_of_find?_none (denied : Bool)
    (hq : (dirs.map (·.join name)).find? (fun q => !passesOver (start q)) = none) :
    ∃ e, e.isPassedOver = true ∧ startAlong start name denied dirs = .error e := by
  induction dirs generalizing denied with
  | nil => cases denied <;> exact ⟨_, rfl, rfl⟩
  | cons dir dirs ih =>
    rw [List.map_cons, List.find?_cons] at hq
    cases hp : passesOver (start (dir.join name)) with
    | false =>
      rw [hp] at hq
      cases hq
    | true =>
      rw [hp] at hq
      obtain ⟨denied', hrest⟩ := startAlong_cons_passed dirs denied hp
      rw [hrest]
      exact ih denied' hq

end

section

variable {depth : Nat} {p : Process} {t : Tree} {here : Place} {q : Path}

theorem launch_succ (depth : Nat) (p : Process) (t : Tree) : launch (depth + 1) p t =
    if p.name = "" then .error .noEntry
    else if p.name.toList.contains '/' then startFile (launch depth) p t ⟨p.name⟩
    else startAlong (startFile (launch depth) p t) p.name false (searchDirs p.environment) := rfl

theorem launch_of_startedPath? (hq : startedPath? (searchDirs p.environment) p.name
      (startFile (launch depth) p t) = some q) :
    launch (depth + 1) p t = startFile (launch depth) p t q := by
  unfold startedPath? at hq
  rw [launch_succ]
  by_cases hname : p.name = ""
  · rw [if_pos hname] at hq
    cases hq
  · by_cases hslash : '/' ∈ p.name.toList
    · rw [if_neg hname, if_pos hslash] at hq
      rw [if_neg hname, if_pos (by simpa using hslash), Option.some.inj hq]
    · rw [if_neg hname, if_neg hslash] at hq
      rw [if_neg hname, if_neg (by simpa using hslash)]
      exact startAlong_of_find? false hq

theorem launch_of_startedPath?_none (hq : startedPath? (searchDirs p.environment) p.name
      (startFile (launch depth) p t) = none) :
    ∃ e, launch (depth + 1) p t = .error e := by
  unfold startedPath? at hq
  rw [launch_succ]
  by_cases hname : p.name = ""
  · rw [if_pos hname]
    exact ⟨_, rfl⟩
  · by_cases hslash : '/' ∈ p.name.toList
    · rw [if_neg hname, if_pos hslash] at hq
      cases hq
    · rw [if_neg hname, if_neg hslash] at hq
      rw [if_neg hname, if_neg (by simpa using hslash)]
      obtain ⟨e, -, he⟩ := startAlong_of_find?_none false hq
      exact ⟨e, he⟩

/-- What may not be executed is not started. -/
theorem startFile_of_programAt?_none (launch : Launcher) (hq : programAt? t p.cwd q = none) :
    ∃ e, startFile launch p t q = .error e ∧
      (e = .permissionDenied ∨ t.find p.cwd q = .error e) := by
  unfold programAt? at hq
  unfold startFile
  cases hf : t.find p.cwd q with
  | error e => exact ⟨e, rfl, .inr rfl⟩
  | ok found =>
    obtain ⟨place, node⟩ := found
    rw [hf] at hq
    cases node with
    | dir mode | link target => exact ⟨_, rfl, .inl rfl⟩
    | file content mode =>
      by_cases he : Tree.mayExecute mode = true
      · simp [he] at hq
      · exact ⟨.permissionDenied, by simp [he], .inl rfl⟩

end

/-! ## Commands -/

/-- The process of a command that works at a place. -/
def processOf (environment : List (String × String)) (c : Command) (here : Place) : Process :=
  ⟨c.program, c.args, here, environment, []⟩

/-- The reply to a command whose process has ended. -/
def replyOf (c : Command) (e : Ended) : Reply :=
  ⟨.ok (resultOf c e), e.tree, if c.inheritsOutput then e.printed else []⟩

/-- What comes of the child of a command on the machine. -/
def starting (environment : List (String × String)) : Starter := fun _ c here t q =>
  (startFile (launch (maxProcesses - 1)) (processOf environment c here) t q).map (replyOf c)

/-- A reply is made of what has ended, so the same path is started. -/
theorem startedPath?_starting (environment : List (String × String)) (dirs : List Path)
    (before : List Command) (c : Command) (here : Place) (t : Tree) :
    startedPath? dirs c.program (starting environment before c here t) =
      startedPath? dirs c.program
        (startFile (launch (maxProcesses - 1)) (processOf environment c here) t) := by
  have hsame (q : Path) : passesOver (starting environment before c here t q) =
      passesOver (startFile (launch (maxProcesses - 1)) (processOf environment c here) t q) := by
    unfold starting
    cases startFile (launch (maxProcesses - 1)) (processOf environment c here) t q <;> rfl
  unfold startedPath?
  simp only [hsame]

section

variable {base here : Place} {environment : List (String × String)} {before : List Command}
  {c : Command} {t : Tree} {mode : Nat}

/-- A command is launched in its working directory. -/
theorem launching_eq (before : List Command) (hcwd : t.find base c.cwd = .ok (here, .dir mode)) :
    launching base environment before c t =
      match launch (maxProcesses - 1 + 1) (processOf environment c here) t with
      | .ok e => replyOf c e
      | .error e => ⟨.error ⟨"Failed to execute " ++ c.program, [e.message]⟩, t, []⟩ := by
  unfold launching startCommand
  rw [hcwd]
  rfl

theorem launching_of_launched? (hcwd : t.find base c.cwd = .ok (here, .dir mode)) {reply : Reply}
    (hreply : launched? (searchDirs environment) (starting environment) before c here t =
      some reply) :
    launching base environment before c t = reply := by
  obtain ⟨q, hq, hstart⟩ := Option.bind_eq_some_iff.mp hreply
  rw [startedPath?_starting] at hq
  rw [launching_eq before hcwd, launch_of_startedPath? (p := processOf environment c here) hq]
  unfold starting at hstart
  cases he : startFile (launch (maxProcesses - 1)) (processOf environment c here) t q with
  | ok ended =>
    rw [he] at hstart
    exact Option.some.inj hstart
  | error e =>
    rw [he] at hstart
    cases hstart

theorem launching_of_launched?_none (hcwd : t.find base c.cwd = .ok (here, .dir mode))
    (hnone : launched? (searchDirs environment) (starting environment) before c here t = none) :
    ∃ e, (launching base environment before c t).outcome = .error e := by
  rw [launching_eq before hcwd]
  unfold launched? at hnone
  rw [startedPath?_starting] at hnone
  cases hq : startedPath? (searchDirs environment) c.program
      (startFile (launch (maxProcesses - 1)) (processOf environment c here) t) with
  | none =>
    obtain ⟨e, he⟩ := launch_of_startedPath?_none (p := processOf environment c here) hq
    rw [he]
    exact ⟨_, rfl⟩
  | some q =>
    rw [launch_of_startedPath? (p := processOf environment c here) hq]
    rw [hq, Option.bind_some] at hnone
    unfold starting at hnone
    cases he : startFile (launch (maxProcesses - 1)) (processOf environment c here) t q with
    | ok ended =>
      rw [he] at hnone
      cases hnone
    | error e => exact ⟨_, rfl⟩

end

/-- A snapshot launches commands by starting files on the machine. -/
theorem Snapshot.launches (s : Snapshot) (style : Style) :
    (s.host style).Launches (starting s.environment) where
  refuses := by
    intro before c here t q hq
    obtain ⟨e, he, hwhy⟩ := startFile_of_programAt?_none (launch (maxProcesses - 1))
      (show programAt? t (processOf s.environment c here).cwd q = none from hq)
    refine ⟨e, ?_, hwhy⟩
    unfold starting
    rw [he]
    rfl
  answers := fun hcwd hreply => launching_of_launched? hcwd hreply
  fails := launching_of_launched?_none

end HostSuite.Posix
