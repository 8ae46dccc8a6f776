import HostSuite.Proofs.Posix.Launched
import HostSuite.Proofs.Project.BuildDir
import HostSuite.Proofs.Project.Lookup
import HostSuite.Proofs.Suite.Phase

/-
  What is found and what is started. A tool is looked up as seen from the place where the program
  itself works, and started as seen from the working directory of the command. An absolute name
  leads to one file from both. A name that goes through directories and is not absolute is looked up
  again from the other place, where it may lead elsewhere or nowhere (`missing_from_project`). A
  plain name is looked for along the search path both times; an earlier directory may stop the
  search, or the file that was found cannot be started, or a directory that is not absolute is
  another one from the other place. All this is about any host of which `Host.LooksUp` and
  `Host.Launches` are known (`found_is_started`); nothing else of either is used.
-/

namespace HostSuite

/-- A run that sends the command fails to launch it. -/
def Unlaunched (h : Host) (m : Machine) (c : Command) : Prop :=
  ∃ m' e, Runs h (Action.invoke h c) m (.error e) m' [m.exchange h c] [] []

/-- What a run that sends the command gets when this came of starting its file. -/
def Gets (h : Host) (m : Machine) (c : Command) : Except IoError Reply → Prop
  | .ok reply =>
    ∃ m', Runs h (Action.invoke h c) m reply.outcome m' [⟨m.tree, c, reply⟩] [] []
  | .error _ => Unlaunched h m c

section

variable {h : Host} {start : Starter} {m : Machine} {c : Command} {here : Place} {mode : Nat}

theorem Host.Launches.unlaunched (hs : h.Launches start)
    (hcwd : m.tree.find h.workingDir c.cwd = .ok (here, .dir mode))
    (hnone : launched? h.searchPath start m.commands c here m.tree = none) :
    Unlaunched h m c := by
  obtain ⟨m', hm⟩ := Action.invoke_runs h m c
  obtain ⟨f, hf⟩ := hs.fails hcwd hnone
  refine ⟨m', f, ?_⟩
  rw [← hf]
  exact hm

/-- What comes of the file that is started is what the run gets. -/
theorem Host.Launches.gets (hs : h.Launches start)
    (hcwd : m.tree.find h.workingDir c.cwd = .ok (here, .dir mode)) {q : Path}
    (hq : startedPath? h.searchPath c.program (start m.commands c here m.tree) = some q) :
    Gets h m c (start m.commands c here m.tree q) := by
  have hlaunched : launched? h.searchPath start m.commands c here m.tree =
      (start m.commands c here m.tree q).toOption := by
    unfold launched?
    rw [hq]
    rfl
  cases hstart : start m.commands c here m.tree q with
  | error e => exact hs.unlaunched hcwd (by rw [hlaunched, hstart]; rfl)
  | ok reply =>
    rw [hstart] at hlaunched
    obtain ⟨m', hm⟩ := Action.invoke_runs h m c
    refine ⟨m', ?_⟩
    rw [← hs.answers hcwd hlaunched]
    exact hm

theorem Host.Launches.gets_of_startedFile? (hs : h.Launches start)
    (hcwd : m.tree.find h.workingDir c.cwd = .ok (here, .dir mode)) {place : Place}
    (hf : startedFile? h.searchPath start m.commands c here m.tree = some place) :
    ∃ q, programAt? m.tree here q = some place ∧
      Gets h m c (start m.commands c here m.tree q) := by
  obtain ⟨q, hq, hplace⟩ := Option.bind_eq_some_iff.mp hf
  exact ⟨q, hplace, hs.gets hcwd hq⟩

/-- Without a path to start, or where it leads to no program, there is no file either. -/
theorem Host.Launches.unlaunched_of_startedFile?_none (hs : h.Launches start)
    (hcwd : m.tree.find h.workingDir c.cwd = .ok (here, .dir mode))
    (hf : startedFile? h.searchPath start m.commands c here m.tree = none) :
    Unlaunched h m c := by
  cases hq : startedPath? h.searchPath c.program (start m.commands c here m.tree) with
  | none =>
    refine hs.unlaunched hcwd ?_
    unfold launched?
    rw [hq]
    rfl
  | some q =>
    have hnone : programAt? m.tree here q = none := by
      unfold startedFile? at hf
      rwa [hq] at hf
    obtain ⟨e, he, -⟩ := hs.refuses hnone
    have hgets := hs.gets hcwd hq
    rw [he] at hgets
    exact hgets

end

section

variable {t : Tree} {base here : Place} {q : Path} {cands : List Path}

/-- The first program is also the first file that is not passed over, if it is not passed over
itself, the paths before it are absolute, and none of them stops the search. -/
theorem first_started {start : Path → Except IoError Reply}
    (hrefuses : ∀ {a}, programAt? t here a = none → ∃ e, start a = .error e ∧
      (e = .permissionDenied ∨ t.find here a = .error e))
    (hq : cands.find? (t.isProgram base ·) = some q)
    (hearlier : ∀ a ∈ cands.takeWhile (· ≠ q), a.isAbsolute = true ∧
      ∀ e, t.find base a = .error e → e.isPassedOver = true)
    (hstarts : passesOver (start q) = false) :
    cands.find? (fun a => !passesOver (start a)) = some q := by
  obtain ⟨hprogram, front, back, rfl, hfront⟩ := List.find?_eq_some_iff_append.mp hq
  refine List.find?_eq_some_iff_append.mpr ⟨by rw [hstarts]; rfl, front, back, rfl, ?_⟩
  intro a ha
  have hne {b : Path} (hb : b ∈ front) : b ≠ q := by
    rintro rfl
    simpa [hprogram] using hfront b hb
  have hbefore : a ∈ (front ++ q :: back).takeWhile (· ≠ q) := by
    rw [List.takeWhile_append_of_pos fun b hb => by simpa using hne hb]
    exact List.mem_append_left _ ha
  obtain ⟨habs, hpassed⟩ := hearlier a hbefore
  have hnone : programAt? t here a = none := by
    rw [programAt?_of_isAbsolute habs here base, Option.eq_none_iff_forall_ne_some]
    intro place hplace
    simpa [isProgram_iff_programAt?.mpr ⟨place, hplace⟩] using hfront a ha
  obtain ⟨e, he, rfl | herror⟩ := hrefuses hnone
  · rw [he]
    rfl
  · rw [he]
    simpa [passesOver] using hpassed e (find_of_isAbsolute habs here base ▸ herror)

end

/-- A tool that was found, next to the file that a command of its name is carried out by. -/
structure FoundAndStarted (h : Host) (start : Starter) (m : Machine) (tool : Tool) (c : Command)
    (here place : Place) : Prop where
  found : programAt? m.tree h.workingDir tool.path = some place
  carriedOut : ∀ place', startedFile? h.searchPath start m.commands c here m.tree = some place' →
    ∃ q, programAt? m.tree here q = some place' ∧ Gets h m c (start m.commands c here m.tree q)
  refused : startedFile? h.searchPath start m.commands c here m.tree = none → Unlaunched h m c
  absolute : (⟨c.program⟩ : Path).isAbsolute = true →
    startedFile? h.searchPath start m.commands c here m.tree = some place
  throughDirs : '/' ∈ c.program.toList →
    (startedFile? h.searchPath start m.commands c here m.tree = some place ↔
      m.tree.resolve here ⟨c.program⟩ = .ok place)
  searched : '/' ∉ c.program.toList → (∀ d ∈ h.searchPath, d.text.toList.head? ≠ some '~') →
    (∀ q ∈ (h.searchPath.map (·.join c.program)).takeWhile (· ≠ tool.path),
      q.isAbsolute = true ∧
        ∀ e, m.tree.find h.workingDir q = .error e → e.isPassedOver = true) →
    passesOver (start m.commands c here m.tree tool.path) = false →
    (startedFile? h.searchPath start m.commands c here m.tree = some place ↔
      m.tree.resolve here tool.path = .ok place)
  settled : tool.path.isAbsolute = true → m.tree.resolve here tool.path = .ok place

/-- When a tool is found, a command of its name is carried out by the same file if the name is
absolute; if it goes through directories, exactly if it leads to that file from the working
directory of the command too; and if it was searched for, under the conditions of `searched`,
exactly if the path that was found does. -/
theorem found_is_started {h : Host} {start : Starter} {m : Machine} {c : Command} {why : String}
    {tool : Tool} {here : Place} {mode : Nat} (hl : h.LooksUp) (hs : h.Launches start)
    (hreq : Tool.require h m.tree c.program why = .ok tool)
    (hcwd : m.tree.find h.workingDir c.cwd = .ok (here, .dir mode)) :
    ∃ place, FoundAndStarted h start m tool c here place := by
  obtain ⟨q, hq, rfl⟩ := Option.map_eq_some_iff.mp (Tool.require_eq_ok_iff.mp hreq)
  obtain ⟨place, hplace⟩ := isProgram_iff_programAt?.mp (hl.program hq)
  have hsettled (habs : q.isAbsolute = true) : m.tree.resolve here q = .ok place := by
    rw [← programAt?_eq_some_iff_resolve hplace, programAt?_of_isAbsolute habs here h.workingDir]
    exact hplace
  refine ⟨place, hplace, fun _ => hs.gets_of_startedFile? hcwd,
    hs.unlaunched_of_startedFile?_none hcwd, ?_, ?_, ?_, hsettled⟩
  · intro habs
    have hmem : '/' ∈ c.program.toList := List.mem_of_head? (by simpa [Path.isAbsolute] using habs)
    have hpath : q = ⟨c.program⟩ := by
      rw [hl.throughDirs hq hmem]
      unfold Path.seenFrom
      rw [if_pos habs]
    rw [startedFile?_slash hmem, ← hpath, programAt?_eq_some_iff_resolve hplace]
    exact hsettled (by rw [hpath]; exact habs)
  · intro hmem
    rw [startedFile?_slash hmem, programAt?_eq_some_iff_resolve hplace]
  · intro hmem htilde hearlier hstarts
    have hfirst := first_started hs.refuses (hl.searched hq hmem htilde) hearlier hstarts
    unfold startedFile?
    rw [startedPath?_plain (hl.named hq) hmem, hfirst]
    exact programAt?_eq_some_iff_resolve hplace

/-! ## On a machine -/

open Posix

/-- A snapshot looks programs up in its tree. -/
theorem Posix.Snapshot.looksUp (s : Snapshot) (style : Style) : (s.host style).LooksUp :=
  Host.looksUp_of_lookUp rfl

/-- The program that does nothing, and a directory. -/
def withTrue : Tree :=
  ((Tree.empty.set ["a"] (.dir 0o755)).set ["bin"] (.dir 0o755)).set ["bin", "true"]
    (.file [] 0o755)

/-- The search path begins with a directory that is missing. -/
def alongMissing : Snapshot := { environment := [("PATH", "/missing:/bin")] }

theorem found_is_started_true :
    (alongMissing.host .plain).LooksUp ∧
      (alongMissing.host .plain).Launches (starting alongMissing.environment) ∧
      Tool.require (alongMissing.host .plain) withTrue "true" "testing" =
        .ok ⟨"true", ⟨"/bin/true"⟩⟩ ∧
      startedFile? (alongMissing.host .plain).searchPath (starting alongMissing.environment) []
        (Command.new "true" ⟨"/a"⟩) ["a"] withTrue = some ["bin", "true"] ∧
      ((alongMissing.host .plain).runner [] (Command.new "true" ⟨"/a"⟩) withTrue).outcome =
        .ok ⟨true, 0, "", "", 0, none⟩ := by
  have hl := alongMissing.looksUp .plain
  have hs := alongMissing.launches .plain
  have hreq : Tool.require (alongMissing.host .plain) withTrue "true" "testing" =
      .ok ⟨"true", ⟨"/bin/true"⟩⟩ := Except.eq_ok_of_toOption (by decide +kernel)
  obtain ⟨place, hboth⟩ := found_is_started (m := ⟨withTrue, [], 0⟩)
    (c := Command.new "true" ⟨"/a"⟩) hl hs hreq
    (show withTrue.find (alongMissing.host .plain).workingDir ⟨"/a"⟩ = .ok (["a"], .dir 0o755) from
      Except.eq_ok_of_toOption (by decide +kernel))
  have hplace : place = ["bin", "true"] := by
    have hfound := hboth.found
    rw [show programAt? withTrue (alongMissing.host .plain).workingDir ⟨"/bin/true"⟩ =
      some ["bin", "true"] by decide +kernel] at hfound
    exact (Option.some.inj hfound).symm
  subst hplace
  refine ⟨hl, hs, hreq, ?_, by decide +kernel⟩
  refine (hboth.searched (by decide) (by decide +kernel) ?_ (by decide +kernel)).mpr
    (hboth.settled (by decide))
  -- the directory in front is missing, so the search goes on
  have hmissing : withTrue.find (alongMissing.host .plain).workingDir ⟨"/missing/true"⟩ =
      .error .noEntry := by decide +kernel
  intro q hq
  obtain rfl : q = ⟨"/missing/true"⟩ := List.mem_singleton.mp hq
  refine ⟨by decide, fun e he => ?_⟩
  rw [hmissing] at he
  cases he
  rfl

/-- A tool at the top, and a project. -/
def toolAtTop : Tree :=
  ((Tree.empty.set ["idf.py"] (.file (Text.encode "#!/bin/sh\n") 0o755)).set ["a"]
    (.dir 0o755)).set ["a", "CMakeLists.txt"] (.file [] 0o644)

/-- Whatever is found is what is started from a directory. -/
def StartsFound (h : Host) (start : Starter) (t : Tree) (name : String) (cwd : Path) : Prop :=
  ∀ why tool, Tool.require h t name why = .ok tool →
    ∀ c : Command, c.program = name → c.cwd = cwd →
      ∀ here mode, t.find h.workingDir cwd = .ok (here, .dir mode) →
        startedFile? h.searchPath start [] c here t = programAt? t h.workingDir tool.path

theorem missing_from_project :
    (Config.parse "[tools]\nidf = \"./idf.py\"\n").toOption =
        some { tools := { idf := "./idf.py" } } ∧
      (Snapshot.host {} .plain).LooksUp ∧ (Snapshot.host {} .plain).Launches (starting []) ∧
      (Tool.require (Snapshot.host {} .plain) toolAtTop "./idf.py" "building host tests").toOption =
        some ⟨"./idf.py", ⟨"/idf.py"⟩⟩ ∧
      programAt? toolAtTop [] ⟨"/idf.py"⟩ = some ["idf.py"] ∧
      ((Snapshot.host {} .plain).runner [] (Suite.buildCommand { idf := "./idf.py" }
        (Project.named [] "build" "a")) toolAtTop).outcome =
          .error ⟨"Failed to execute ./idf.py", [IoError.noEntry.message]⟩ ∧
      ¬StartsFound (Snapshot.host {} .plain) (starting []) toolAtTop "./idf.py"
        (Project.named [] "build" "a").root := by
  refine ⟨by decide +kernel, Snapshot.looksUp {} .plain, Snapshot.launches {} .plain,
    by decide +kernel, by decide +kernel, by decide +kernel, ?_⟩
  intro hall
  have := hall "building host tests" ⟨"./idf.py", ⟨"/idf.py"⟩⟩
    (Except.eq_ok_of_toOption (by decide +kernel))
    (Suite.buildCommand { idf := "./idf.py" } (Project.named [] "build" "a")) rfl rfl ["a"] 0o755
    (Except.eq_ok_of_toOption (by decide +kernel))
  exact absurd this (by decide +kernel)

end HostSuite
