import HostSuite.Proofs.Coverage.Overlooking
import HostSuite.Proofs.Coverage.Quiet
import HostSuite.Proofs.Suite.Refusals
import HostSuite.Proofs.Suite.SideBySide

/-
  What being verbose changes. Each stage of a verbose run goes hushed, from the look-up of the tools
  to the failure that is shown at the end; so for every command line a verbose run and a quiet one
  end with the same result and the same tree, have the same output and send the same commands, but
  for the versions that are asked for, and nothing of the quiet error output is missing in the
  verbose one but the spinners, which are cleared and which only a terminal shows
  (`quiet_beside_verbose`). It need not be there as lines: an echo goes on with a line that a tool
  left unfinished. Both exceptions occur (`quiet_errors_missing_from_verbose`).
-/

namespace HostSuite.Suite

open Coverage

/-- The session without remarks. -/
def Session.quiet (s : Session) : Session := { s with verbose := false }

/-! ## How a phase begins -/

section

variable {α : Type} {h : Host} {stamp : String} {timed : Prop} {T U : Tree → Tree → Prop}

theorem hushed_failing {x y : Attempt Fault α} (hxy : Hushed h timed T U x.run y.run) :
    Hushed h timed T U (failing x).run (failing y).run :=
  .bind hxy fun _ => .pure _

theorem hushed_check (x : Except Fault α) :
    Hushed h timed T T (failing (ExceptT.mk (pure x))).run
      (failing (ExceptT.mk (pure x))).run :=
  hushed_failing (.pure x)

theorem hushed_requireTool (name requiredFor : String) :
    Hushed h timed Eq Eq (requireTool h name requiredFor).run
      (requireTool (h.hushed stamp) name requiredFor).run := by
  refine hushed_failing (.andThen_get fun m m' ht => ?_)
  rw [ht]
  exact .pure (Tool.require h m'.tree name requiredFor)

variable {s : Session}

theorem aside_remark (hv : s.verbose = true) (text : String) : Aside h timed (s.remark text) := by
  unfold Session.remark
  rw [if_pos hv]
  exact .say (lineEnded_line text)

/-- Only a verbose session makes remarks. -/
theorem hushed_remark (hv : s.verbose = true) (text : String) :
    Hushed h timed T T (s.remark text) (s.quiet.remark text) :=
  .aside (aside_remark hv text)

/-- Only a verbose session asks for versions. -/
theorem hushed_tellVersion (hp : h.ProbesHarmless) (hv : s.verbose = true) (tool : Tool) :
    Hushed h False T T (tellVersion h s tool) (tellVersion (h.hushed stamp) s.quiet tool) := by
  refine .aside ?_
  unfold tellVersion
  rw [if_pos hv]
  refine .bind (.bind (.probe hp rfl) fun o => ?_) fun v => ?_
  · cases o with
    | ok r => exact .pure _
    | error e => exact .pure _
  · cases v with
    | some version => exact aside_remark hv _
    | none => exact .pure ()

theorem hushed_projects (hv : s.verbose = true) (selected : List String) :
    Hushed h timed Eq Eq (s.projects h selected).run
      (s.quiet.projects (h.hushed stamp) selected).run := by
  refine .andThen_get fun m m' ht => ?_
  have hfound : s.quiet.discovered m'.tree (h.hushed stamp).workingDir =
      s.discovered m.tree h.workingDir := by
    rw [ht]
    rfl
  rw [hfound]
  cases s.discovered m.tree h.workingDir with
  | error f => exact .pure _
  | ok found => exact .andThen (.lift (hushed_remark hv _)) fun _ => .pure _

end

/-! ## Testing -/

section

variable {h : Host} {stamp : String}

theorem lineEnded_display (st : Style) (f : Fault) : LineEnded (Text.encode (f.display st)) :=
  lineEnded_line _

/-- The project makes the same changes of the same tree, and finds the same binary in it. -/
theorem handled_same {timed : Prop} (p : Project) :
    Handled h (h.hushed stamp) Eq (fun α => Hushed (α := α) h timed Eq Eq) p where
  removeDir := .change_same _ _
  dropCounters := .change_same _ _
  binary := by
    rintro t _ rfl
    rfl

theorem hushed_closeTests {timed : Prop} (keepGoing : Bool) (summary : RunSummary) :
    Hushed h timed Eq Eq (closeTests h keepGoing summary).run
      (closeTests (h.hushed stamp) keepGoing summary).run := by
  have hend : Hushed h timed Eq Eq
      (if summary.allPassed then do
        Action.sayLine ""
        Action.notify h .success (toString summary.passedCount ++ " project(s) built and passed")
      else throw (.fault (.projectsFailed summary.failedNames summary.results.length)) :
        Attempt Failure Unit).run
      (if summary.allPassed then do
        Action.sayLine ""
        Action.notify (h.hushed stamp) .success
          (toString summary.passedCount ++ " project(s) built and passed")
      else throw (.fault (.projectsFailed summary.failedNames summary.results.length)) :
        Attempt Failure Unit).run := by
    split
    · exact .andThen (.lift (.sayLine _)) fun _ => .lift (.notify _ _)
    · exact .pure _
  cases keepGoing with
  | true => exact .andThen (.lift (.sayOut _)) fun _ => hend
  | false => exact hend

variable (hp : h.ProbesHarmless) (hloud : h.echoes = true)

include hp hloud

/-- A project has no probes in its run, so it takes the same time. -/
theorem hushed_runProject {timed : Prop} (tools : ToolSettings) (clean : Bool) (p : Project) :
    Hushed h timed Eq Eq (runProject h tools clean p)
      (runProject (h.hushed stamp) tools clean p) := by
  intro m m' ht hm
  have hstages : Hushed h True Eq Eq (stages h tools clean p).run
      (stages (h.hushed stamp) tools clean p).run :=
    twofold_stages (twofold_same hp hloud) (handled_same p)
      (fun _ _ => Command.isProbe_inheriting _) tools clean
  obtain ⟨hr, es, es', d, d', hlog, hlog', hes, hd, hd', htimed, hu⟩ := hstages m m' ht hm
  obtain rfl := htimed trivial
  refine ⟨?_, es, es', d', d', hlog, hlog', hes, hd, hd', fun _ => rfl, hu⟩
  -- the clocks may be apart since a probe, but both go on by the same time
  have htime : ((stages (h.hushed stamp) tools clean p).run m').2.clock - m'.clock =
      ((stages h tools clean p).run m).2.clock - m.clock := by
    rw [hd, hd', Nat.add_sub_cancel_left, Nat.add_sub_cancel_left]
  show ProjectResult.mk p.name
      (((stages (h.hushed stamp) tools clean p).run m').2.clock - m'.clock)
      (((stages (h.hushed stamp) tools clean p).run m').1.mapError Failure.fault) =
    ProjectResult.mk p.name (((stages h tools clean p).run m).2.clock - m.clock)
      (((stages h tools clean p).run m).1.mapError Failure.fault)
  rw [htime, hr]

/-- Over the list of projects. -/
theorem hushed_testAll {timed : Prop} (tools : ToolSettings) (clean keepGoing : Bool)
    (ps : List Project) (done : RunSummary) :
    Hushed h timed Eq Eq (testAll h tools clean keepGoing ps done).run
      (testAll (h.hushed stamp) tools clean keepGoing ps done).run := by
  induction ps generalizing done with
  | nil => exact .pure _
  | cons p ps ih =>
    refine .andThen (.lift (hushed_runProject hp hloud tools clean p)) fun result => ?_
    cases result.failure? with
    | none => exact ih _
    | some failure =>
      dsimp only
      split
      · cases failure.fault? with
        | none => exact ih _
        | some fault =>
          exact .andThen (.lift (.say fun _ => lineEnded_display _ fault)) fun _ => ih _
      · exact .pure _

theorem hushed_testPhase {s : Session} (hv : s.verbose = true) (selected : List String)
    (o : TestOptions) :
    Hushed h False Eq Eq (testPhase h s selected o).run
      (testPhase (h.hushed stamp) s.quiet selected o).run := by
  refine .andThen (hushed_requireTool _ _) fun tool =>
    .andThen (.lift (hushed_tellVersion hp hv tool)) fun _ =>
      .andThen (hushed_failing (hushed_projects hv selected)) fun projects => ?_
  split
  · exact .lift (.notify _ _)
  · exact .andThen (hushed_testAll hp hloud _ _ _ projects _) fun summary =>
      hushed_closeTests _ summary

end

/-! ## Coverage -/

section

variable {h : Host} {stamp : String} {T : Tree → Tree → Prop} (hp : h.ProbesHarmless)

include hp

/-- Launchers are tried alike under tools that respect the difference of the trees. -/
theorem hushed_showAddress {timed : Prop} (ht : h.Respects T) {url : String}
    (hurl : url ≠ "--version") (ls : List (String × List String)) (last : String) :
    Hushed h timed T T (showAddress h url ls last) (showAddress (h.hushed stamp) url ls last) := by
  induction ls generalizing last with
  | nil => exact .pure _
  | cons l ls ih =>
    obtain ⟨program, args⟩ := l
    unfold showAddress
    refine .bind (.send hp ht ?_) fun o => ?_
    · have hargs : ([] ++ (args ++ [url]) : List String) ≠ [] ++ ["--version"] := fun he =>
        hurl (List.singleton_inj.mp (List.append_inj_right' he rfl))
      exact (congrArg (· && _) (decide_eq_false hargs)).trans (Bool.false_and _)
    · cases o with
      | error e => exact ih _
      | ok r => exact .pure _

theorem hushed_openPage {timed : Prop} (ht : h.Respects T) (page : Path) :
    Hushed h timed T T (openPage h page) (openPage (h.hushed stamp) page) := by
  have hurl : fileUrl page ≠ "--version" := by
    intro he
    have hchars := congrArg String.toList he
    unfold fileUrl at hchars
    rw [String.toList_append] at hchars
    exact absurd (List.cons.inj hchars).1 (by decide)
  refine .bind (.sayLine _) fun _ => .bind (hushed_showAddress hp ht hurl _ _) fun reason => ?_
  cases reason with
  | none => exact .pure ()
  | some reason => exact .bind (.notify _ _) fun _ => .sayLine _

omit hp in
theorem hushed_tellResults {timed : Prop} {s : Session} (hv : s.verbose = true) (made : Unified) :
    Hushed h timed T T (tellResults s made) (tellResults s.quiet made) :=
  .bind (hushed_remark hv _) fun _ =>
    .bind (.forM (fun _ => hushed_remark hv _) made.merged) fun _ =>
      .bind (.sayLine _) fun _ => .sayLine _

/-- The trees are the same until the report is written, and from then on up to its time. -/
theorem hushed_coveragePhase (hloud : h.echoes = true)
    (hs : h.Respects (UpToStamp h.timestamp stamp)) {s : Session} (hv : s.verbose = true)
    (selected : List String) (o : CoverageOptions) :
    Hushed h False Eq (UpToStamp h.timestamp stamp) (coveragePhase h s selected o).run
      (coveragePhase (h.hushed stamp) s.quiet selected o).run := by
  have hof := UpToStamp.of_eq h.timestamp stamp
  have hthreshold : effectiveThreshold s.quiet.config o = effectiveThreshold s.config o := rfl
  unfold coveragePhase
  rw [hthreshold]
  generalize effectiveThreshold s.config o = threshold
  refine .andThenTo (hushed_check _) hof fun _ =>
    .andThenTo (hushed_requireTool _ _) hof fun lcov =>
      .andThenTo (hushed_requireTool _ _) hof fun _ =>
        .andThenTo (.lift (hushed_tellVersion hp hv lcov)) hof fun _ =>
          .andThenTo (hushed_failing (hushed_projects hv selected)) hof fun projects =>
            .andThenTo (.lift (hushed_loadPatterns _)) hof fun patterns =>
              .andThenTo (.lift (hushed_remark hv _)) hof fun _ =>
                .andThen (hushed_unify hp hloud hs _ _ projects patterns) fun made =>
                  .andThen (.lift (hushed_tellResults hv made)) fun _ => ?_
  cases o.openPage with
  | true =>
    refine .andThen (.lift (hushed_openPage hp hs _)) fun _ => ?_
    cases threshold with
    | some x => exact hushed_check _
    | none => exact .pure _
  | false =>
    cases threshold with
    | some x => exact hushed_check _
    | none => exact .pure _

/-! ## The whole program -/

theorem hushed_perform (hloud : h.echoes = true) (hs : h.Respects (UpToStamp h.timestamp stamp))
    {s : Session} (hv : s.verbose = true) (selected : List String) (q : Request) :
    Hushed h False Eq (UpToStamp h.timestamp stamp) (perform h s selected q).run
      (perform (h.hushed stamp) s.quiet selected q).run := by
  have hof := UpToStamp.of_eq h.timestamp stamp
  cases q with
  | test o => exact .mono (hushed_testPhase hp hloud hv selected o) hof
  | coverage o => exact hushed_coveragePhase hp hloud hs hv selected o
  | run t c =>
    exact .andThenTo (hushed_testPhase hp hloud hv selected t) hof fun _ =>
      .andThenTo (.lift (.sayLine _)) hof fun _ => hushed_coveragePhase hp hloud hs hv selected c

omit hp in
/-- The same session is loaded, verbose or not. -/
theorem load_verbose (t : Tree) (base : Place) (dir : Option Path) (verbose : Bool) :
    Session.load t base dir verbose =
      (Session.load t base dir false).map fun s => { s with verbose := verbose } := by
  unfold Session.load
  cases resolveRoot t base dir with
  | error f => rfl
  | ok root =>
    show (Config.load t base root).bind _ = ((Config.load t base root).bind _).map _
    cases Config.load t base root with
    | error f => rfl
    | ok config => rfl

theorem hushed_attempt (hloud : h.echoes = true) (hs : h.Respects (UpToStamp h.timestamp stamp))
    (l : CommandLine) :
    Hushed h False Eq (UpToStamp h.timestamp stamp) (attempt h { l with verbose := true }).run
      (attempt (h.hushed stamp) { l with verbose := false }).run := by
  refine .andThen_get fun m m' ht => ?_
  have hquiet : Session.load m'.tree (h.hushed stamp).workingDir (l.root.map Path.mk) false =
      (Session.load m.tree h.workingDir (l.root.map Path.mk) false).map
        fun s => { s with verbose := false } := by
    rw [ht]
    exact load_verbose ..
  dsimp only
  rw [hquiet, load_verbose _ _ _ true]
  cases Session.load m.tree h.workingDir (l.root.map Path.mk) false with
  | error f => exact .mono (.pure _) (UpToStamp.of_eq _ _)
  | ok s => exact hushed_perform hp hloud hs (s := { s with verbose := true }) rfl _ _

omit hp in
theorem lineEnded_failure (st : Style) (f : Failure) : LineEnded (Text.encode (f.display st)) := by
  cases f with
  | fault f => exact lineEnded_display st f
  | other outer causes => exact lineEnded_line _

/-- The program on its command line, verbose and quiet, at two times. -/
theorem hushed_runProgram (hs : h.Respects (UpToStamp h.timestamp stamp)) (l : CommandLine) :
    Hushed (hostFor h { l with verbose := true }) False Eq (UpToStamp h.timestamp stamp)
      (runProgram h { l with verbose := true })
      (runProgram (h.stamped stamp) { l with verbose := false }) := by
  have hp' : (hostFor h { l with verbose := true }).ProbesHarmless := ⟨hp.tree, hp.silent, hp.later⟩
  refine .bind (hushed_attempt hp' rfl hs l) fun r => ?_
  cases r with
  | ok _ => exact .pure none
  | error f => exact .bind (.say fun _ => lineEnded_failure _ f) fun _ => .pure _

end

/-- What a verbose run and a quiet one from the same tree have in common. On the error output this
is about what spinners leave; only the quiet run draws any, and none if nobody is watching. -/
structure VerboseBeside (h : Host) (stamp : String) (loud quiet : Option Failure × Machine) :
    Prop where
  result : quiet.1 = loud.1
  tree : UpToStamp h.timestamp stamp loud.2.tree quiet.2.tree
  output : quiet.2.bytesOn .out = loud.2.bytesOn .out
  commands : quiet.2.commands = unprobed loud.2.commands
  errors : (quiet.2.keptOn .err).Sublist (loud.2.bytesOn .err)
  errorLines : h.EndsLines →
    (byteLines (quiet.2.keptOn .err)).Sublist (byteLines (loud.2.bytesOn .err))
  still : ∀ bytes, Event.drawn bytes ∉ loud.2.log
  drawings : ∀ bytes, Event.drawn bytes ∈ quiet.2.log → h.Draws bytes
  unattended : h.spinner = none → quiet.2.keptOn .err = quiet.2.bytesOn .err

/-- Being verbose changes nothing but the error output and the probes, whatever the command line
asks for: what a quiet run leaves on the error output is part of that of a verbose one, line by line
where the commands end their lines. -/
theorem quiet_beside_verbose {h : Host} {stamp : String} (hp : h.ProbesHarmless)
    (hs : h.Respects (UpToStamp h.timestamp stamp)) (l : CommandLine) (t : Tree) :
    VerboseBeside h stamp (runProgram h { l with verbose := true } ⟨t, [], 0⟩)
      (runProgram (h.stamped stamp) { l with verbose := false } ⟨t, [], 0⟩) := by
  obtain ⟨hr, es, es', d, d', hlog, hlog', hes, -, -, -, ht⟩ :=
    hushed_runProgram hp hs l ⟨t, [], 0⟩ ⟨t, [], 0⟩ rfl rfl
  rw [List.nil_append] at hlog hlog'
  have hdraws : ∀ bytes, Event.drawn bytes ∈ es' → h.Draws bytes := hes.drawings.2
  refine ⟨hr, ht, ?_, ?_, ?_, fun hl => ?_, ?_, ?_, fun hno => ?_⟩
  · unfold Machine.bytesOn
    rw [hlog, hlog', hes.out]
  · unfold Machine.commands
    rw [hlog, hlog', hes.commands]
  · unfold Machine.keptOn Machine.bytesOn
    rw [hlog, hlog']
    exact hes.err
  · have hl' : (hostFor h { l with verbose := true }).EndsLines := hl
    unfold Machine.keptOn Machine.bytesOn
    rw [hlog, hlog']
    exact hes.err_lines hl'
  · rw [hlog]
    exact hes.drawings.1
  · rw [hlog']
    exact hdraws
  · refine Machine.keptOn_eq fun bytes hb => ?_
    rw [hlog'] at hb
    obtain ⟨draw, -, -, hdraw, -⟩ := hdraws bytes hb
    rw [hno] at hdraw
    cases hdraw

/-- The project is built, and all tools are there. -/
def equippedSuite : Tree :=
  (builtSuite.set ["bin", "lcov"] (.file [] 0o755)).set ["bin", "genhtml"] (.file [] 0o755)

/-- Every tool succeeds, and somebody is watching. -/
def attendedHost : Host :=
  { idleHost with spinner := some fun message _ => Text.encode ("\r" ++ message ++ "\x1b[2K\r") }

/-- Testing and coverage up to the page; the two reports are those of their times, and the quiet run
draws its two spinners. -/
theorem quiet_beside_verbose_equipped :
    attendedHost.ProbesHarmless ∧ attendedHost.Respects (UpToStamp attendedHost.timestamp "later") ∧
      attendedHost.EndsLines ∧
      VerboseBeside attendedHost "later"
        (runProgram attendedHost { runBoth with verbose := true } ⟨equippedSuite, [], 0⟩)
        (runProgram (attendedHost.stamped "later") { runBoth with verbose := false }
          ⟨equippedSuite, [], 0⟩) ∧
      ((runProgram attendedHost { runBoth with verbose := true }
          ⟨equippedSuite, [], 0⟩).2.tree.lookup ["coverage", reportName]).isSome = true ∧
      (runProgram (attendedHost.stamped "later") { runBoth with verbose := false }
          ⟨equippedSuite, [], 0⟩).2.bytesOn .err =
        Text.encode "\rlcov merge\x1b[2K\r\rgenhtml\x1b[2K\r" := by
  have hp : attendedHost.ProbesHarmless :=
    ⟨fun _ _ _ _ => rfl, fun _ _ _ _ => rfl, fun _ _ _ _ _ _ => rfl⟩
  have hs : attendedHost.Respects (UpToStamp attendedHost.timestamp "later") :=
    fun _ _ _ _ ht => ⟨rfl, rfl, ht⟩
  exact ⟨hp, hs, fun _ _ _ => .nil, quiet_beside_verbose hp hs runBoth equippedSuite,
    by decide +kernel, by decide +kernel⟩

/-! ## What a verbose run does not show -/

/-- Testing the project `a`. -/
def testOne : CommandLine := ⟨none, false, false, ["a"], .test {}⟩

/-- Every tool succeeds, and what it puts on the terminal leaves its line unfinished. -/
def mutteringHost : Host where
  runner := fun _ c t => ⟨.ok ⟨true, 0, "", "", 0, none⟩, t,
    if c.inheritsOutput then [(.err, Text.encode "foo")] else []⟩
  searchPath := [⟨"/bin"⟩]

theorem mutteringHost_probesHarmless : mutteringHost.ProbesHarmless := by
  refine ⟨fun _ _ _ _ => rfl, fun cs c t hc => ?_, fun _ _ _ _ _ _ => rfl⟩
  have hquiet : c.inheritsOutput = false := by
    unfold Command.isProbe at hc
    rw [Bool.and_eq_true, Bool.not_eq_true'] at hc
    exact hc.2
  show (if c.inheritsOutput then _ else _) = _
  rw [hquiet]
  rfl

/-- The lines on the error output of a quiet run are among those of the verbose run. -/
def VerboseHasLines (h : Host) (l : CommandLine) (t : Tree) : Prop :=
  (byteLines ((runProgram h { l with verbose := false } ⟨t, [], 0⟩).2.bytesOn .err)).Sublist
    (byteLines ((runProgram h { l with verbose := true } ⟨t, [], 0⟩).2.bytesOn .err))

/-- They are not where a tool leaves its line unfinished, and not where somebody is watching. -/
theorem quiet_errors_missing_from_verbose :
    (mutteringHost.ProbesHarmless ∧ mutteringHost.spinner = none ∧
        ¬VerboseHasLines mutteringHost testOne suiteWithIdf) ∧
      attendedHost.ProbesHarmless ∧ attendedHost.EndsLines ∧
        ¬VerboseHasLines attendedHost runBoth equippedSuite := by
  have hunfinished : ¬VerboseHasLines mutteringHost testOne suiteWithIdf := by
    intro hsub
    have hquiet : Text.encode "foo" ∈ byteLines ((runProgram mutteringHost
        { testOne with verbose := false } ⟨suiteWithIdf, [], 0⟩).2.bytesOn .err) := by
      decide +kernel
    have hverbose : Text.encode "foo" ∉ byteLines ((runProgram mutteringHost
        { testOne with verbose := true } ⟨suiteWithIdf, [], 0⟩).2.bytesOn .err) := by
      decide +kernel
    exact hverbose (hsub.subset hquiet)
  have hspinner : ¬VerboseHasLines attendedHost runBoth equippedSuite := by
    intro hsub
    have hquiet : Text.encode "\rlcov merge\x1b[2K\r\rgenhtml\x1b[2K\r" ∈
        byteLines ((runProgram attendedHost { runBoth with verbose := false }
          ⟨equippedSuite, [], 0⟩).2.bytesOn .err) := by
      decide +kernel
    have hverbose : Text.encode "\rlcov merge\x1b[2K\r\rgenhtml\x1b[2K\r" ∉
        byteLines ((runProgram attendedHost { runBoth with verbose := true }
          ⟨equippedSuite, [], 0⟩).2.bytesOn .err) := by
      decide +kernel
    exact hverbose (hsub.subset hquiet)
  exact ⟨⟨mutteringHost_probesHarmless, rfl, hunfinished⟩,
    ⟨fun _ _ _ _ => rfl, fun _ _ _ _ => rfl, fun _ _ _ _ _ _ => rfl⟩, fun _ _ _ => .nil,
    hspinner⟩

end HostSuite.Suite
