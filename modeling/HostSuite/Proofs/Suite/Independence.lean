import HostSuite.Proofs.Suite.Confined
import HostSuite.Proofs.Suite.Discovery
import HostSuite.Proofs.Suite.Trials

/-
  Projects do not depend on each other. Where the commands of each project are confined to its
  directory and no link that leads out of it arises, the trials of a run that keeps going leave each
  other's directories alone (`Series.asAlone`), so each one comes out as if its project were tested
  alone on the tree that the run began with: with the same error, the same commands and the same
  directory in the end (`keepGoing_reproducible`). Commands that are confined but make a link that
  leads into another project break this (`linked_project_differs`).
-/

namespace HostSuite.Suite

open HostSuite.Action HostSuite.Tree

/-- Where a project is in its suite. -/
def placeIn (top : Place) (p : Project) : Place := top ++ [p.name]

/-- Places in no directory of some projects. -/
def Elsewhere (top : Place) (ps : List Project) (q : Place) : Prop := ∀ p ∈ ps, ¬placeIn top p <+: q

/-- What a result makes of a run that ends with it. -/
def ProjectResult.verdict (r : ProjectResult) : Except Failure Unit :=
  match r.failure? with
  | none => .ok ()
  | some f => .error f

/-- Projects with different names have no place in common. -/
theorem name_eq_of_placeIn {top q : Place} {p p' : Project} (hp : placeIn top p <+: q)
    (hp' : placeIn top p' <+: q) : p.name = p'.name :=
  name_eq_of_below hp hp'

/-- What is above the projects is in none of them. -/
theorem elsewhere_of_above {top q : Place} (ps : List Project) (hq : q <+: top) :
    Elsewhere top ps q := by
  intro p _ hp
  have hlen := (hp.trans hq).length_le
  simp [placeIn] at hlen

/-! ## A series of trials -/

/-- What a project needs for the others to make no difference: as long as nothing but projects has
changed since `T`, its commands are confined to its directory; and no link that leads out of the
directory arises. -/
structure Independent (h : Host) (top : Place) (ps : List Project) (T : Tree) (p : Project) :
    Prop where
  confined : Confined h (Amid T (Elsewhere top ps) (placeIn top p)) p.root (placeIn top p)
  contained : ∀ t, Arises h p T t → t.SelfContained (placeIn top p)

/-- A trial next to a run of its project from another machine; `last` is the tree at the end of the
series. -/
structure AsAlone (top : Place) (u : Trial) (last : Tree) (m₀ : Machine)
    (alone : ProjectResult × Machine) : Prop where
  result : alone.1 = u.result
  commands : ∃ cs, u.after.commands = u.before.commands ++ cs ∧
    alone.2.commands = m₀.commands ++ cs
  directory : Agree (placeIn top u.project <+: ·) last alone.2.tree

section

variable {h : Host} {tools : ToolSettings} {clean : Bool} {top : Place} {b : String}
  {ps : List Project} {T : Tree}

/-- One trial on a tree in which its own directory is as in `T`. -/
theorem Independent.trial {m : Machine} {u : Trial} (hi : Independent h top ps T u.project)
    (hp : u.project.At (placeIn top u.project) b) (hmem : u.project ∈ ps) (hnames : T.WellNamed)
    (hT : Agree (Elsewhere top ps) T m.tree)
    (hin : Agree (placeIn top u.project <+: ·) T m.tree) (hb : u.before = m)
    (hu : runProject h tools clean u.project m = (u.result, u.after)) :
    Agree (¬placeIn top u.project <+: ·) m.tree u.after.tree ∧
      ∀ m₀, m₀.tree = T →
        AsAlone top u u.after.tree m₀ (runProject h tools clean u.project m₀) := by
  have hpaired : Paired h u.project (placeIn top u.project) T m.tree T m.tree := by
    refine ⟨⟨?_, .refl _ T, .refl _ m.tree, hin, hi.contained T .start, hnames⟩, .start⟩
    rintro q ⟨hq, hnot⟩
    obtain rfl | hq := List.prefix_concat_iff.mp hq
    · exact absurd (List.prefix_refl _) hnot
    · exact hT q (elsewhere_of_above ps hq)
  have halike (m₀ : Machine) (hm₀ : m₀.tree = T) :
      u.result = (runProject h tools clean u.project m₀).1 ∧
        InStep h h (Paired h u.project (placeIn top u.project) T m.tree) m₀ m
          (runProject h tools clean u.project m₀).2 u.after := by
    subst hm₀
    have := runProject_alike hp (fun q hq => hq u.project hmem) hT hi.confined hi.contained tools
      clean hpaired
    rwa [hu] at this
  refine ⟨(halike ⟨T, [], 0⟩ rfl).2.tree.1.around', fun m₀ hm₀ => ?_⟩
  obtain ⟨hr, hstep⟩ := halike m₀ hm₀
  obtain ⟨cs, hcs, hcs'⟩ := hstep.commands
  exact ⟨hr.symm, ⟨cs, hb ▸ hcs', hcs⟩, hstep.tree.1.inside.symm⟩

/-- By the trials: each one finds its own directory as in `T`, because those before leave it alone,
and those after leave alone what it made of it. -/
theorem Series.asAlone {m m' : Machine} {us : List Trial}
    (hs : Series h tools clean true m us m')
    (hi : ∀ u ∈ us, Independent h top ps T u.project)
    (hp : ∀ u ∈ us, u.project.At (placeIn top u.project) b) (hmem : ∀ u ∈ us, u.project ∈ ps)
    (hnodup : (us.map fun u => u.project.name).Nodup) (hnames : T.WellNamed)
    (hT : Agree (Elsewhere top ps) T m.tree)
    (hin : ∀ u ∈ us, Agree (placeIn top u.project <+: ·) T m.tree) :
    Agree (Elsewhere top (us.map Trial.project)) m.tree m'.tree ∧
      ∀ u ∈ us, ∀ m₀, m₀.tree = T →
        AsAlone top u m'.tree m₀ (runProject h tools clean u.project m₀) := by
  induction hs with
  | nil m => exact ⟨.refl _ _, fun u hu => absurd hu List.not_mem_nil⟩
  | @cons m m' u us hb hu hus ih =>
    obtain ⟨hframe, halone⟩ := (hi u List.mem_cons_self).trial (hp u List.mem_cons_self)
      (hmem u List.mem_cons_self) hnames hT (hin u List.mem_cons_self) hb hu
    obtain ⟨hfresh, hnodup⟩ := List.nodup_cons.mp hnodup
    -- No other trial is about the same directory.
    have hapart {v : Trial} (hv : v ∈ us) {q : Place} (hq : placeIn top u.project <+: q) :
        ¬placeIn top v.project <+: q :=
      fun hq' => hfresh (List.mem_map.mpr ⟨v, hv, name_eq_of_placeIn hq' hq⟩)
    have hafter {r : Place → Prop} (hr : ∀ q, r q → ¬placeIn top u.project <+: q)
        (ha : Agree r T m.tree) : Agree r T (u.left h true).tree := ha.trans (hframe.mono hr)
    obtain ⟨hrest, hothers⟩ := ih (fun v hv => hi v (List.mem_cons_of_mem u hv))
      (fun v hv => hp v (List.mem_cons_of_mem u hv))
      (fun v hv => hmem v (List.mem_cons_of_mem u hv)) hnodup
      (hafter (fun q hq => hq u.project (hmem u List.mem_cons_self)) hT)
      (fun v hv => hafter (fun q hq hq' => hapart hv hq' hq) (hin v (List.mem_cons_of_mem u hv)))
    refine ⟨?_, fun v hv m₀ hm₀ => ?_⟩
    · refine Agree.trans (hframe.mono fun q hq => hq u.project (by simp)) (hrest.mono ?_)
      exact fun q hq p hp => hq p (List.mem_cons_of_mem _ hp)
    · obtain rfl | hv := List.mem_cons.mp hv
      · obtain ⟨hr, hcs, hdir⟩ := halone m₀ hm₀
        refine ⟨hr, hcs, Agree.trans (Agree.symm (hrest.mono ?_)) hdir⟩
        intro q hq p hp
        obtain ⟨w, hw, rfl⟩ := List.mem_map.mp hp
        exact hapart hw hq
      · exact hothers v hv m₀ hm₀

end

/-! ## One project alone -/

/-- A project that a session gives is where its name says. -/
theorem Session.IsProject.at {s : Session} {t : Tree} {base top : Place} {n : String}
    (hn : s.IsProject t base n) (ht : t.WellNamed) (hroot : s.root = Path.ofPlace top)
    (htop : ∀ m ∈ top, Path.IsPlain m) (hb : Path.IsPlain s.config.discovery.buildDir) :
    (s.projectOf n).At (placeIn top (s.projectOf n)) s.config.discovery.buildDir := by
  obtain ⟨names, hl, hmem⟩ := hn.entry
  obtain ⟨place, rfl⟩ := list_eq_ok hl
  have hname := ht.of_mem_namesIn hmem
  have hplain : ∀ m ∈ top ++ [n], Path.IsPlain m := by
    intro m hm
    obtain hm | hm := List.mem_append.mp hm
    · exact htop m hm
    · rw [List.mem_singleton.mp hm]
      exact hname
  have hproot : (s.projectOf n).root = Path.ofPlace (top ++ [n]) := by
    rw [← Path.join_ofPlace htop hname, ← hroot]
    rfl
  refine ⟨hproot, ?_, by simp [placeIn], ?_⟩
  · rw [show placeIn top (s.projectOf n) = top ++ [n] from rfl, ← Path.join_ofPlace hplain hb,
      ← hproot]
    rfl
  · intro m hm
    obtain hm | hm := List.mem_append.mp hm
    · exact hplain m hm
    · rw [List.mem_singleton.mp hm]
      exact hb

/-- A session gives no name twice. -/
theorem Session.GivesProjects.nodup_names {s : Session} {t : Tree} {base : Place}
    {selected : List String} {r : Except Fault (List Project)} {ps : List Project}
    (hg : GivesProjects s t base selected r) (hr : r = .ok ps) : (ps.map (·.name)).Nodup := by
  refine (hg.ascending ps hr).imp ?_
  rintro a b hab rfl
  exact List.lt_irrefl _ hab

/-- Selecting a project that was chosen, and nothing else, gives just that one. -/
theorem Session.chosen_alone {s : Session} {t : Tree} {base : Place} {selected : List String}
    {ps : List Project} {p : Project} (ht : t.WellNamed)
    (hps : s.chosen t base selected = .ok ps) (hp : p ∈ ps) :
    s.chosen t base [p.name] = .ok [p] := by
  obtain ⟨n, hn, -, rfl⟩ := ((givesProjects_chosen ht selected).members ps hps p).mp hp
  have halone : GivesProjects s t base [n] (s.chosen t base [n]) := givesProjects_chosen ht [n]
  cases hr : s.chosen t base [n] with
  | error f =>
    obtain ⟨e, he⟩ | ⟨m, hm, hnot⟩ := halone.refused.mp ⟨f, hr⟩
    · obtain ⟨names, hl, -⟩ := hn.entry
      rw [he] at hl
      cases hl
    · exact absurd (List.mem_singleton.mp hm ▸ hn) hnot
  | ok qs =>
    have hmem (q : Project) : q ∈ qs ↔ q = s.projectOf n := by
      rw [halone.members qs hr q]
      constructor
      · rintro ⟨m, -, hm, rfl⟩
        rw [List.mem_singleton.mp (hm (by simp))]
      · rintro rfl
        exact ⟨n, hn, fun _ => List.mem_singleton_self n, rfl⟩
    have hperm : qs.Perm [s.projectOf n] :=
      (List.perm_ext_iff_of_nodup (halone.nodup_names hr).of_map (List.nodup_singleton _)).mpr
        fun q => by rw [hmem q, List.mem_singleton]
    rw [← List.perm_singleton.mp hperm, ← hr]
    rfl

/-- Testing one project ends with its result, and does nothing after its trial. -/
theorem testAll_alone (h : Host) (tools : ToolSettings) (clean : Bool) (p : Project) (m : Machine) :
    ∃ m', (testAll h tools clean false [p] {} >>= closeTests h false).run m =
        ((runProject h tools clean p m).1.verdict, m') ∧
      m'.tree = (runProject h tools clean p m).2.tree ∧
      m'.commands = (runProject h tools clean p m).2.commands := by
  obtain ⟨⟨r, m₁⟩, hu⟩ : ∃ z, runProject h tools clean p m = z := ⟨_, rfl⟩
  rw [hu]
  unfold ProjectResult.verdict
  cases hf : r.failure? with
  | some f =>
    have hrun : (testAll h tools clean false [p] {}).run m = (.error f, m₁) :=
      testAll_cons_failed (u := ⟨p, m, r, m₁⟩) hu hf
    exact ⟨m₁, Attempt.run_bind_error hrun, rfl, rfl⟩
  | none =>
    have hpassed := ProjectResult.passed_eq_true_iff.mpr hf
    have hrun : (testAll h tools clean false [p] {}).run m = (.ok (RunSummary.add {} r), m₁) :=
      testAll_cons_passed (u := ⟨p, m, r, m₁⟩) hu hpassed
    obtain ⟨m₂, ts, hclose⟩ := closeTests_runs h m₁ false (RunSummary.add {} r)
    have hall : (RunSummary.add {} r).allPassed = true := by
      simpa [RunSummary.allPassed, RunSummary.add] using hpassed
    rw [hall, if_pos rfl] at hclose
    refine ⟨m₂, ?_, hclose.tree, by simpa using hclose.commands⟩
    rw [Attempt.run_bind_ok hrun]
    exact hclose.1

/-! ## The phase -/

/-- A trial of a run that keeps going (`kept`) next to a run of its project alone (`alone`), whose
projects are run when the commands `sent` have been sent: the run alone ends with the error of the
trial or without one, sends the same commands, and leaves the same directory. The hint that a failed
test comes with is to test this project alone. -/
structure Reproduced (top : Place) (sent : List Command) (u : Trial)
    (kept alone : Except Failure Unit × Machine) : Prop where
  error : alone.1 = u.result.verdict
  commands : ∃ cs, u.after.commands = u.before.commands ++ cs ∧ alone.2.commands = sent ++ cs
  directory : Agree (placeIn top u.project <+: ·) kept.2.tree alone.2.tree
  hint : ∀ n code, u.result.failure? = some (.fault (.testFailure n code)) →
    (Fault.testFailure n code).hint = some ("Re-run with: hostcov test --project " ++
      u.project.name ++ " to reproduce the failure")

/-- Under a configuration that is read without complaint, with the build directory of a project
right inside it, every trial of a run that keeps going is reproduced by testing its project alone
from the same machine, if no project makes a difference to another one; see `Independent`. -/
theorem keepGoing_reproducible {h : Host} {m : Machine} {s : Session} {text : String} {top : Place}
    {selected : List String} {tool : Tool} {ps : List Project} {T : Tree} (clean : Bool)
    (hc : Config.parse text = .ok s.config) (hdot : s.config.discovery.buildDir ≠ ".")
    (hdots : s.config.discovery.buildDir ≠ "..") (hroot : s.root = Path.ofPlace top)
    (htop : ∀ n ∈ top, Path.IsPlain n)
    (htool : Tool.require h m.tree s.config.tools.idf "building host tests" = .ok tool)
    (hT : treeAfter m.tree (versionProbe h m s s.config.tools.idf) = T) (hnames : T.WellNamed)
    (hps : s.chosen T h.workingDir selected = .ok ps) (hne : ps ≠ [])
    (hi : ∀ p ∈ ps, Independent h top ps T p) :
    ∃ m₁ us m', m₁.tree = T ∧
      m₁.commands = m.commands ++ (versionProbe h m s s.config.tools.idf).map Exchange.command ∧
      us.map Trial.project = ps ∧
      Series h s.config.tools (clean || asksForCleanBuild h.cleanBuild) true m₁ us m' ∧
      (testPhase h s selected ⟨clean, true⟩).run m =
        (closeTests h true ⟨us.map Trial.result⟩).run m' ∧
      ∀ u ∈ us, Reproduced top m₁.commands u ((testPhase h s selected ⟨clean, true⟩).run m)
        ((testPhase h s [u.project.name] ⟨clean, false⟩).run m) := by
  subst hT
  obtain ⟨hbne, hslash⟩ := Config.buildDir_of_parse hc
  have hgives : Session.GivesProjects s _ h.workingDir selected _ :=
    Session.givesProjects_chosen hnames selected
  have hat : ∀ p ∈ ps, p.At (placeIn top p) s.config.discovery.buildDir := by
    intro p hp
    obtain ⟨n, hn, -, rfl⟩ := (hgives.members ps hps p).mp hp
    exact hn.at hnames hroot htop ⟨hbne, hslash, hdot, hdots⟩
  have hnodup := hgives.nodup_names hps
  obtain ⟨m₁, htree, hcommands, hopens⟩ := testPhase_opens htool hps hne
  obtain ⟨us, m', rfl, hus, hrun⟩ :=
    testAll_keepGoing h s.config.tools (clean || asksForCleanBuild h.cleanBuild) m₁ ps {}
  have hkept : (testPhase h s selected ⟨clean, true⟩).run m =
      (closeTests h true ⟨us.map Trial.result⟩).run m' := by
    rw [hopens, Attempt.run_bind_ok hrun, List.nil_append]
  obtain ⟨m'', ts, hclose⟩ := closeTests_runs h m' true ⟨us.map Trial.result⟩
  have hmem : ∀ u ∈ us, u.project ∈ us.map Trial.project := fun u hu => List.mem_map_of_mem hu
  obtain ⟨-, halone⟩ := hus.asAlone (fun u hu => hi _ (hmem u hu)) (fun u hu => hat _ (hmem u hu))
    hmem (List.map_map ▸ hnodup) hnames (htree ▸ Agree.refl _ _) (fun _ _ => htree ▸ Agree.refl _ _)
  refine ⟨m₁, us, m', htree, hcommands, rfl, hus, hkept, fun u hu => ?_⟩
  obtain ⟨m₂, htree₂, hcommands₂, hopens₂⟩ :=
    testPhase_opens htool (Session.chosen_alone hnames hps (hmem u hu)) (by simp)
  obtain ⟨w, hw, hwtree, hwcommands⟩ := testAll_alone h s.config.tools
    (clean || asksForCleanBuild h.cleanBuild) u.project m₂
  obtain ⟨hr, ⟨cs, hcs, hcs'⟩, hdir⟩ := halone u hu m₂ htree₂
  have hend : (testPhase h s [u.project.name] ⟨clean, false⟩).run m = (u.result.verdict, w) := by
    rw [hopens₂, hw, hr]
  rw [hkept, hclose.1, hend]
  refine ⟨rfl, ⟨cs, hcs, ?_⟩, ?_, ?_⟩
  · rw [hwcommands, hcs', hcommands₂, hcommands]
  · show Agree _ m''.tree w.tree
    rw [hwtree, hclose.tree]
    exact hdir
  · intro n code hf
    rw [← hr] at hf
    rw [testFailure_names hf]
    rfl

/-! ## Two projects -/

/-- Building puts something in the place of the test binary, and the tests exit with some codes. -/
def puttingHost (binary : Path → Node) (code : Path → Nat) : Host where
  runner := fun _ c t =>
    if c.args = ["build"] then
      ⟨.ok (.ofStatus 0 "" "" 1),
        (t.set (c.cwd.segments ++ ["build"]) (.dir 0o755)).set
          (c.cwd.segments ++ ["build", "host_test"]) (binary c.cwd), []⟩
    else ⟨.ok (.ofStatus (256 * code c.cwd) "" "" 2), t, []⟩
  searchPath := [⟨"/bin"⟩]

section

variable {binary : Path → Node} {code : Path → Nat} {cwd : Path} {P : Place} {p : Project}
  {T t t' : Tree}

/-- Whatever is put there, building and testing are confined to the directory. -/
theorem confined_puttingHost (ok : Tree → Prop) (hcwd : cwd.Spells P) :
    Confined (puttingHost binary code) ok cwd P := by
  have hbelow (names : List String) : P <+: P ++ names := List.prefix_append P names
  refine ⟨?_, ?_, ?_⟩
  · rintro c rfl cs cs' t t' - - ha
    simp only [puttingHost, hcwd.segments]
    split
    · exact ⟨rfl, rfl, (ha.set _ _).set _ _⟩
    · exact ⟨rfl, rfl, ha⟩
  · rintro c rfl cs t -
    simp only [puttingHost, hcwd.segments]
    split
    · exact Agree.trans (set_agree _ _ fun hq => hq (hbelow _))
        (set_agree _ _ fun hq => hq (hbelow _))
    · exact .refl _ t
  · rintro c rfl cs t - ht
    simp only [puttingHost, hcwd.segments]
    split
    · have hplain {names : List String} (hn : ∀ n ∈ names, Path.IsPlain n) :
          ∀ n ∈ P ++ names, Path.IsPlain n :=
        fun n hm => (List.mem_append.mp hm).elim (hcwd.plain n) (hn n)
      exact (ht.set (hplain (by decide)) _).set (hplain (by decide)) _
    · exact ht

/-- Where no link is put, none arises. -/
theorem noLinks_puttingHost (hbinary : ∀ cwd target, binary cwd ≠ .link target)
    (hT : T.NoLinks) (ha : Arises (puttingHost binary code) p T t) : t.NoLinks := by
  induction ha with
  | start => exact hT
  | change _ hc ih =>
    obtain rfl | rfl := hc
    · exact ih.of_clears (removeDirsIfThere_onlyClears _ _ _)
    · exact ih.of_clears (dropCounters_onlyClears _ _ _)
  | command cs _ _ ih =>
    simp only [puttingHost]
    split
    · exact (ih.set _ (by simp)).set _ (hbinary _)
    · exact ih

end

theorem noLinks_suiteWithIdf : suiteWithIdf.NoLinks := by
  have hdir (target : String) : Node.dir 0o755 ≠ .link target := nofun
  have hfile (mode : Nat) (target : String) : Node.file [] mode ≠ .link target := nofun
  exact ((((((noLinks_empty.set _ hdir).set _ (hfile _)).set _ (hfile _)).set _ hdir).set _
    (hfile _)).set _ hdir).set _ (hfile _)

theorem wellNamed_suiteWithIdf : suiteWithIdf.WellNamed :=
  (wellNamed_twoProjects.set (by decide) _).set (by decide) _

/-- The projects of that suite. -/
def bothProjects : List Project := [Project.named [] "build" "a", Project.named [] "build" "b"]

theorem spells_root {p : Project} (hp : p ∈ bothProjects) : p.root.Spells (placeIn [] p) := by
  simp only [bothProjects, List.mem_cons, List.not_mem_nil, or_false] at hp
  obtain rfl | rfl := hp <;> exact ⟨by decide, by decide, by decide⟩

/-- Both projects are built, and the test of the second one fails. -/
def failingHost : Host :=
  puttingHost (fun _ => .file [] 0o755) fun cwd => if cwd = ⟨"/b"⟩ then 3 else 0

theorem keepGoing_reproducible_failing :
    (∀ p ∈ bothProjects, Independent failingHost [] bothProjects suiteWithIdf p) ∧
      ∃ m₁ us m', us.map Trial.project = bothProjects ∧
        Series failingHost {} false true m₁ us m' ∧
        (∀ u ∈ us, Reproduced [] m₁.commands u
          ((testPhase failingHost Session.atTop [] ⟨false, true⟩).run ⟨suiteWithIdf, [], 0⟩)
          ((testPhase failingHost Session.atTop [u.project.name] ⟨false, false⟩).run
            ⟨suiteWithIdf, [], 0⟩)) ∧
        ((testPhase failingHost Session.atTop ["b"] ⟨false, false⟩).run ⟨suiteWithIdf, [], 0⟩).1 =
          .error (.fault (.testFailure "b" 3)) := by
  have hi : ∀ p ∈ bothProjects, Independent failingHost [] bothProjects suiteWithIdf p :=
    fun p hp => ⟨confined_puttingHost _ (spells_root hp), fun t ha =>
      (noLinks_puttingHost (fun _ _ => by simp) noLinks_suiteWithIdf ha).selfContained _⟩
  have hparse : Config.parse "" = .ok {} := Except.eq_ok_of_toOption (by decide +kernel)
  have htool : Tool.require failingHost suiteWithIdf "idf.py" "building host tests" =
      .ok ⟨"idf.py", ⟨"/bin/idf.py"⟩⟩ := Except.eq_ok_of_toOption (by decide +kernel)
  have hps : Session.atTop.chosen suiteWithIdf failingHost.workingDir [] = .ok bothProjects :=
    Except.eq_ok_of_toOption (by decide +kernel)
  obtain ⟨m₁, us, m', -, -, hus, hseries, -, hall⟩ :=
    keepGoing_reproducible (h := failingHost) (m := ⟨suiteWithIdf, [], 0⟩) (s := Session.atTop)
      false hparse (by decide) (by decide) rfl (by simp) htool rfl wellNamed_suiteWithIdf hps
      (by decide) hi
  exact ⟨hi, m₁, us, m', hus, hseries, hall, by decide +kernel⟩

/-- Both projects are built, and what is built of the second one is a link into the first one. -/
def linkingHost : Host :=
  puttingHost (fun cwd => if cwd = ⟨"/b"⟩ then .link "../../a/build/host_test" else .file [] 0o755)
    fun _ => 0

/-- The commands are confined, whatever tree they find, and no link leads out of a project; yet the
second project passes after the first one, and fails alone. -/
theorem linked_project_differs :
    (∀ p ∈ bothProjects, Confined linkingHost (fun _ => True) p.root (placeIn [] p) ∧
        suiteWithIdf.SelfContained (placeIn [] p)) ∧
      Session.atTop.chosen suiteWithIdf linkingHost.workingDir [] = .ok bothProjects ∧
      ((testPhase linkingHost Session.atTop [] ⟨false, true⟩).run ⟨suiteWithIdf, [], 0⟩).1 =
        .ok () ∧
      ((testPhase linkingHost Session.atTop ["b"] ⟨false, false⟩).run ⟨suiteWithIdf, [], 0⟩).1 =
        .error (.fault (.executableNotFound "b" ⟨"/b/build"⟩)) :=
  ⟨fun _ hp => ⟨confined_puttingHost _ (spells_root hp), noLinks_suiteWithIdf.selfContained _⟩,
    Except.eq_ok_of_toOption (by decide +kernel), by decide +kernel, by decide +kernel⟩

end HostSuite.Suite
