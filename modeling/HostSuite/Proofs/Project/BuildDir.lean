import HostSuite.Proofs.Config.Rules
import HostSuite.Proofs.Coverage.MergeInputs
import HostSuite.Proofs.Suite.ProjectRun
import HostSuite.Proofs.Suite.Session
import HostSuite.Proofs.Tree.Frame
import HostSuite.Proofs.Tree.Names

/-
  Build directories. A configuration that is read without complaint names the build directory with
  a text that is not blank and holds no slash; it is directly in the project exactly if that text is
  no step in place or up (`isChildOf_iff`). Then the build directories of different projects are
  apart, and so are their tracefiles, and a clean build removes nothing but what is in the build
  directory of its project. With a step up it removes the projects themselves
  (`step_up_removes_projects`).
-/

namespace HostSuite

/-! ## Checked names -/

namespace Config

/-- The build directory has a name without slashes. -/
theorem buildDir_of_parse {text : String} {c : Config} (hc : parse text = .ok c) :
    c.discovery.buildDir ≠ "" ∧ '/' ∉ c.discovery.buildDir.toList := by
  obtain ⟨-, -, -, hcheck⟩ := parse_eq_ok_iff.mp hc
  obtain ⟨⟨x, hx, -⟩, hslash, -⟩ := (check_eq_ok_iff.mp hcheck).buildDir
  refine ⟨fun he => ?_, hslash⟩
  rw [he] at hx
  cases hx

end Config

/-! ## Projects of one suite -/

/-- The project of a name in a suite. -/
def Project.named (top : Place) (b name : String) : Project :=
  .inDir ((Path.ofPlace top).join name) b

/-- The projects are those of different plain names. -/
def FromNames (top : Place) (b : String) (ps : List Project) : Prop :=
  ∃ names : List String, names.Nodup ∧ (∀ n ∈ names, Path.IsPlain n) ∧
    ps = names.map (Project.named top b)

theorem FromNames.of_mem {top : Place} {b : String} {ps : List Project}
    (hps : FromNames top b ps) {p : Project} (hp : p ∈ ps) :
    ∃ n, Path.IsPlain n ∧ p = Project.named top b n := by
  obtain ⟨names, -, hplain, rfl⟩ := hps
  obtain ⟨n, hn, rfl⟩ := List.mem_map.mp hp
  exact ⟨n, hplain n hn, rfl⟩

theorem Suite.Session.projects_fromNames {h : Host} {m : Machine} {top : Place} {c : Config}
    {verbose : Bool} {selected : List String} {ps : List Project} (ht : m.tree.WellNamed)
    (hps : ((Session.projects h ⟨Path.ofPlace top, c, verbose⟩ selected).run m).1 = .ok ps) :
    FromNames top c.discovery.buildDir ps := by
  obtain ⟨m', hm⟩ := projects_runs h m ⟨Path.ofPlace top, c, verbose⟩ selected
  rw [hm.1] at hps
  cases hd : discovered ⟨Path.ofPlace top, c, verbose⟩ m.tree h.workingDir with
  | error f =>
    rw [hd] at hps
    cases hps
  | ok found =>
    rw [hd] at hps
    obtain ⟨place, names, hsub, rfl⟩ := Project.discover_eq_ok hd
    obtain ⟨chosen, hchosen, rfl⟩ := List.sublist_map_iff.mp (Project.select_eq_ok hps)
    have hall := hchosen.trans hsub
    exact ⟨chosen, hall.nodup (Tree.nodup_namesIn m.tree place),
      fun n hn => ht.of_mem_namesIn (hall.subset hn), rfl⟩

section

variable {top : Place} {b name : String}

theorem Project.named_name (hn : Path.IsPlain name) : (Project.named top b name).name = name :=
  Project.name_inDir _ hn b

theorem Project.named_root :
    (Project.named top b name).root = (Path.ofPlace top).join name := rfl

theorem Project.named_buildDir :
    (Project.named top b name).buildDir = (Project.named top b name).root.join b := rfl

theorem Project.lexical_root (htop : ∀ n ∈ top, Path.IsPlain n) (hn : Path.IsPlain name) :
    (Project.named top b name).root.lexical = top ++ [name] := by
  rw [Project.named_root, Path.lexical_join _ hn, Path.lexical_ofPlace htop]

/-- Without links on the way the root of a project is where its path says. -/
theorem Project.resolve_root {t : Tree} {base place : Place} (htop : ∀ n ∈ top, Path.IsPlain n)
    (hn : Path.IsPlain name) (hfree : t.LinkFree (top ++ [name]))
    (hr : t.resolve base (Project.named top b name).root = .ok place) : place = top ++ [name] := by
  rw [Project.named_root] at hr
  obtain ⟨-, -, hreach⟩ := Tree.resolve_eq_ok_iff.mp hr
  have hstart : Tree.walkStart base ((Path.ofPlace top).join name) = [] := by
    unfold Tree.walkStart
    rw [if_pos (Path.isAbsolute_join (Path.isAbsolute_ofPlace top) name)]
  have hsteps : Tree.walkSteps ((Path.ofPlace top).join name) = top ++ [name] := by
    unfold Tree.walkSteps
    rw [if_neg (Bool.eq_false_iff.mp (Path.endsInSlash_join (Path.ofPlace top) hn)),
      Path.segments_join _ (Path.head_ne_slash hn.no_slash), hn.segments,
      Path.segments_ofPlace fun n hm => ⟨(htop n hm).ne_empty, (htop n hm).no_slash⟩]
  rw [hstart, hsteps] at hreach
  refine hreach.straight ?_ hfree
  intro s hs
  obtain hs | hs := List.mem_append.mp hs
  · exact htop s hs
  · rw [List.mem_singleton.mp hs]
    exact hn

/-- The place of a file in the build directory, links not followed. -/
theorem Project.lexical_inBuild (htop : ∀ n ∈ top, Path.IsPlain n) (hn : Path.IsPlain name)
    (hb : Path.IsPlain b) {file : String} (hf : Path.IsPlain file) :
    ((Project.named top b name).buildDir.join file).lexical = top ++ [name, b, file] := by
  rw [Path.lexical_join _ hf, Project.named_buildDir, Path.lexical_join _ hb,
    Project.lexical_root htop hn]
  simp

end

/-! ## Build directories are apart -/

/-- Two projects have different build directories and no tracefile in common. -/
structure BuiltApart (p q : Project) : Prop where
  buildDir : p.buildDir.lexical ≠ q.buildDir.lexical
  tracefiles : ∀ a ∈ [Coverage.rawTracefile p, Coverage.filteredTracefile p],
    ∀ d ∈ [Coverage.rawTracefile q, Coverage.filteredTracefile q], a.lexical ≠ d.lexical

theorem builtApart_named {top : Place} {b n k : String} (htop : ∀ n ∈ top, Path.IsPlain n)
    (hb : Path.IsPlain b) (hn : Path.IsPlain n) (hk : Path.IsPlain k) (hne : n ≠ k) :
    BuiltApart (Project.named top b n) (Project.named top b k) := by
  have hraw : Path.IsPlain Coverage.rawName := by decide
  have hfil : Path.IsPlain Coverage.filteredName := by decide
  constructor
  · rw [Project.named_buildDir, Project.named_buildDir, Path.lexical_join _ hb,
      Path.lexical_join _ hb, Project.lexical_root htop hn, Project.lexical_root htop hk]
    simp [hne]
  · intro a ha d hd
    simp only [List.mem_cons, List.not_mem_nil, or_false] at ha hd
    unfold Coverage.rawTracefile Coverage.filteredTracefile at ha hd
    obtain rfl | rfl := ha <;> obtain rfl | rfl := hd <;>
      rw [Project.lexical_inBuild htop hn hb (by assumption),
        Project.lexical_inBuild htop hk hb (by assumption)] <;>
      simp [hne]

theorem FromNames.pairwise {top : Place} {b : String} {ps : List Project}
    (hps : FromNames top b ps) (htop : ∀ n ∈ top, Path.IsPlain n) (hb : Path.IsPlain b) :
    ps.Pairwise BuiltApart := by
  obtain ⟨names, hnodup, hplain, rfl⟩ := hps
  rw [List.pairwise_map]
  exact hnodup.imp_of_mem fun hn hk hne => builtApart_named htop hb (hplain _ hn) (hplain _ hk) hne

/-- The inputs of a merge are different places when the projects are built apart. -/
theorem Coverage.LoopWord.nodup_tracefiles {base : Place} {lcov : String} {patterns : List String}
    {t : Tree} {ps : List Project} {xs : List Exchange} {ds : List Coverage.Dataset}
    (hw : Coverage.LoopWord base lcov patterns t ps xs ds) (hps : ps.Pairwise BuiltApart) :
    (ds.map fun d => d.tracefile.lexical).Nodup := by
  obtain ⟨turns, rfl, -, -, -, htrace, -⟩ := hw.turns
  have heff (u : Coverage.Turn) : u.effective patterns ∈
      [Coverage.rawTracefile u.project, Coverage.filteredTracefile u.project] := by
    unfold Coverage.Turn.effective
    split <;> simp
  have : ds.map (fun d => d.tracefile.lexical) =
      ((turns.filter (Coverage.Turn.counts base lcov)).map
        (Coverage.Turn.effective patterns)).map Path.lexical := by
    rw [← htrace, List.map_map]
    rfl
  rw [this, List.map_map, List.nodup_iff_pairwise_ne, List.pairwise_map]
  rw [List.pairwise_map] at hps
  exact (hps.filter _).imp fun hap => hap.tracefiles _ (heff _) _ (heff _)

/-! ## A clean build -/

/-- What a clean build of a project leaves alone: everything but what is in the build directory,
in the place that the root of the project resolves to; and, unless the project is a link, everything
of another project. -/
structure CleanRemoval (h : Host) (top : Place) (b : String) (ps : List Project) (p : Project)
    (t t' : Tree) : Prop where
  inside : ∀ q, t'.lookup q = t.lookup q ∨ t'.lookup q = none ∧
    ∃ place, t.resolve h.workingDir p.root = .ok place ∧ place ++ [b] <+: q
  own : ∀ place, t.resolve h.workingDir p.root = .ok place →
    ∀ rest, ¬[b] <+: rest → t'.lookup (place ++ rest) = t.lookup (place ++ rest)
  others : t.LinkFree (top ++ [p.name]) → ∀ q ∈ ps, q ≠ p →
    ∀ rest, t'.lookup (top ++ [q.name] ++ rest) = t.lookup (top ++ [q.name] ++ rest)

theorem FromNames.cleanRemoval {h : Host} {top : Place} {b : String} {ps : List Project}
    (hps : FromNames top b ps) (htop : ∀ n ∈ top, Path.IsPlain n) (hb : Path.IsPlain b)
    {p : Project} (hp : p ∈ ps) (t : Tree) :
    CleanRemoval h top b ps p t ((Change.removeDir p.buildDir).on h t) := by
  obtain ⟨name, hname, rfl⟩ := hps.of_mem hp
  have habs : (Project.named top b name).root.isAbsolute = true :=
    Path.isAbsolute_join (Path.isAbsolute_ofPlace top) name
  have hends : (Project.named top b name).root.endsInSlash = false := Path.endsInSlash_join _ hname
  have hinside : Tree.OnlyClears (fun q => ∃ place, t.resolve h.workingDir
      (Project.named top b name).root = .ok place ∧ place ++ [b] <+: q) t
      ((Change.removeDir (Project.named top b name).buildDir).on h t) := by
    refine (Tree.removeDirsIfThere_onlyClears t h.workingDir _).mono ?_
    rintro q ⟨place, n, hf, hq⟩
    obtain ⟨outer, houter, rfl⟩ := Tree.resolve_join habs hends hb (Tree.find_eq_ok_iff.mp hf).1
    exact ⟨outer, houter, hq⟩
  refine ⟨fun q => (hinside q).imp_right And.symm, ?_, ?_⟩
  · intro place hplace rest hrest
    obtain h' | ⟨⟨place', hplace', hq⟩, -⟩ := hinside (place ++ rest)
    · exact h'
    · obtain rfl : place = place' := Except.ok.inj (hplace.symm.trans hplace')
      exact absurd ((List.prefix_append_right_inj place).mp hq) hrest
  · intro hfree q hq hne rest
    obtain ⟨k, hk, rfl⟩ := hps.of_mem hq
    rw [Project.named_name hname] at hfree
    rw [Project.named_name hk]
    obtain h' | ⟨⟨place, hplace, hpre⟩, -⟩ := hinside (top ++ [k] ++ rest)
    · exact h'
    · rw [Project.resolve_root htop hname hfree hplace] at hpre
      have hnk := Tree.name_eq_of_below ((List.prefix_append _ _).trans hpre)
        (List.prefix_append (top ++ [k]) rest)
      exact absurd (by rw [hnk]) hne

/-! ## What a checked configuration gives -/

/-- Under a configuration that is read without complaint the build directory of every project is
directly in it exactly if its text is no step in place or up; those lead to the project itself and
to the suite. Otherwise the projects are built apart, the inputs of a merge are different places,
and a clean build leaves everything else alone. -/
theorem build_dirs_apart {h : Host} {m : Machine} {text : String} {c : Config} {top : Place}
    {verbose : Bool} {selected : List String} {ps : List Project}
    (hc : Config.parse text = .ok c) (htop : ∀ n ∈ top, Path.IsPlain n) (ht : m.tree.WellNamed)
    (hps : ((Suite.Session.projects h ⟨Path.ofPlace top, c, verbose⟩ selected).run m).1 = .ok ps) :
    (∀ p ∈ ps, p.buildDir.IsChildOf p.root ↔
        c.discovery.buildDir ≠ "." ∧ c.discovery.buildDir ≠ "..") ∧
      (c.discovery.buildDir = "." → ∀ p ∈ ps, p.buildDir.lexical = p.root.lexical) ∧
      (c.discovery.buildDir = ".." → ∀ p ∈ ps, p.buildDir.lexical = top) ∧
      (c.discovery.buildDir ≠ "." → c.discovery.buildDir ≠ ".." →
        ps.Pairwise BuiltApart ∧
          (∀ lcov patterns t xs ds,
            Coverage.LoopWord h.workingDir lcov patterns t ps xs ds →
              (ds.map fun d => d.tracefile.lexical).Nodup) ∧
          ∀ p ∈ ps, ∀ before : Machine, ∃ after r x ts,
            Runs h (Suite.cleanBuild h c.tools p).run before r after [x]
                [.removeDir p.buildDir] ts ∧
              CleanRemoval h top c.discovery.buildDir ps p before.tree x.found) := by
  obtain ⟨hne, hslash⟩ := Config.buildDir_of_parse hc
  have hfrom := Suite.Session.projects_fromNames ht hps
  refine ⟨?_, ?_, ?_, ?_⟩
  · intro p hp
    obtain ⟨n, -, rfl⟩ := hfrom.of_mem hp
    exact Path.join_isChildOf_iff _ hne hslash
  · intro hb p hp
    obtain ⟨n, -, rfl⟩ := hfrom.of_mem hp
    rw [Project.named_buildDir, Path.lexical_join_step _ hslash, hb]
    rfl
  · intro hb p hp
    obtain ⟨n, hn, rfl⟩ := hfrom.of_mem hp
    rw [Project.named_buildDir, Path.lexical_join_step _ hslash, hb,
      Project.lexical_root htop hn]
    simp [Path.lexicalStep]
  · intro hd hdd
    have hb : Path.IsPlain c.discovery.buildDir := ⟨hne, hslash, hd, hdd⟩
    have hapart := hfrom.pairwise htop hb
    refine ⟨hapart, fun _ _ _ _ _ hw => hw.nodup_tracefiles hapart, ?_⟩
    intro p hp before
    obtain ⟨after, r, x, ts, hrun, hx⟩ := Suite.cleanBuild_runs h before c.tools p
    refine ⟨after, r, x, ts, hrun, ?_⟩
    rw [hx]
    exact hfrom.cleanRemoval htop hb hp before.tree

/-- Two projects with sources, at the top. -/
def twoProjects : Tree :=
  ((((Tree.empty.set ["a"] (.dir 0o755)).set ["a", "CMakeLists.txt"] (.file [] 0o644)).set
    ["a", "main.c"] (.file [] 0o644)).set ["b"] (.dir 0o755)).set
      ["b", "CMakeLists.txt"] (.file [] 0o644)

theorem wellNamed_twoProjects : twoProjects.WellNamed :=
  ((((Tree.wellNamed_empty.set (by decide) _).set (by decide) _).set (by decide) _).set
    (by decide) _).set (by decide) _

theorem build_dirs_apart_twoProjects :
    (∀ p ∈ [Project.named [] "build" "a", Project.named [] "build" "b"],
        p.buildDir.IsChildOf p.root) ∧
      [Project.named [] "build" "a", Project.named [] "build" "b"].Pairwise BuiltApart := by
  have hps : ((Suite.Session.projects Coverage.sampleHost ⟨Path.ofPlace [], {}, false⟩ []).run
      ⟨twoProjects, [], 0⟩).1 =
        .ok [Project.named [] "build" "a", Project.named [] "build" "b"] :=
    Except.eq_ok_of_toOption (by decide +kernel)
  have hparse : Config.parse "" = .ok {} := Except.eq_ok_of_toOption (by decide +kernel)
  obtain ⟨hchild, -, -, hapart⟩ :=
    build_dirs_apart hparse (by simp) wellNamed_twoProjects hps
  exact ⟨fun p hp => (hchild p hp).mpr (by decide), (hapart (by decide) (by decide)).1⟩

/-- A step up is accepted, and leads from a project to the suite: both projects have the same build
directory, it is directly in neither, and removing it removes their sources and themselves. -/
theorem step_up_removes_projects :
    (Config.parse "[discovery]\nbuild_dir = \"..\"\n").toOption =
        some { discovery := { buildDir := ".." } } ∧
      ((Suite.Session.projects Coverage.sampleHost
        ⟨Path.ofPlace [], { discovery := { buildDir := ".." } }, false⟩ []).run
          ⟨twoProjects, [], 0⟩).1.toOption =
        some [Project.named [] ".." "a", Project.named [] ".." "b"] ∧
      ¬(Project.named [] ".." "a").buildDir.IsChildOf (Project.named [] ".." "a").root ∧
      (Project.named [] ".." "a").buildDir.lexical =
        (Project.named [] ".." "b").buildDir.lexical ∧
      twoProjects.lookup ["a", "main.c"] = some (.file [] 0o644) ∧
      ((Change.removeDir (Project.named [] ".." "a").buildDir).on Coverage.sampleHost
        twoProjects).lookup ["a", "main.c"] = none ∧
      ((Change.removeDir (Project.named [] ".." "a").buildDir).on Coverage.sampleHost
        twoProjects).lookup ["a"] = none ∧
      ((Change.removeDir (Project.named [] ".." "a").buildDir).on Coverage.sampleHost
        twoProjects).lookup ["b", "CMakeLists.txt"] = none := by
  refine ⟨by decide +kernel, by decide +kernel, ?_, by decide +kernel, by decide +kernel,
    by decide +kernel, by decide +kernel, by decide +kernel⟩
  intro hchild
  exact ((Path.join_isChildOf_iff _ (by decide) (by decide)).mp hchild).2 rfl

end HostSuite
