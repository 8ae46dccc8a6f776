import HostSuite.Proofs.Suite.Discovery

/-
  The output directory and the projects. Discovery leaves out the entry whose name is the text of
  the output directory, but the directory itself is where that text leads from the root. For a text
  without slashes these are the same, and no project is the output directory; a text with slashes
  can lead to an entry that has another name, and that entry is left out by nothing
  (`output_dir_is_project_iff`, `output_dir_spelled`).
-/

namespace HostSuite.Suite.Session

variable {h : Host} {m : Machine} {top : Place} {c : Config} {verbose : Bool}
  {selected : List String} {ps : List Project} {n : String}

/-- A text without slashes that leads to an entry is the name of that entry. -/
theorem outputDir_eq_of_lexical (htop : ∀ k ∈ top, Path.IsPlain k)
    (hslash : '/' ∉ c.coverage.outputDir.toList)
    (hn : (c.outputDir (Path.ofPlace top)).lexical = top ++ [n]) : n = c.coverage.outputDir := by
  unfold Config.outputDir at hn
  rw [Path.lexical_join_step _ hslash, Path.lexical_ofPlace htop] at hn
  have hlength := congrArg List.length hn
  unfold Path.lexicalStep at hn hlength
  split at hn
  · rw [if_pos ‹_›] at hlength
    simp at hlength
  · split at hn
    · rw [if_neg ‹_›, if_pos ‹_›] at hlength
      simp at hlength
    · simpa using hn.symm

theorem IsProject.plain {s : Session} {t : Tree} {base : Place} (ht : t.WellNamed)
    (hn : s.IsProject t base n) : Path.IsPlain n := by
  obtain ⟨names, hl, hmem⟩ := hn.entry
  obtain ⟨place, rfl⟩ := Tree.list_eq_ok hl
  exact ht.of_mem_namesIn hmem

/-- No project has the text of the output directory as its name. A project is the output directory
exactly if the text, which then has a slash, leads to an entry that makes a project and that the
selection does not leave out. -/
theorem output_dir_is_project_iff (htop : ∀ k ∈ top, Path.IsPlain k) (ht : m.tree.WellNamed)
    (hps : ((projects h ⟨Path.ofPlace top, c, verbose⟩ selected).run m).1 = .ok ps) :
    (∀ p ∈ ps, p.name ≠ c.coverage.outputDir) ∧
      ((∃ p ∈ ps, p.root.lexical = (c.outputDir (Path.ofPlace top)).lexical) ↔
        '/' ∈ c.coverage.outputDir.toList ∧
          ∃ n, (c.outputDir (Path.ofPlace top)).lexical = top ++ [n] ∧
            IsProject ⟨Path.ofPlace top, c, verbose⟩ m.tree h.workingDir n ∧
            (selected ≠ [] → n ∈ selected)) := by
  obtain ⟨m', hm'⟩ := projects_runs h m ⟨Path.ofPlace top, c, verbose⟩ selected
  have hgives : GivesProjects ⟨Path.ofPlace top, c, verbose⟩ m.tree h.workingDir selected _ :=
    givesProjects_chosen ht selected
  have hmem := hgives.members ps (hps ▸ congrArg Prod.fst hm'.1).symm
  have hroot {n : String} (hn : IsProject ⟨Path.ofPlace top, c, verbose⟩ m.tree h.workingDir n) :
      (projectOf ⟨Path.ofPlace top, c, verbose⟩ n).root.lexical = top ++ [n] := by
    show ((Path.ofPlace top).join n).lexical = _
    rw [Path.lexical_join _ (hn.plain ht), Path.lexical_ofPlace htop]
  refine ⟨fun p hp => ?_, ?_, ?_⟩
  · obtain ⟨n, hn, -, rfl⟩ := (hmem p).mp hp
    exact hn.output
  · rintro ⟨p, hp, hsame⟩
    obtain ⟨n, hn, hsel, rfl⟩ := (hmem p).mp hp
    rw [hroot hn] at hsame
    refine ⟨?_, n, hsame.symm, hn, hsel⟩
    by_contra hslash
    exact hn.output (outputDir_eq_of_lexical htop hslash hsame.symm)
  · rintro ⟨-, n, hout, hn, hsel⟩
    exact ⟨_, (hmem _).mpr ⟨n, hn, hsel, rfl⟩, by rw [hroot hn, hout]⟩

/-- The output directory as a step in place and a name. -/
def spelledOutput : Config := { coverage := { outputDir := "./a" } }

/-- A text without slashes, so no project is the output directory; and a text with one that leads to
a project. -/
theorem output_dir_is_project_iff_twoProjects :
    (((projects Coverage.sampleHost ⟨Path.ofPlace [], {}, false⟩ []).run ⟨twoProjects, [], 0⟩).1 =
          .ok [Project.named [] "build" "a", Project.named [] "build" "b"] ∧
        ¬∃ p ∈ [Project.named [] "build" "a", Project.named [] "build" "b"],
          p.root.lexical = (({} : Config).outputDir (Path.ofPlace [])).lexical) ∧
      ((projects Coverage.sampleHost ⟨Path.ofPlace [], spelledOutput, false⟩ []).run
          ⟨twoProjects, [], 0⟩).1 =
          .ok [Project.named [] "build" "a", Project.named [] "build" "b"] ∧
        ∃ p ∈ [Project.named [] "build" "a", Project.named [] "build" "b"],
          p.root.lexical = (spelledOutput.outputDir (Path.ofPlace [])).lexical := by
  have hplain : ((projects Coverage.sampleHost ⟨Path.ofPlace [], {}, false⟩ []).run
      ⟨twoProjects, [], 0⟩).1 =
        .ok [Project.named [] "build" "a", Project.named [] "build" "b"] :=
    Except.eq_ok_of_toOption (by decide +kernel)
  have hspelled : ((projects Coverage.sampleHost ⟨Path.ofPlace [], spelledOutput, false⟩ []).run
      ⟨twoProjects, [], 0⟩).1 =
        .ok [Project.named [] "build" "a", Project.named [] "build" "b"] :=
    Except.eq_ok_of_toOption (by decide +kernel)
  obtain ⟨-, hiff⟩ := output_dir_is_project_iff (by simp) wellNamed_twoProjects hplain
  obtain ⟨-, hiff'⟩ := output_dir_is_project_iff (by simp) wellNamed_twoProjects hspelled
  have hlist : twoProjects.list Coverage.sampleHost.workingDir (Path.ofPlace []) =
      .ok ["a", "b"] := by decide +kernel
  have hproject : IsProject ⟨Path.ofPlace [], spelledOutput, false⟩ twoProjects
      Coverage.sampleHost.workingDir "a" := (isProject_iff hlist).mpr (by decide +kernel)
  exact ⟨⟨hplain, fun hsame => absurd (hiff.mp hsame).1 (by decide)⟩, hspelled,
    hiff'.mpr ⟨by decide, "a", by decide +kernel, hproject, by simp⟩⟩

/-- The output directory as a step in place and a name is accepted, and the directory that it is
makes a project. -/
theorem output_dir_spelled :
    (Config.parse "[coverage]\noutput_dir = \"./a\"\n").toOption =
        some { coverage := { outputDir := "./a" } } ∧
      ((projects Coverage.sampleHost ⟨Path.ofPlace [], { coverage := { outputDir := "./a" } },
        false⟩ []).run ⟨twoProjects, [], 0⟩).1.toOption =
        some [Project.named [] "build" "a", Project.named [] "build" "b"] ∧
      (Project.named [] "build" "a").root.lexical =
        (({ coverage := { outputDir := "./a" } } : Config).outputDir
          (Path.ofPlace [])).lexical := by
  refine ⟨by decide +kernel, by decide +kernel, by decide +kernel⟩

end HostSuite.Suite.Session
