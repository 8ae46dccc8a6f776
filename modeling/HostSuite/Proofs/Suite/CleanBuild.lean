import HostSuite.Proofs.Suite.SideBySide
import HostSuite.Proofs.Suite.Trials
import HostSuite.Proofs.Tree.Rooted
import HostSuite.Proofs.Tree.Visits

/-
  Clean runs do not depend on earlier builds. Two trees that differ in a build directory only are
  the same tree when the directory has been removed from them (`removeDirsIfThere_eq`), and a clean
  run has asked nothing about it until then. So with a runner that goes by the command and the tree,
  clean runs on the two give the same result, send the same commands, show the same, and leave the
  same tree (`cleanRun_isolated`).
-/

namespace HostSuite

namespace Tree

variable {t t' : Tree} {base B : Place} {p : Path}

/-- Nothing is at a place, or the path names a directory there that can be removed with everything
in it. -/
def AbsentOrRemovable (t : Tree) (base : Place) (p : Path) (B : Place) : Prop :=
  t.lookup B = none ∨
    (∃ mode, t.find base p false = .ok (B, .dir mode)) ∧ (t.removeDirs base p).2 = none

/-- The trees differ at and below a place only, which the path names where it is a directory. -/
structure DifferAt (base : Place) (p : Path) (B : Place) (t t' : Tree) : Prop where
  rooted : t.Rooted
  rooted' : t'.Rooted
  around : Agree (¬B <+: ·) t t'
  removable : t.AbsentOrRemovable base p B
  removable' : t'.AbsentOrRemovable base p B

/-- A place was cleaned: there is nothing at it and below it, and nothing else has changed. -/
structure Cleaned (B : Place) (t : Tree) (x : Tree × Option IoError) : Prop where
  answer : x.2 = none
  rooted : x.1.Rooted
  around : Agree (¬B <+: ·) t x.1
  gone : ∀ q, B <+: q → x.1.lookup q = none

/-- There is one way to clean a place. -/
theorem Cleaned.unique {x y : Tree × Option IoError} (hx : Cleaned B t x) (hy : Cleaned B t' y)
    (ha : Agree (¬B <+: ·) t t') : y = x := by
  refine Prod.ext (hx.rooted.ext hy.rooted fun q => ?_) (hy.answer.trans hx.answer.symm)
  by_cases hq : B <+: q
  · rw [hx.gone q hq, hy.gone q hq]
  · rw [hx.around q hq, hy.around q hq, ha q hq]

/-- Removing a directory cleans its place. -/
theorem cleaned_of_dir (ht : t.Rooted) {mode : Nat} (hf : t.find base p false = .ok (B, .dir mode))
    (hok : (t.removeDirs base p).2 = none) : Cleaned B t (t.removeDirsIfThere base p) := by
  have hsame : t.removeDirsIfThere base p = t.removeDirs base p := by
    unfold removeDirsIfThere
    split
    · rename_i hr
      rw [hr] at hok
      cases hok
    · rfl
  rw [hsame]
  refine ⟨hok, ht.removeDirs, ?_, fun q => removeDirs_gone ht hf hok⟩
  refine (removeDirs_onlyClears t base p).agree ?_
  rintro q hq ⟨place, n, hf', hpre⟩
  rw [hf] at hf'
  cases hf'
  exact hq hpre

/-- A path to a directory that is only in another tree finds nothing to remove. -/
theorem cleaned_of_absent (ht : t.Rooted) (hnone : t.lookup B = none) (ha : Agree (¬B <+: ·) t' t)
    {mode : Nat} (hf : t'.find base p false = .ok (B, .dir mode)) :
    Cleaned B t (t.removeDirsIfThere base p) := by
  have hclears : OnlyClears (B <+: ·) t' t := by
    intro q
    by_cases hq : B <+: q
    · exact .inr ⟨hq, ht.gone_below hnone hq⟩
    · exact .inl (ha q hq)
  have hsame : t.removeDirsIfThere base p = (t, none) := by
    unfold removeDirsIfThere removeDirs
    rw [hclears.find_missing hf hnone]
  rw [hsame]
  exact ⟨rfl, ht, .refl _ t, fun q hq => ht.gone_below hnone hq⟩

/-- After the removal the trees are the same, and so are the answers. -/
theorem removeDirsIfThere_eq (hd : DifferAt base p B t t') :
    t'.removeDirsIfThere base p = t.removeDirsIfThere base p := by
  obtain hnone | ⟨⟨mode, hf⟩, hok⟩ := hd.removable
  · obtain hnone' | ⟨⟨mode', hf'⟩, hok'⟩ := hd.removable'
    · have hsame : t' = t := by
        refine hd.rooted.ext hd.rooted' fun q => ?_
        by_cases hq : B <+: q
        · rw [hd.rooted.gone_below hnone hq, hd.rooted'.gone_below hnone' hq]
        · exact hd.around q hq
      rw [hsame]
    · exact (cleaned_of_absent hd.rooted hnone hd.around.symm hf').unique
        (cleaned_of_dir hd.rooted' hf' hok') hd.around
  · obtain hnone' | ⟨⟨mode', hf'⟩, hok'⟩ := hd.removable'
    · exact (cleaned_of_dir hd.rooted hf hok).unique
        (cleaned_of_absent hd.rooted' hnone' hd.around hf) hd.around
    · exact (cleaned_of_dir hd.rooted hf hok).unique (cleaned_of_dir hd.rooted' hf' hok') hd.around

end Tree

namespace Suite

open HostSuite.Tree

section

variable {h : Host} {p : Project} {B : Place}
  (hrunner : ∀ cs cs' c t, h.runner cs' c t = h.runner cs c t)

include hrunner in
/-- On one tree a command is answered alike. -/
theorem answeredAlike_eq (c : Command) : AnsweredAlike h h Eq c := by
  rintro cs cs' t t' rfl
  rw [hrunner cs cs' c t]
  exact ⟨rfl, rfl, rfl⟩

/-- On one tree everything is handled alike. -/
theorem handled_eq (h : Host) (p : Project) :
    Handled h h Eq (fun α => Abreast (α := α) h h Eq) p := by
  refine ⟨?_, ?_, ?_⟩
  · refine .change (fun _ => rfl) (fun _ => rfl) ?_
    rintro t t' rfl
    exact ⟨rfl, rfl⟩
  · refine .change (fun _ => rfl) (fun _ => rfl) ?_
    rintro t t' rfl
    exact ⟨rfl, rfl⟩
  · rintro t t' rfl
    rfl

/-- The removal makes one tree of two. -/
theorem abreastTo_removeBuild :
    AbreastTo h h (DifferAt h.workingDir p.buildDir B) Eq (removeBuild h p) (removeBuild h p) := by
  have hremove : AbreastTo h h (DifferAt h.workingDir p.buildDir B) Eq
      (Action.removeDir h p.buildDir) (Action.removeDir h p.buildDir) := by
    refine .change (fun _ => rfl) (fun _ => rfl) fun t t' hd => ?_
    rw [removeDirsIfThere_eq hd]
    exact ⟨rfl, rfl⟩
  refine hremove.bind fun e => ?_
  cases e with
  | none => exact Abreast.pure ()
  | some e => exact Abreast.notify rfl _ _

include hrunner

/-- Before the removal only texts are shown that do not depend on the trees. -/
theorem abreastTo_cleanStages (tools : ToolSettings) :
    AbreastTo h h (DifferAt h.workingDir p.buildDir B) Eq (stages h tools true p).run
      (stages h tools true p).run := by
  have hR : Twofold h h Eq (fun _ => True) fun α => Abreast (α := α) h h Eq :=
    Abreast.twofold rfl rfl rfl rfl fun c _ => answeredAlike_eq hrunner c
  have hp := handled_eq h p
  have hC (program : String) (args : List String) :
      (fun _ : Command => True) (stageCommand p program args) := trivial
  have hclean : AbreastTo h h (DifferAt h.workingDir p.buildDir B) Eq (cleanBuild h tools p).run
      (cleanBuild h tools p).run :=
    AbreastTo.liftThen (Abreast.notify rfl _ _) fun _ =>
      AbreastTo.liftThen abreastTo_removeBuild fun _ => twofold_stage hR hC _ _ _ _ _ _
  refine AbreastTo.liftThen (Abreast.sayLine _) fun _ =>
    AbreastTo.liftThen (Abreast.announce rfl _) fun _ => ?_
  exact hclean.andThen fun _ =>
    hR.andThen (hR.lift (twofold_dropCounters hR hp)) fun _ => twofold_buildAndTest hR hp hC tools

/-- On two trees that differ in the build directory of a project only, which is missing or can be
removed, clean runs of the project give the same result, send the same commands, show the same in
the same order, take the same time and leave the same tree; see `InStep`. -/
theorem cleanRun_isolated (tools : ToolSettings) {m m' : Machine}
    (ht : DifferAt h.workingDir p.buildDir B m.tree m'.tree) :
    (runProject h tools true p m').1 = (runProject h tools true p m).1 ∧
      InStep h h Eq m m' (runProject h tools true p m).2 (runProject h tools true p m').2 :=
  abreastTo_runProject (abreastTo_cleanStages hrunner tools) m m' ht

end

/-- A project that has not been built. -/
def freshTree : Tree := Tree.empty.putAll [] [.file ⟨"/a/main.c"⟩ [] 0o644]

/-- The same project with an old binary, an old counter and a link in its build directory. -/
def staleTree : Tree :=
  (((freshTree.set ["a", "build"] (.dir 0o755)).set ["a", "build", "host_test"]
    (.file [1] 0o755)).set ["a", "build", "old.gcda"] (.file [] 0o644)).set
      ["a", "build", "sdk"] (.link "/a")

theorem differAt_staleTree : DifferAt [] ⟨"/a/build"⟩ ["a", "build"] freshTree staleTree := by
  have hfresh : freshTree.Rooted := rooted_putAll rooted_empty _
  have hbuild := hfresh.put (p := ["a", "build"]) (by decide +kernel) ⟨0o755, by decide +kernel⟩
    (.dir 0o755)
  have hbinary := hbuild.put (p := ["a", "build", "host_test"]) (by decide +kernel)
    ⟨0o755, by decide +kernel⟩ (.file [1] 0o755)
  have hcounter := hbinary.put (p := ["a", "build", "old.gcda"]) (by decide +kernel)
    ⟨0o755, by decide +kernel⟩ (.file [] 0o644)
  have hstale := hcounter.put (p := ["a", "build", "sdk"]) (by decide +kernel)
    ⟨0o755, by decide +kernel⟩ (.link "/a")
  have hset (t : Tree) (names : List String) (n : Node) :
      Agree (¬["a", "build"] <+: ·) t (t.set (["a", "build"] ++ names) n) :=
    set_agree t n (not_not_intro (List.prefix_append _ names))
  refine ⟨hfresh, hstale, ?_, ?_, ?_⟩
  · exact (((hset _ [] _).trans (hset _ ["host_test"] _)).trans (hset _ ["old.gcda"] _)).trans
      (hset _ ["sdk"] _)
  · exact .inl (by decide +kernel)
  · exact .inr ⟨⟨0o755, Except.eq_ok_of_toOption (by decide +kernel)⟩, by decide +kernel⟩

/-- A run of that project with tools that build nothing. -/
def idleRun (clean : Bool) (t : Tree) : ProjectResult × Machine :=
  runProject idleHost {} clean (Project.named [] "build" "a") ⟨t, [], 0⟩

/-- Only a run that is not clean finds the old binary. -/
theorem cleanRun_isolated_staleTree :
    (∀ cs cs' c t, idleHost.runner cs' c t = idleHost.runner cs c t) ∧
      (idleRun true staleTree).1 = (idleRun true freshTree).1 ∧
      InStep idleHost idleHost Eq ⟨freshTree, [], 0⟩ ⟨staleTree, [], 0⟩ (idleRun true freshTree).2
        (idleRun true staleTree).2 ∧
      (idleRun true staleTree).1.failure? =
        some (.fault (.executableNotFound "a" ⟨"/a/build"⟩)) ∧
      (idleRun false staleTree).1.failure? = none := by
  have hrunner : ∀ cs cs' c t, idleHost.runner cs' c t = idleHost.runner cs c t :=
    fun _ _ _ _ => rfl
  have halike : (idleRun true staleTree).1 = (idleRun true freshTree).1 ∧
      InStep idleHost idleHost Eq ⟨freshTree, [], 0⟩ ⟨staleTree, [], 0⟩ (idleRun true freshTree).2
        (idleRun true staleTree).2 :=
    cleanRun_isolated hrunner {} differAt_staleTree
  exact ⟨hrunner, halike.1, halike.2, by decide +kernel, by decide +kernel⟩

end Suite

end HostSuite
