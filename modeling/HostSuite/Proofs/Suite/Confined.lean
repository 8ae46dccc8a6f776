import HostSuite.Proofs.Machine.Abreast
import HostSuite.Proofs.Project.Beside
import HostSuite.Proofs.Suite.SideBySide

/-
  One project on two machines. The commands of a project are confined when their answers and what
  they do depend on and change nothing but the directory that the project is in (`Confined`). If
  besides no tree that can arise in a run of the project has a link that leads out of that
  directory, a run of the project gives the same result, sends the same commands and leaves the same
  directory on any two machines whose trees have the same directory (`runProject_alike`), whatever
  else is in these trees.
-/

namespace HostSuite

/-- The root of a project is a place, and its build directory is a name in it. -/
structure Project.At (p : Project) (P : Place) (b : String) : Prop where
  root : p.root = Path.ofPlace P
  buildDir : p.buildDir = Path.ofPlace (P ++ [b])
  ne_top : P ≠ []
  plain : ∀ n ∈ P ++ [b], Path.IsPlain n

theorem Project.At.root_plain {p : Project} {P : Place} {b : String} (hp : p.At P b) :
    ∀ n ∈ P, Path.IsPlain n :=
  fun n hn => hp.plain n (List.mem_append_left _ hn)

/-- On some trees, commands run in `cwd` depend on and change nothing but what is at and below `P`,
and give new entries plain names. -/
structure Confined (h : Host) (ok : Tree → Prop) (cwd : Path) (P : Place) : Prop where
  alike : ∀ c, c.cwd = cwd → ∀ cs cs' t t', ok t → ok t' → Tree.Agree (P <+: ·) t t' →
    Reply.Like (Tree.Agree (P <+: ·)) (h.runner cs c t) (h.runner cs' c t')
  around : ∀ c, c.cwd = cwd → ∀ cs t, ok t → Tree.Agree (¬P <+: ·) t (h.runner cs c t).tree
  names : ∀ c, c.cwd = cwd → ∀ cs t, ok t → t.WellNamed → (h.runner cs c t).tree.WellNamed

/-- A tree in which some places are as in `T` and a directory is self-contained. -/
def Amid (T : Tree) (s : Place → Prop) (P : Place) (t : Tree) : Prop :=
  Tree.Agree s T t ∧ t.SelfContained P

/-- The trees that can arise in a run of a project: from the first one, its own changes and commands
in its root, in any order. -/
inductive Arises (h : Host) (p : Project) (T : Tree) : Tree → Prop
  | start : Arises h p T T
  | change {t : Tree} {c : Change} (ht : Arises h p T t)
      (hc : c = .removeDir p.buildDir ∨ c = .dropCounters p.root) : Arises h p T (c.on h t)
  | command {t : Tree} {c : Command} (cs : List Command) (ht : Arises h p T t)
      (hc : c.cwd = p.root) : Arises h p T (h.runner cs c t).tree

/-- The directory of a project in two trees, the first one of which arises from `T` in its run. -/
def Paired (h : Host) (p : Project) (P : Place) (T o t t' : Tree) : Prop :=
  Tree.Beside P T o t t' ∧ Arises h p T t

namespace Suite

open HostSuite.Tree

section

variable {h : Host} {s : Place → Prop} {T o : Tree} {p : Project} {P : Place} {b : String}

/-- Commands in the root of the project. -/
theorem answered (hs : ∀ q, s q → ¬P <+: q) (ho : Agree s T o)
    (hconf : Confined h (Amid T s P) p.root P)
    (hcont : ∀ t, Arises h p T t → t.SelfContained P) {c : Command} (hc : c.cwd = p.root) :
    AnsweredAlike h h (Paired h p P T o) c := by
  rintro cs cs' t t' ⟨hb, ha⟩
  have hok : Amid T s P t := ⟨hb.around.mono hs, hb.contained⟩
  have hok' : Amid T s P t' :=
    ⟨ho.trans (hb.around'.mono hs), hb.contained.of_agree hb.along⟩
  obtain ⟨houtcome, hrelayed, hinside⟩ := hconf.alike c hc cs cs' t t' hok hok' hb.inside
  have hnext := ha.command cs hc
  exact ⟨houtcome, hrelayed, ⟨hb.above, hb.around.trans (hconf.around c hc cs t hok),
    hb.around'.trans (hconf.around c hc cs' t' hok'), hinside, hcont _ hnext,
    hconf.names c hc cs t hok hb.names⟩, hnext⟩

/-- Changes that a project makes itself. -/
theorem abreast_change {α : Type} {c : Change} {edit : Tree → Tree × α}
    (hc : c = .removeDir p.buildDir ∨ c = .dropCounters p.root)
    (hon : ∀ t, c.on h t = (edit t).1)
    (hstay : ∀ t t', Beside P T o t t' → StayBeside P T o (edit t) (edit t')) :
    Abreast h h (Paired h p P T o) (Action.change c edit) (Action.change c edit) := by
  refine .change hon hon fun t t' ⟨hb, ha⟩ => ?_
  obtain ⟨hanswer, hb'⟩ := hstay t t' hb
  refine ⟨hanswer, hb', ?_⟩
  rw [← hon]
  exact ha.change hc

end

section

variable {h : Host} {s : Place → Prop} {T o : Tree} {p : Project} {P : Place} {b : String}
  (hp : p.At P b) (hs : ∀ q, s q → ¬P <+: q) (ho : Agree s T o)
  (hconf : Confined h (Amid T s P) p.root P) (hcont : ∀ t, Arises h p T t → t.SelfContained P)

include hp in
/-- The project changes its own directory, and finds its binary there. -/
theorem handled_paired :
    Handled h h (Paired h p P T o) (fun α => Abreast (α := α) h h (Paired h p P T o)) p := by
  have hspells := Path.spells_ofPlace hp.plain
  have hends := Path.endsInSlash_ofPlace hp.plain (by simp)
  rw [← hp.buildDir] at hspells hends
  have hspells' := Path.spells_ofPlace hp.root_plain
  have hends' := Path.endsInSlash_ofPlace hp.root_plain hp.ne_top
  rw [← hp.root] at hspells' hends'
  refine ⟨abreast_change (.inl rfl) (fun _ => rfl) fun t t' hb => ?_,
    abreast_change (.inr rfl) (fun _ => rfl) fun t t' hb => ?_, fun t t' hb => ?_⟩
  · exact hb.removeDirsIfThere h.workingDir hspells hends
  · exact hb.dropCounters h.workingDir hspells' hends'
  · rw [hp.buildDir]
    exact hb.1.findBinary_eq h.workingDir (List.prefix_append P [b]) hp.plain

include hp hs ho hconf hcont

theorem abreast_stages (tools : ToolSettings) (clean : Bool) :
    Abreast h h (Paired h p P T o) (stages h tools clean p).run (stages h tools clean p).run :=
  have hR := Abreast.twofold (C := fun c => c.cwd = p.root) rfl rfl rfl rfl
    fun _ => answered hs ho hconf hcont
  twofold_stages hR (handled_paired hp) (fun _ _ => rfl) tools clean

/-- All of a run of the project. -/
theorem runProject_alike (tools : ToolSettings) (clean : Bool) {m m' : Machine}
    (ht : Paired h p P T o m.tree m'.tree) :
    (runProject h tools clean p m').1 = (runProject h tools clean p m).1 ∧
      InStep h h (Paired h p P T o) m m' (runProject h tools clean p m).2
        (runProject h tools clean p m').2 :=
  abreastTo_runProject (abreast_stages hp hs ho hconf hcont tools clean) m m' ht

end

end Suite

end HostSuite
