import HostSuite.Proofs.Coverage.SideBySide
import HostSuite.Proofs.Machine.Hushed
import HostSuite.Proofs.Tree.Differs
import HostSuite.Coverage.Ignore

/-
  Unified coverage, loud and quiet. Until the report is written both runs have the same tree, so
  what they read of it is the same. The report tells when it was begun, and the two runs may be at
  different times; so from there on the trees are the same up to the times in reports (`UpToStamp`),
  and what is left, the rendering of the page, goes hushed under tools that respect this
  (`hushed_unify`). All tools do where the times are the same (`respects_sameStamp`).
-/

namespace HostSuite.Coverage

open HostSuite.Tree

/-- At a place two trees have the same report, begun at two times. -/
def Restamped (stamp stamp' : String) (_ : Place) (n n' : Option Node) : Prop :=
  ∃ ss mode, n = some (.file (Text.encode (Report.mk stamp ss).render) mode) ∧
    n' = some (.file (Text.encode (Report.mk stamp' ss).render) mode)

/-- Two trees are the same up to the times in reports. -/
def UpToStamp (stamp stamp' : String) (t t' : Tree) : Prop :=
  t' = t ∨ stamp' ≠ stamp ∧ Differs (Restamped stamp stamp') t t'

/-! ## The writing of the report -/

theorem UpToStamp.of_eq (stamp stamp' : String) (t t' : Tree) (ht : t = t') :
    UpToStamp stamp stamp' t t' := .inl ht.symm

theorem respects_sameStamp (h : Host) (stamp : String) : h.Respects (UpToStamp stamp stamp) := by
  rintro cs c t t' (rfl | ⟨hne, -⟩)
  · exact ⟨rfl, rfl, .inl rfl⟩
  · exact absurd rfl hne

/-- Whether a text can be written, and where it ends up, does not depend on the text. -/
theorem write_cases (t : Tree) (base : Place) (p : Path) :
    (∃ e, ∀ content, t.write base p content = .error e) ∨
      ∃ q mode, q ≠ [] ∧
        ∀ content, t.write base p content = .ok (t.set q (.file content mode)) := by
  unfold write
  cases hp : t.resolve base p with
  | error e => exact .inl ⟨e, fun _ => rfl⟩
  | ok place =>
    dsimp only
    cases hl : t.lookup place with
    | none =>
      dsimp only
      split
      · refine .inr ⟨place, 0o644, ?_, fun _ => rfl⟩
        rintro rfl
        cases hl
      · exact .inl ⟨_, fun _ => rfl⟩
    | some n =>
      cases n with
      | dir mode => exact .inl ⟨_, fun _ => rfl⟩
      | link target => exact .inl ⟨_, fun _ => rfl⟩
      | file old mode =>
        dsimp only
        split
        · refine .inr ⟨place, mode, ?_, fun _ => rfl⟩
          rintro rfl
          cases hl
        · exact .inl ⟨_, fun _ => rfl⟩

/-- The same report, begun at two times, is put into the same tree. -/
theorem upToStamp_set {t : Tree} {q : Place} {mode : Nat} (hq : q ≠ []) (stamp stamp' : String)
    (ss : List Summary) :
    UpToStamp stamp stamp' (t.set q (.file (Text.encode (Report.mk stamp ss).render) mode))
      (t.set q (.file (Text.encode (Report.mk stamp' ss).render) mode)) := by
  by_cases hs : stamp' = stamp
  · rw [hs]
    exact .inl rfl
  · refine .inr ⟨hs, fun p => ?_⟩
    by_cases hp : q = p
    · subst hp
      rw [lookup_set_self t q _ hq, lookup_set_self t q _ hq]
      exact .inr ⟨ss, mode, rfl, rfl⟩
    · rw [lookup_set_ne t _ hp, lookup_set_ne t _ hp]
      exact .inl rfl

section

variable {h : Host} {stamp : String} {timed : Prop}

theorem hushed_writeReport (p : Path) (ss : List Summary) :
    Hushed h timed Eq (UpToStamp h.timestamp stamp) (writeReport h p ⟨h.timestamp, ss⟩)
      (writeReport (h.hushed stamp) p ⟨stamp, ss⟩) := by
  have hwrite : Hushed h timed Eq (UpToStamp h.timestamp stamp)
      (Action.writeText h p (Report.mk h.timestamp ss).render)
      (Action.writeText (h.hushed stamp) p (Report.mk stamp ss).render) := by
    refine .change ?_
    rintro t _ rfl
    obtain ⟨e, he⟩ | ⟨q, mode, hq, hw⟩ := write_cases t h.workingDir p
    · have he' : ∀ content, t.write (h.hushed stamp).workingDir p content = .error e := he
      rw [he, he']
      exact ⟨rfl, .inl rfl⟩
    · have hw' : ∀ content, t.write (h.hushed stamp).workingDir p content =
          .ok (t.set q (.file content mode)) := hw
      rw [hw, hw']
      exact ⟨rfl, upToStamp_set hq h.timestamp stamp ss⟩
  refine .bind hwrite fun e => ?_
  cases e with
  | none => exact .pure none
  | some e => exact .pure _

theorem hushed_writeReportAnyway (p : Path) (ss : List Summary) :
    Hushed h timed Eq (UpToStamp h.timestamp stamp) (writeReportAnyway h p ⟨h.timestamp, ss⟩)
      (writeReportAnyway (h.hushed stamp) p ⟨stamp, ss⟩) := by
  refine .bind (hushed_writeReport p ss) fun failure => ?_
  cases failure with
  | none => exact .pure ()
  | some failure => exact .notify _ _

/-- The run fails, whatever becomes of its report. -/
theorem hushed_failAnyway (p : Path) (ss : List Summary) (f : Failure) :
    Hushed h timed Eq (UpToStamp h.timestamp stamp)
      (do
        liftM (writeReportAnyway h p ⟨h.timestamp, ss⟩)
        throw f : Attempt Failure Unified).run
      (do
        liftM (writeReportAnyway (h.hushed stamp) p ⟨stamp, ss⟩)
        throw f : Attempt Failure Unified).run :=
  .andThen (.lift (hushed_writeReportAnyway p ss)) fun _ => .pure _

/-- The patterns are read from the same tree. -/
theorem hushed_loadPatterns (p : Path) :
    Hushed h timed Eq Eq (loadPatterns h p) (loadPatterns (h.hushed stamp) p) := by
  refine .bind_get fun m m' ht => ?_
  have hread : m'.tree.readText (h.hushed stamp).workingDir p = m.tree.readText h.workingDir p := by
    rw [ht]
    rfl
  rw [hread]
  generalize m.tree.readText h.workingDir p = r
  split
  · exact .pure _
  · exact .pure _
  · exact .bind (.notify _ _) fun _ => .pure _

end

/-! ## From the first capture to the page -/

/-- A command with several arguments is no probe. -/
theorem not_isProbe_of_several (c : Command) (hc : 1 < c.args.length) : c.isProbe = false :=
  Command.isProbe_of_length (Nat.ne_of_gt hc)

section

variable {h : Host} {stamp : String} {timed : Prop} (hp : h.ProbesHarmless)
  (hloud : h.echoes = true) (hs : h.Respects (UpToStamp h.timestamp stamp))

include hp hloud

/-- On the same tree. -/
theorem twofold_same : Twofold h (h.hushed stamp) Eq (fun c => c.isProbe = false) fun α =>
    Hushed (α := α) h timed Eq Eq :=
  Hushed.twofold hp hloud h.respects_eq

include hs

theorem hushed_conclude (c : Config) (root : Path) (paths : OutputPaths) (ds : List Dataset) :
    Hushed h timed Eq (UpToStamp h.timestamp stamp) (conclude h c root paths ds).run
      (conclude (h.hushed stamp) c root paths ds).run := by
  have hof := UpToStamp.of_eq h.timestamp stamp
  have hsummarize : Hushed h timed Eq Eq _
      (summarize (h.hushed stamp) c.tools.lcov paths.unified unifiedLabel root) :=
    twofold_summarize (twofold_same hp hloud) not_isProbe_of_several _ _ _ _
  refine .andThenTo (.lift (.sayLine _)) hof fun _ =>
    .andThenTo (.lift hsummarize) hof fun summary =>
      .andThen (.lift (hushed_writeReport _ _)) fun failure => ?_
  cases failure with
  | some failure => exact .pure _
  | none =>
    exact twofold_publish (Hushed.twofold hp hloud hs) not_isProbe_of_several c root paths _ summary

theorem hushed_combine (c : Config) (root : Path) (paths : OutputPaths) (ds : List Dataset) :
    Hushed h timed Eq (UpToStamp h.timestamp stamp) (combine h c root paths ds).run
      (combine (h.hushed stamp) c root paths ds).run := by
  have hof := UpToStamp.of_eq h.timestamp stamp
  have hmerge : Hushed h timed Eq Eq _ (mergeAll (h.hushed stamp) c root paths ds) :=
    twofold_mergeAll (twofold_same hp hloud) not_isProbe_of_several c root paths ds
  unfold combine
  split
  · exact hushed_failAnyway _ _ _
  · refine .andThenTo (.lift (.sayLine _)) hof fun _ =>
      .andThenTo (.lift hmerge) hof fun r => ?_
    cases r with
    | error f => exact hushed_failAnyway _ _ _
    | ok _ => exact hushed_conclude hp hloud hs c root paths ds

/-- Unified coverage from the same tree. -/
theorem hushed_unify (c : Config) (root : Path) (projects : List Project)
    (patterns : List String) :
    Hushed h timed Eq (UpToStamp h.timestamp stamp) (unify h c root projects patterns).run
      (unify (h.hushed stamp) c root projects patterns).run := by
  have hof := UpToStamp.of_eq h.timestamp stamp
  have hbuilt : ∀ t t' : Tree, t = t' → ∀ p : Path,
      t'.isDir h.workingDir p = t.isDir h.workingDir p := by
    rintro t _ rfl p
    rfl
  have hdatasets : Hushed h timed Eq Eq _ (datasets (h.hushed stamp) c patterns projects) :=
    twofold_datasets (twofold_same hp hloud) not_isProbe_of_several hbuilt c patterns projects
  have hprepare : Hushed h timed Eq Eq _
      (prepare (h.hushed stamp) (OutputPaths.inDir (c.outputDir root))).run :=
    twofold_prepare (twofold_same hp hloud) (.change_same _ _) (.change_same _ _)
  exact .andThenTo hprepare hof fun _ =>
    .andThenTo (.lift (.announce _)) hof fun _ =>
      .andThenTo (.lift (.sayLine _)) hof fun _ =>
        .andThenTo (.lift hdatasets) hof fun ds =>
          hushed_combine hp hloud hs c root _ ds

end

end HostSuite.Coverage
