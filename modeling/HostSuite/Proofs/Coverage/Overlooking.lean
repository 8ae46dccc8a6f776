import HostSuite.Proofs.Coverage.Report
import HostSuite.Proofs.Coverage.SideBySide
import HostSuite.Proofs.Machine.Abreast
import HostSuite.Proofs.Tree.Differs

/-
  Runs under tools that take no notice of the report. Such tools are answered alike on trees that
  differ in nothing but an old report, and a run itself reads no files; so two runs on such trees go
  abreast through the turns of the projects, the merge and the unified summary, at another time as
  well (`combine_atReport`). From the writing of the report on, what is left to do depends on
  nothing but whether the report could be written (`reportThen`).
-/

namespace HostSuite

/-- The host at another time. -/
def Host.stamped (h : Host) (stamp : String) : Host := { h with timestamp := stamp }

namespace Coverage

open HostSuite.Tree

/-- Two replies that are the same apart from a place, which has the same in both trees or what it
had before in each. -/
structure Overlooking (q : Place) (t t' : Tree) (r r' : Reply) : Prop where
  outcome : r'.outcome = r.outcome
  relayed : r'.relayed = r.relayed
  tree : ∀ p, r'.tree.lookup p = r.tree.lookup p ∨
    p = q ∧ r.tree.lookup q = t.lookup q ∧ r'.tree.lookup q = t'.lookup q

/-- What a host makes of a command does not depend on the file that is at a place, or on whether one
is there. -/
def Overlooks (h : Host) (q : Place) : Prop :=
  ∀ cs cs' c t t', Differs (InLeaves (· = q)) t t' →
    Overlooking q t t' (h.runner cs c t) (h.runner cs' c t')

/-- Nothing, or a file with this mode. -/
def IsOld (mode : Nat) (n : Option Node) : Prop :=
  n = none ∨ ∃ content, n = some (.file content mode)

/-- Each tree may have an old file at a place. -/
def OldAt (q : Place) (mode : Nat) (p : Place) (n n' : Option Node) : Prop :=
  p = q ∧ IsOld mode n ∧ IsOld mode n'

/-- The mode of a file that is written. -/
def modeFor : Option Node → Nat
  | some (.file _ mode) => mode
  | _ => 0o644

/-- Each tree has a file of its own at a place. The modes are the same, or each is the old one or
the one that new files get. -/
def NewAt (q : Place) (mode : Nat) (content content' : Text.Bytes) (p : Place)
    (n n' : Option Node) : Prop :=
  p = q ∧ ∃ x x', n = some (.file content x) ∧ n' = some (.file content' x') ∧
    (x' = x ∨ (x = mode ∨ x = 0o644) ∧ (x' = mode ∨ x' = 0o644))

theorem IsOld.isLeaf {mode : Nat} {n : Option Node} (hn : IsOld mode n) : IsLeaf n :=
  hn.imp_right fun ⟨content, h⟩ => ⟨content, mode, h⟩

theorem OldAt.inLeaves {q p : Place} {mode : Nat} {n n' : Option Node}
    (ho : OldAt q mode p n n') : InLeaves (· = q) p n n' :=
  ⟨ho.1, ho.2.1.isLeaf, ho.2.2.isLeaf⟩

theorem NewAt.inLeaves {q p : Place} {mode : Nat} {content content' : Text.Bytes}
    {n n' : Option Node} (hn : NewAt q mode content content' p n n') : InLeaves (· = q) p n n' := by
  obtain ⟨hp, x, x', rfl, rfl, -⟩ := hn
  exact ⟨hp, .inr ⟨_, _, rfl⟩, .inr ⟨_, _, rfl⟩⟩

/-! ## Nothing is read of the report -/

section

variable {h : Host} {q : Place} {k : Place → Option Node → Option Node → Prop} {stamp : String}

theorem Overlooks.answeredAlike (ho : Overlooks h q)
    (hk : ∀ p n n', k p n n' → InLeaves (· = q) p n n') (c : Command) :
    AnsweredAlike h (h.stamped stamp) (Differs k) c := by
  intro cs cs' t t' hd
  obtain ⟨houtcome, hrelayed, htree⟩ := ho cs cs' c t t' (hd.mono hk)
  refine ⟨houtcome, hrelayed, fun p => ?_⟩
  obtain hp | ⟨rfl, hkept, hkept'⟩ := htree p
  · exact .inl hp
  · show (h.runner cs' c t').tree.lookup p = _ ∨ k p _ ((h.runner cs' c t').tree.lookup p)
    rw [hkept, hkept']
    exact hd p

/-- Going abreast keeps the rules. -/
theorem Overlooks.twofold (ho : Overlooks h q)
    (hk : ∀ p n n', k p n n' → InLeaves (· = q) p n n') :
    Twofold h (h.stamped stamp) (Differs k) (fun _ => True) fun α =>
      Abreast (α := α) h (h.stamped stamp) (Differs k) :=
  @Abreast.twofold h (h.stamped stamp) _ rfl rfl rfl rfl _ fun c _ => ho.answeredAlike hk c

/-- Whether a project has been built does not depend on files. -/
theorem abreast_datasets (ho : Overlooks h q) (hk : ∀ p n n', k p n n' → InLeaves (· = q) p n n')
    (c : Config) (patterns : List String) (ps : List Project) :
    Abreast h (h.stamped stamp) (Differs k) (datasets h c patterns ps)
      (datasets (h.stamped stamp) c patterns ps) :=
  twofold_datasets (ho.twofold hk) (fun _ _ => trivial) (fun _ _ hd _ => (hd.mono hk).isDir_eq)
    c patterns ps

end

/-! ## What comes after the report -/

/-- What a run that fails anyway makes of the writing of its report. -/
def endAnyway (paths : OutputPaths) (f : Failure) (h : Host) :
    Option IoError → Action (Except Failure Unified)
  | none => return .error f
  | some e => do
    Action.notify h .warning (unwrittenFailure paths.report e).chain
    return .error f

/-- What a run that has merged its datasets makes of the writing of its report. -/
def goOn (c : Config) (root : Path) (paths : OutputPaths) (merged : List Path) (s : Summary)
    (h : Host) : Option IoError → Action (Except Failure Unified)
  | none => (publish h c root paths merged s).run
  | some e => return .error (unwrittenFailure paths.report e)

/-- Writes the report on some sections, and then does what is left to do. -/
def reportThen (h : Host) (paths : OutputPaths) (ss : List Summary)
    (rest : Host → Option IoError → Action (Except Failure Unified)) :
    Action (Except Failure Unified) := do
  rest h (← Action.writeText h paths.report (Report.mk h.timestamp ss).render)

section

variable {h : Host} {paths : OutputPaths} {ds : List Dataset} {m m₁ : Machine} {e : Option IoError}

theorem writeReport_eq {q : Report}
    (hw : Action.writeText h paths.report q.render m = (e, m₁)) :
    writeReport h paths.report q m = (e.map (unwrittenFailure paths.report), m₁) := by
  unfold writeReport
  rw [Action.run_bind hw]
  cases e <;> rfl

/-- A run without datasets, or whose merge failed. -/
theorem failAnyway_eq (f : Failure) :
    (do
      liftM (writeReportAnyway h paths.report (reportOf h ds))
      throw f : Attempt Failure Unified).run m =
      reportThen h paths (ds.map Dataset.summary) (endAnyway paths f) m := by
  obtain ⟨⟨e, m₁⟩, hw⟩ : ∃ z, Action.writeText h paths.report (reportOf h ds).render m = z :=
    ⟨_, rfl⟩
  have hright : reportThen h paths (ds.map Dataset.summary) (endAnyway paths f) m =
      endAnyway paths f h e m₁ := by
    show endAnyway paths f h (Action.writeText h paths.report (reportOf h ds).render m).1
      (Action.writeText h paths.report (reportOf h ds).render m).2 = _
    rw [hw]
  have hleft : writeReportAnyway h paths.report (reportOf h ds) m =
      ((), (endAnyway paths f h e m₁).2) := by
    unfold writeReportAnyway
    rw [Action.run_bind (writeReport_eq hw)]
    cases e <;> rfl
  rw [Attempt.run_bind_ok (Attempt.run_lift hleft), hright]
  cases e <;> rfl

/-- A run that has merged its datasets. -/
theorem conclude_eq (c : Config) (root : Path) {s : Summary}
    (hs : summarize h c.tools.lcov paths.unified unifiedLabel root (Action.sayLine "" m).2 =
      (s, m₁)) :
    (conclude h c root paths ds).run m =
      reportThen h paths (ds.map Dataset.summary ++ [s])
        (goOn c root paths (ds.map Dataset.tracefile) s) m₁ := by
  obtain ⟨⟨e, m₂⟩, hw⟩ :
      ∃ z, Action.writeText h paths.report ((reportOf h ds).add s).render m₁ = z := ⟨_, rfl⟩
  have hright : reportThen h paths (ds.map Dataset.summary ++ [s])
      (goOn c root paths (ds.map Dataset.tracefile) s) m₁ =
        goOn c root paths (ds.map Dataset.tracefile) s h e m₂ := by
    show goOn c root paths _ s h
      (Action.writeText h paths.report ((reportOf h ds).add s).render m₁).1
      (Action.writeText h paths.report ((reportOf h ds).add s).render m₁).2 = _
    rw [hw]
  have hsay : Action.sayLine "" m = ((), (Action.sayLine "" m).2) := rfl
  unfold conclude
  rw [Attempt.run_bind_ok (Attempt.run_lift hsay), Attempt.run_bind_ok (Attempt.run_lift hs),
    Attempt.run_bind_ok (Attempt.run_lift (writeReport_eq hw)), hright]
  cases e <;> rfl

end

/-! ## Up to the report -/

/-- Where two runs are when they write their reports: in step, with the same sections and the same
left to do. -/
structure AtReport (h : Host) (stamp : String) (paths : OutputPaths) (q : Place) (mode : Nat)
    (m m' w w' : Machine) (ss : List Summary)
    (rest : Host → Option IoError → Action (Except Failure Unified))
    (z z' : Except Failure Unified × Machine) : Prop where
  before : InStep h (h.stamped stamp) (Differs (OldAt q mode)) m m' w w'
  first : z = reportThen h paths ss rest w
  second : z' = reportThen (h.stamped stamp) paths ss rest w'
  after : ∀ k : Place → Option Node → Option Node → Prop,
    (∀ p n n', k p n n' → InLeaves (· = q) p n n') →
      ∀ e, Abreast h (h.stamped stamp) (Differs k) (rest h e) (rest (h.stamped stamp) e)

section

variable {h : Host} {stamp : String} {q : Place} {mode : Nat} {paths : OutputPaths}

theorem abreast_endAnyway {k : Place → Option Node → Option Node → Prop} (f : Failure)
    (e : Option IoError) :
    Abreast h (h.stamped stamp) (Differs k) (endAnyway paths f h e)
      (endAnyway paths f (h.stamped stamp) e) := by
  cases e with
  | none => exact .pure _
  | some e => exact .bind (.notify rfl _ _) fun _ => .pure _

theorem abreast_goOn {k : Place → Option Node → Option Node → Prop} (ho : Overlooks h q)
    (hk : ∀ p n n', k p n n' → InLeaves (· = q) p n n') (c : Config) (root : Path)
    (merged : List Path) (s : Summary) (e : Option IoError) :
    Abreast h (h.stamped stamp) (Differs k) (goOn c root paths merged s h e)
      (goOn c root paths merged s (h.stamped stamp) e) := by
  cases e with
  | none => exact twofold_publish (ho.twofold hk) (fun _ _ => trivial) c root paths merged s
  | some e => exact .pure _

theorem AtReport.step {m m' v v' w w' : Machine} {ss : List Summary}
    {rest : Host → Option IoError → Action (Except Failure Unified)}
    {z z' : Except Failure Unified × Machine}
    (hv : InStep h (h.stamped stamp) (Differs (OldAt q mode)) m m' v v')
    (hr : AtReport h stamp paths q mode v v' w w' ss rest z z') :
    AtReport h stamp paths q mode m m' w w' ss rest z z' :=
  { hr with before := hv.trans hr.before }

variable (stamp) in
theorem conclude_atReport (ho : Overlooks h q) (c : Config) (root : Path) (ds : List Dataset)
    {m m' : Machine} (hd : Differs (OldAt q mode) m.tree m'.tree) :
    ∃ w w' ss rest, AtReport h stamp paths q mode m m' w w' ss rest
      ((conclude h c root paths ds).run m)
      ((conclude (h.stamped stamp) c root paths ds).run m') := by
  have hsay : Abreast h (h.stamped stamp) (Differs (OldAt q mode)) _ _ := .sayLine ""
  have hsummarize : Abreast h (h.stamped stamp) (Differs (OldAt q mode)) _ _ :=
    twofold_summarize (ho.twofold fun _ _ _ => OldAt.inLeaves) (fun _ _ => trivial) c.tools.lcov
      paths.unified unifiedLabel root
  obtain ⟨-, hm₁⟩ := hsay m m' hd
  obtain ⟨hs, hm₂⟩ := hsummarize _ _ hm₁.tree
  exact ⟨_, _, _, _, .step (hm₁.trans hm₂) ⟨.refl hm₂.tree, conclude_eq c root rfl,
    conclude_eq c root (Prod.ext hs rfl), fun k hk => abreast_goOn ho hk c root _ _⟩⟩

variable (stamp) in
theorem combine_atReport (ho : Overlooks h q) (c : Config) (root : Path) (ds : List Dataset)
    {m m' : Machine} (hd : Differs (OldAt q mode) m.tree m'.tree) :
    ∃ w w' ss rest, AtReport h stamp paths q mode m m' w w' ss rest
      ((combine h c root paths ds).run m) ((combine (h.stamped stamp) c root paths ds).run m') := by
  unfold combine
  by_cases hnil : ds.isEmpty
  · rw [if_pos hnil, if_pos hnil]
    exact ⟨m, m', _, _, .refl hd, failAnyway_eq _, failAnyway_eq _,
      fun k _ => abreast_endAnyway _⟩
  · rw [if_neg hnil, if_neg hnil]
    have hsay : Abreast h (h.stamped stamp) (Differs (OldAt q mode)) _ _ :=
      .sayLine "\nMerging coverage data..."
    have hmerge : Abreast h (h.stamped stamp) (Differs (OldAt q mode)) _ _ :=
      twofold_mergeAll (ho.twofold fun _ _ _ => OldAt.inLeaves) (fun _ _ => trivial) c root paths ds
    obtain ⟨-, hm₁⟩ := hsay m m' hd
    obtain ⟨hr, hm₂⟩ := hmerge _ _ hm₁.tree
    rw [Attempt.run_bind_lift, Attempt.run_bind_lift, Attempt.run_bind_lift, Attempt.run_bind_lift,
      hr]
    split
    · exact ⟨_, _, _, _, .step (hm₁.trans hm₂) ⟨.refl hm₂.tree, failAnyway_eq _, failAnyway_eq _,
        fun k _ => abreast_endAnyway _⟩⟩
    · obtain ⟨w, w', ss, rest, hw⟩ := conclude_atReport stamp ho c root ds hm₂.tree
      exact ⟨w, w', ss, rest, .step (hm₁.trans hm₂) hw⟩

end

end Coverage

end HostSuite
