import HostSuite.Proofs.Coverage.Overlooking
import HostSuite.Proofs.Project.BuildDir

/-
  What an earlier run left. Two runs start on trees that differ in nothing but the tracefile and the
  report that an earlier run left in the output directory, under tools that take no notice of the
  report. Up to the report the same is heard of both, because the old tracefile is gone before
  anything is sent, and the old report is not read. From there on it depends on what becomes of the
  report: if it is written to its place in both runs, or cannot be for the same reason, the runs
  stay in step (`unify_forgets`). A tool that leads the path of the report elsewhere can make the
  old report show, or have the new one written over the tracefile (`leftovers_show`).
-/

namespace HostSuite.Coverage

open HostSuite.Tree

/-! ## The beginning of a run -/

/-- Two trees that differ in nothing but what an earlier run left in the output directory: its
tracefile and its report, which is a file with this mode. The directory may be changed. -/
structure OnlyLeftovers (base : Place) (out : Path) (d : Place) (mode : Nat) (t t' : Tree) :
    Prop where
  dir : ∃ dirMode, t.find base out = .ok (d, .dir dirMode) ∧ mayChange dirMode = true
  elsewhere : ∀ p, p ≠ d ++ [unifiedName] → p ≠ d ++ [reportName] → t'.lookup p = t.lookup p
  unified : IsLeaf (t.lookup (d ++ [unifiedName])) ∧ IsLeaf (t'.lookup (d ++ [unifiedName]))
  report : IsOld mode (t.lookup (d ++ [reportName])) ∧ IsOld mode (t'.lookup (d ++ [reportName]))

section

variable {h : Host} {stamp : String} {d : Place} {mode : Nat} {out : Path} {m m' : Machine}
  {t t' : Tree}

theorem OnlyLeftovers.differs {base : Place} (hl : OnlyLeftovers base out d mode t t') :
    Differs (InLeaves fun p => p = d ++ [unifiedName] ∨ p = d ++ [reportName]) t t' := by
  intro p
  by_cases hu : p = d ++ [unifiedName]
  · exact .inr ⟨.inl hu, hu ▸ hl.unified.1, hu ▸ hl.unified.2⟩
  · by_cases hr : p = d ++ [reportName]
    · exact .inr ⟨.inr hr, hr ▸ hl.report.1.isLeaf, hr ▸ hl.report.2.isLeaf⟩
    · exact .inl (hl.elsewhere p hu hr)

theorem OnlyLeftovers.symm {base : Place} (hl : OnlyLeftovers base out d mode t t') :
    OnlyLeftovers base out d mode t' t where
  dir := hl.dir.imp fun _ hd => ⟨hl.differs.find_dir hd.1, hd.2⟩
  elsewhere := fun p hu hr => (hl.elsewhere p hu hr).symm
  unified := hl.unified.symm
  report := hl.report.symm

/-- In a directory that may be changed the old tracefile can be removed, and then it is gone. -/
theorem OnlyLeftovers.prepared (hl : OnlyLeftovers h.workingDir out d mode t t') :
    OutputReady h (OutputPaths.inDir out) t ∧
      ∀ p, (preparedTree h (OutputPaths.inDir out) t).lookup p =
        if p = d ++ [unifiedName] then none else t.lookup p := by
  obtain ⟨dirMode, hfind, hchange⟩ := hl.dir
  obtain ⟨hres, hdir⟩ := find_eq_ok_iff.mp hfind
  have hexists : t.pathExists h.workingDir out = true := by
    unfold pathExists
    rw [hfind]
    rfl
  have hsearch : t.Searchable d := ⟨dirMode, hdir, (Bool.and_eq_true_iff.mp hchange).2⟩
  have hnolink : t.NoLinkAt (d ++ [unifiedName]) := by
    intro target ht
    exact not_isLeaf_link target (ht ▸ hl.unified.1)
  have hplain : Path.IsPlain unifiedName := by decide
  have hunified : t.resolve h.workingDir (out.join unifiedName).withoutSlash false =
      .ok (d ++ [unifiedName]) := by
    rw [Path.withoutSlash_join out hplain]
    exact resolve_join_name hres hsearch hplain (by decide) (by decide) hnolink
  have haround : t.mayChangeAround (d ++ [unifiedName]) = true := by
    unfold mayChangeAround
    rw [List.dropLast_concat, hdir]
    exact hchange
  have hready : t.ensureDir h.workingDir out = (t, none) := by
    unfold ensureDir
    rw [if_pos hexists]
  have hremoved : ∃ v, t.removeFileIfThere h.workingDir (out.join unifiedName) = (v, none) ∧
      ∀ p, v.lookup p = if p = d ++ [unifiedName] then none else t.lookup p := by
    unfold removeFileIfThere removeFile find
    rw [hunified]
    obtain hnone | ⟨content, fileMode, hfile⟩ := hl.unified.1
    · refine ⟨t, by simp only [hnone], fun p => ?_⟩
      split
      · rename_i hp
        rw [hp, hnone]
      · rfl
    · refine ⟨t.clear (d ++ [unifiedName]), ?_, fun p => ?_⟩
      · simp only [hfile, Path.endsInSlash_join out hplain, haround, if_true, if_false,
          Bool.false_eq_true]
      · split
        · rename_i hp
          rw [hp, lookup_clear_self t _ (by simp)]
        · exact lookup_clear_ne t (Ne.symm ‹_›)
  obtain ⟨v, hv, hlookup⟩ := hremoved
  have hreadyTree : (Change.readyDir (OutputPaths.inDir out).dir).on h t = t :=
    congrArg Prod.fst hready
  refine ⟨⟨congrArg Prod.snd hready, ?_⟩, ?_⟩
  · rw [hreadyTree]
    exact congrArg Prod.snd hv
  · unfold preparedTree
    rw [hreadyTree, show (Change.removeFile (OutputPaths.inDir out).unified).on h t = v from
      congrArg Prod.fst hv]
    exact hlookup

/-- The two trees differ in nothing but the old report once the directory is ready. -/
theorem OnlyLeftovers.differs_prepared (hl : OnlyLeftovers h.workingDir out d mode t t') :
    Differs (OldAt (d ++ [reportName]) mode) (preparedTree h (OutputPaths.inDir out) t)
      (preparedTree h (OutputPaths.inDir out) t') := by
  intro p
  rw [hl.prepared.2, hl.symm.prepared.2]
  by_cases hu : p = d ++ [unifiedName]
  · rw [if_pos hu, if_pos hu]
    exact .inl rfl
  · rw [if_neg hu, if_neg hu]
    by_cases hr : p = d ++ [reportName]
    · exact .inr ⟨hr, hr ▸ hl.report.1, hr ▸ hl.report.2⟩
    · exact .inl (hl.elsewhere p hu hr)

/-- The two changes with which a run begins. -/
def preparation (paths : OutputPaths) : List Event :=
  [.changed (.readyDir paths.dir), .changed (.removeFile paths.unified)]

theorem tree_after_preparation (h : Host) (m : Machine) (paths : OutputPaths) :
    (m.after h (preparation paths)).tree = preparedTree h paths m.tree := by
  simp only [preparation, Machine.after, List.foldl_cons, List.foldl_nil, Machine.next,
    preparedTree]

theorem prepare_eq {paths : OutputPaths} (hr : OutputReady h paths m.tree) :
    (prepare h paths).run m = (.ok (), m.after h (preparation paths)) := by
  have hready : Action.readyDir h paths.dir m =
      (none, m.after h [.changed (.readyDir paths.dir)]) := by
    rw [← hr.dir]
    exact Action.change_eq fun _ => rfl
  have hremove : Action.removeFile h paths.unified (m.after h [.changed (.readyDir paths.dir)]) =
      (none, m.after h (preparation paths)) := by
    rw [← hr.unified]
    exact Action.change_eq fun _ => rfl
  unfold prepare
  rw [Attempt.run_bind_ok (Attempt.run_lift hready),
    Attempt.run_bind_ok (Attempt.run_lift hremove)]
  rfl

theorem inStep_preparation {paths : OutputPaths} {T : Tree → Tree → Prop}
    (ht : T (preparedTree h paths m.tree) (preparedTree h paths m'.tree)) :
    InStep h (h.stamped stamp) T m m' (m.after h (preparation paths))
      (m'.after (h.stamped stamp) (preparation paths)) := by
  refine ⟨preparation paths, preparation paths, 0, rfl, rfl, rfl, rfl, rfl, ?_⟩
  rw [tree_after_preparation, tree_after_preparation]
  exact ht

theorem outputReady_of_prepare {paths : OutputPaths} {m₁ : Machine}
    (hp : (prepare h paths).run m = (.ok (), m₁)) : OutputReady h paths m.tree := by
  by_contra hr
  obtain ⟨m₂, f, cs, hm₂, -⟩ := prepare_runs_unready h m paths hr
  rw [hm₂.1] at hp
  cases hp

variable (h stamp) in
/-- On one tree two runs begin alike. -/
theorem abreast_prepare (paths : OutputPaths) :
    Abreast h (h.stamped stamp) Eq (prepare h paths).run (prepare (h.stamped stamp) paths).run := by
  have hchange {c : Change} {edit : Tree → Tree × Option IoError}
      (hc : ∀ t, c.on h t = (edit t).1) :
      Abreast h (h.stamped stamp) Eq (Action.change c edit) (Action.change c edit) :=
    .change hc (fun t => by cases c <;> exact hc t) (by rintro t _ rfl; exact ⟨rfl, rfl⟩)
  have hR := @Abreast.twofold h (h.stamped stamp) Eq rfl rfl rfl rfl (fun _ => False)
    fun _ => False.elim
  exact twofold_prepare hR (hchange fun _ => rfl) (hchange fun _ => rfl)

end

/-! ## Writing over what was left -/

section

variable {base : Place} {d : Place} {name : String} {mode : Nat} {p : Path} {t t' : Tree}
  {content content' : Text.Bytes}

/-- What is written at a place: a file with the mode that the old one has, or a new one. -/
theorem write_at {q : Place} {v : Tree} (hres : t.resolve base p = .ok q)
    (hw : t.write base p content = .ok v) :
    v = t.set q (.file content (modeFor (t.lookup q))) := by
  unfold write at hw
  rw [hres] at hw
  dsimp only at hw
  split at hw
  · rename_i old oldMode hl
    split at hw
    · rw [← Except.ok.inj hw, hl]
      rfl
    · cases hw
  · cases hw
  · rename_i hl
    split at hw
    · rw [← Except.ok.inj hw, hl]
      rfl
    · cases hw

/-- Where the path leads to the place of the old report, both writings make a file there. -/
theorem differs_write {v v' : Tree} (hd : Differs (OldAt (d ++ [name]) mode) t t')
    (hres : t.resolve base p = .ok (d ++ [name])) (hw : t.write base p content = .ok v)
    (hw' : t'.write base p content' = .ok v') :
    Differs (NewAt (d ++ [name]) mode content content') v v' := by
  have hres' : t'.resolve base p = .ok (d ++ [name]) :=
    (hd.mono fun _ _ _ => OldAt.inLeaves).resolve_iff.mpr hres
  have hmodes : modeFor (t'.lookup (d ++ [name])) = modeFor (t.lookup (d ++ [name])) ∨
      (modeFor (t.lookup (d ++ [name])) = mode ∨ modeFor (t.lookup (d ++ [name])) = 0o644) ∧
        (modeFor (t'.lookup (d ++ [name])) = mode ∨ modeFor (t'.lookup (d ++ [name])) = 0o644) := by
    have hmode {n : Option Node} (hn : IsOld mode n) : modeFor n = mode ∨ modeFor n = 0o644 := by
      obtain rfl | ⟨old, rfl⟩ := hn
      · exact .inr rfl
      · exact .inl rfl
    obtain h | ⟨-, hn, hn'⟩ := hd (d ++ [name])
    · exact .inl (by rw [h])
    · exact .inr ⟨hmode hn, hmode hn'⟩
  rw [write_at hres hw, write_at hres' hw']
  intro x
  by_cases hx : d ++ [name] = x
  · subst hx
    refine .inr ⟨rfl, _, _, lookup_set_self _ _ _ (by simp), lookup_set_self _ _ _ (by simp),
      hmodes⟩
  · rw [lookup_set_ne _ _ hx, lookup_set_ne _ _ hx]
    obtain h | ⟨rfl, -⟩ := hd x
    · exact .inl h
    · exact absurd rfl hx

/-- In a directory that may be changed an old report that may be written does not matter. -/
theorem write_alike (hd : Differs (OldAt (d ++ [name]) mode) t t')
    (hmode : hasBit mode writeBit = true) (hres : t.resolve base p = .ok (d ++ [name]))
    (hc : t.mayChangeAround (d ++ [name]) = true) :
    (∃ e, t.write base p content = .error e ∧ t'.write base p content' = .error e) ∨
      ∃ v v', t.write base p content = .ok v ∧ t'.write base p content' = .ok v' := by
  have hres' : t'.resolve base p = .ok (d ++ [name]) :=
    (hd.mono fun _ _ _ => OldAt.inLeaves).resolve_iff.mpr hres
  have hc' : t'.mayChangeAround (d ++ [name]) = true := by
    unfold mayChangeAround at hc ⊢
    rw [List.dropLast_concat] at hc ⊢
    obtain h | ⟨h, -⟩ := hd d
    · rw [h]
      exact hc
    · exact absurd (congrArg List.length h) (by simp)
  obtain h | ⟨-, hn, hn'⟩ := hd (d ++ [name])
  · unfold write
    rw [hres, hres']
    dsimp only
    rw [h]
    split
    · split
      · exact .inr ⟨_, _, rfl, rfl⟩
      · exact .inl ⟨_, rfl, rfl⟩
    · exact .inl ⟨_, rfl, rfl⟩
    · rw [if_pos hc, if_pos hc']
      exact .inr ⟨_, _, rfl, rfl⟩
  · have hok {t : Tree} (content : Text.Bytes) (hres : t.resolve base p = .ok (d ++ [name]))
        (hc : t.mayChangeAround (d ++ [name]) = true) (hn : IsOld mode (t.lookup (d ++ [name]))) :
        ∃ v, t.write base p content = .ok v := by
      unfold write
      rw [hres]
      obtain hnone | ⟨old, hold⟩ := hn
      · simp only [hnone, hc, if_true, Except.ok.injEq, exists_eq']
      · simp only [hold, hmode, if_true, Except.ok.injEq, exists_eq']
    obtain ⟨v, hv⟩ := hok content hres hc hn
    obtain ⟨v', hv'⟩ := hok content' hres' hc' hn'
    exact .inr ⟨v, v', hv, hv'⟩

end

/-! ## Whole runs -/

section

variable {h : Host} {stamp : String} {c : Config} {root : Path} {ps : List Project}
  {patterns : List String} {d : Place} {mode : Nat} {m m' : Machine}

theorem unify_eq {m₁ : Machine}
    (hp : (prepare h (OutputPaths.inDir (c.outputDir root))).run m = (.ok (), m₁)) :
    (unify h c root ps patterns).run m =
      (combine h c root (OutputPaths.inDir (c.outputDir root)) (datasets h c patterns ps
        (Action.sayLine "" (Action.announce h "Generating Coverage Reports" m₁).2).2).1).run
        (datasets h c patterns ps
          (Action.sayLine "" (Action.announce h "Generating Coverage Reports" m₁).2).2).2 := by
  unfold unify
  exact Attempt.run_bind_ok hp

variable (ps patterns) in
theorem unify_atReport {q : Place} (ho : Overlooks h q) {m₁ m₁' : Machine}
    (hp : (prepare h (OutputPaths.inDir (c.outputDir root))).run m = (.ok (), m₁))
    (hp' : (prepare (h.stamped stamp) (OutputPaths.inDir (c.outputDir root))).run m' =
      (.ok (), m₁'))
    (hd : Differs (OldAt q mode) m₁.tree m₁'.tree) :
    ∃ w w' ss rest, AtReport h stamp (OutputPaths.inDir (c.outputDir root)) q mode m₁ m₁' w w' ss
      rest ((unify h c root ps patterns).run m)
      ((unify (h.stamped stamp) c root ps patterns).run m') := by
  rw [unify_eq hp, unify_eq hp']
  have hannounce : Abreast h (h.stamped stamp) (Differs (OldAt q mode)) _
      (Action.announce (h.stamped stamp) "Generating Coverage Reports") := .announce rfl _
  have hsay : Abreast h (h.stamped stamp) (Differs (OldAt q mode)) _ _ := .sayLine ""
  have hdatasets : Abreast h (h.stamped stamp) (Differs (OldAt q mode)) _ _ :=
    abreast_datasets ho (fun _ _ _ => OldAt.inLeaves) c patterns ps
  obtain ⟨-, hm₂⟩ := hannounce m₁ m₁' hd
  obtain ⟨-, hm₃⟩ := hsay _ _ hm₂.tree
  obtain ⟨hds, hm₄⟩ := hdatasets _ _ hm₃.tree
  rw [hds]
  obtain ⟨w, w', ss, rest, hw⟩ := combine_atReport stamp ho c root _ hm₄.tree
  exact ⟨w, w', ss, rest, .step ((hm₂.trans hm₃).trans hm₄) hw⟩

/-- Writing a text as an event. -/
theorem writeText_eq (h : Host) (w : Machine) (p : Path) (text : String) :
    Action.writeText h p text w = ((Action.writeText h p text w).1,
      w.after h [.changed (.writeText p text)]) := by
  refine Action.change_eq fun t => ?_
  simp only [Change.on]
  split <;> simp_all [Except.toOption]

theorem writeText_ok {w : Machine} {p : Path} {text : String} {v : Tree}
    (hw : w.tree.write h.workingDir p (Text.encode text) = .ok v) :
    (Action.writeText h p text w).1 = none ∧
      (w.after h [.changed (.writeText p text)]).tree = v := by
  constructor
  · unfold Action.writeText
    rw [Action.change_fst, hw]
  · show (w.tree.write h.workingDir p (Text.encode text)).toOption.getD w.tree = v
    rw [hw]
    rfl

theorem writeText_error {w : Machine} {p : Path} {text : String} {e : IoError}
    (hw : w.tree.write h.workingDir p (Text.encode text) = .error e) :
    (Action.writeText h p text w).1 = some e ∧
      (w.after h [.changed (.writeText p text)]).tree = w.tree := by
  constructor
  · unfold Action.writeText
    rw [Action.change_fst, hw]
  · show (w.tree.write h.workingDir p (Text.encode text)).toOption.getD w.tree = w.tree
    rw [hw]
    rfl

/-- The text of the report on some sections. -/
def reportText (h : Host) (ss : List Summary) : String := (Report.mk h.timestamp ss).render

/-- The event of writing the report. -/
def reportEvent (h : Host) (paths : OutputPaths) (ss : List Summary) : Event :=
  .changed (.writeText paths.report (reportText h ss))

/-- What two runs have in common that write their reports from `w` and `w'`. -/
structure Forgets (h : Host) (stamp : String) (paths : OutputPaths) (q : Place) (mode : Nat)
    (m m' w w' : Machine) (ss : List Summary) (z z' : Except Failure Unified × Machine) :
    Prop where
  /-- Up to the report the runs are in step. -/
  before : InStep h (h.stamped stamp) (Differs (OldAt q mode)) m m' w w'
  writes : ∃ es, z.2 = w.after h (reportEvent h paths ss :: es)
  writes' : ∃ es, z'.2 =
    w'.after (h.stamped stamp) (reportEvent (h.stamped stamp) paths ss :: es)
  /-- Where it cannot be written for the same reason, they stay in step. -/
  unwritten : ∀ e,
    w.tree.write h.workingDir paths.report (Text.encode (reportText h ss)) = .error e →
      w'.tree.write h.workingDir paths.report (Text.encode (reportText (h.stamped stamp) ss)) =
        .error e →
      z'.1 = z.1 ∧ InStep h (h.stamped stamp) (Differs (OldAt q mode)) w w' z.2 z'.2
  /-- Where it is written to its place, they stay in step and leave the same tree but for the
  report. -/
  written : w.tree.resolve h.workingDir paths.report = .ok q →
    ∀ v v', w.tree.write h.workingDir paths.report (Text.encode (reportText h ss)) = .ok v →
      w'.tree.write h.workingDir paths.report (Text.encode (reportText (h.stamped stamp) ss)) =
        .ok v' →
      z'.1 = z.1 ∧ InStep h (h.stamped stamp) (Differs (NewAt q mode (Text.encode (reportText h ss))
        (Text.encode (reportText (h.stamped stamp) ss)))) w w' z.2 z'.2
  /-- One of these is the case where its path leads to its place, in a directory that may be
  changed. -/
  undisturbed : w.tree.resolve h.workingDir paths.report = .ok q →
    w.tree.mayChangeAround q = true →
      (∃ e, w.tree.write h.workingDir paths.report (Text.encode (reportText h ss)) = .error e ∧
        w'.tree.write h.workingDir paths.report (Text.encode (reportText (h.stamped stamp) ss)) =
          .error e) ∨
      ∃ v v', w.tree.write h.workingDir paths.report (Text.encode (reportText h ss)) = .ok v ∧
        w'.tree.write h.workingDir paths.report (Text.encode (reportText (h.stamped stamp) ss)) =
          .ok v'

section

variable {paths : OutputPaths} {q : Place} {w w' : Machine} {ss : List Summary}
  {rest : Host → Option IoError → Action (Except Failure Unified)}
  {z z' : Except Failure Unified × Machine}

theorem reportThen_eq (h : Host) (paths : OutputPaths) (ss : List Summary)
    (rest : Host → Option IoError → Action (Except Failure Unified)) (w : Machine) :
    reportThen h paths ss rest w =
      rest h (Action.writeText h paths.report (reportText h ss) w).1
        (w.after h [reportEvent h paths ss]) := by
  show rest h (Action.writeText h paths.report (reportText h ss) w).1
    (Action.writeText h paths.report (reportText h ss) w).2 = _
  rw [congrArg Prod.snd (writeText_eq h w paths.report (reportText h ss))]
  rfl

/-- What is left to do after the report only adds events. -/
theorem AtReport.adds {e : Option IoError} {v : Machine}
    (ha : AtReport h stamp paths q mode m m' w w' ss rest z z') :
    (∃ es, (rest h e v).2 = v.after h es) ∧
      ∃ es, (rest (h.stamped stamp) e v).2 = v.after (h.stamped stamp) es := by
  obtain ⟨-, es, es', -, hes, hes', -⟩ :=
    ha.after (fun _ _ _ => False) (fun _ _ _ => False.elim) e v v (.refl _ _)
  exact ⟨⟨es, hes⟩, ⟨es', hes'⟩⟩

/-- The reports are written alike, and what is left to do stays in step. -/
theorem AtReport.goesOn {e : Option IoError} {k : Place → Option Node → Option Node → Prop}
    (ha : AtReport h stamp paths q mode m m' w w' ss rest z z')
    (hk : ∀ p n n', k p n n' → InLeaves (· = q) p n n')
    (he : (Action.writeText h paths.report (reportText h ss) w).1 = e)
    (he' : (Action.writeText (h.stamped stamp) paths.report
      (reportText (h.stamped stamp) ss) w').1 = e)
    (hd : Differs k (w.after h [reportEvent h paths ss]).tree
      (w'.after (h.stamped stamp) [reportEvent (h.stamped stamp) paths ss]).tree) :
    z'.1 = z.1 ∧ InStep h (h.stamped stamp) (Differs k) w w' z.2 z'.2 := by
  obtain ⟨hr, hafter⟩ := ha.after k hk e _ _ hd
  rw [ha.first, ha.second, reportThen_eq, reportThen_eq, he, he']
  exact ⟨hr, .trans (.ofChange hd) hafter⟩

theorem AtReport.forgets {name : String} (hmode : hasBit mode writeBit = true)
    (ha : AtReport h stamp paths (d ++ [name]) mode m m' w w' ss rest z z') :
    Forgets h stamp paths (d ++ [name]) mode m m' w w' ss z z' where
  before := ha.before
  writes := by
    obtain ⟨es, hes⟩ := ha.adds.1
    rw [ha.first, reportThen_eq, hes]
    exact ⟨es, rfl⟩
  writes' := by
    obtain ⟨es, hes⟩ := ha.adds.2
    rw [ha.second, reportThen_eq, hes]
    exact ⟨es, rfl⟩
  unwritten := by
    intro e he he'
    obtain ⟨hfails, htree⟩ := writeText_error (h := h) he
    obtain ⟨hfails', htree'⟩ := writeText_error (h := h.stamped stamp) he'
    refine ha.goesOn (fun _ _ _ => OldAt.inLeaves) hfails hfails' ?_
    rw [reportEvent, reportEvent, htree, htree']
    exact ha.before.tree
  written := by
    intro hres v v' hv hv'
    obtain ⟨hdone, htree⟩ := writeText_ok (h := h) hv
    obtain ⟨hdone', htree'⟩ := writeText_ok (h := h.stamped stamp) hv'
    refine ha.goesOn (fun _ _ _ => NewAt.inLeaves) hdone hdone' ?_
    rw [reportEvent, reportEvent, htree, htree']
    exact differs_write ha.before.tree hres hv hv'
  undisturbed := fun hres hc => write_alike ha.before.tree hmode hres hc

end

/-- A node that a run leaves at a place was put there by a command of the run. -/
def PutByCommand (h : Host) (c : Config) (root : Path) (ps : List Project) (patterns : List String)
    (m : Machine) (p : Place) (n : Node) : Prop :=
  ∃ r m' xs cs ts, Runs h (unify h c root ps patterns).run m r m' xs cs ts ∧
    ∃ x ∈ xs, x.found.lookup p ≠ some n ∧ x.reply.tree.lookup p = some n

/-- With one change in between, the writing of the report, what is at a place is there from the
beginning, was put there by a command, or is the report. -/
theorem lookup_around {paths : OutputPaths} {w : Machine} {es fs : List Event} {ss : List Summary}
    {p : Place} {n : Node} (hes : es.filterMap Event.change? = [])
    (hfs : fs.filterMap Event.change? = [])
    (hn : (w.after h (es ++ reportEvent h paths ss :: fs)).tree.lookup p = some n) :
    w.tree.lookup p = some n ∨
      (w.after h es).tree.resolve h.workingDir paths.report = .ok p ∨
      ∃ x ∈ Machine.exchangesIn h w (es ++ reportEvent h paths ss :: fs),
        x.found.lookup p ≠ some n ∧ x.reply.tree.lookup p = some n := by
  rw [Machine.exchangesIn_append]
  rw [Machine.after_append] at hn
  generalize hv : w.after h es = v at hn
  replace hn : ((v.next h (reportEvent h paths ss)).after h fs).tree.lookup p = some n := hn
  obtain hwritten | ⟨x, hx, hput⟩ := Machine.lookup_after hfs hn
  · obtain hsame | ⟨hres, -⟩ := (confined h paths ⟨h.timestamp, ss⟩ v.tree).report p
    · have hbefore : (w.after h es).tree.lookup p = some n := by
        rw [hv, ← hsame]
        exact hwritten
      obtain hstart | ⟨x, hx, hput⟩ := Machine.lookup_after hes hbefore
      · exact .inl hstart
      · exact .inr (.inr ⟨x, List.mem_append_left _ hx, hput⟩)
    · exact .inr (.inl hres)
  · exact .inr (.inr ⟨x, List.mem_append_right _ (List.mem_append_right _ hx), hput⟩)

/-- Around the report, and after its preparation, a run changes nothing itself. -/
theorem silent_around {es fs : List Event} {ss : List Summary}
    (hr : OutputReady h (OutputPaths.inDir (c.outputDir root)) m.tree)
    (hz : ((unify h c root ps patterns).run m).2 =
      (m.after h (preparation (OutputPaths.inDir (c.outputDir root)))).after h
        (es ++ reportEvent h (OutputPaths.inDir (c.outputDir root)) ss :: fs)) :
    es.filterMap Event.change? = [] ∧ fs.filterMap Event.change? = [] := by
  obtain ⟨m₁, xs, ds, zs, ts, q, r, hruns, -⟩ := unify_runs h m c root ps patterns hr
  have hchanges := hruns.changes
  rw [hruns.1] at hz
  replace hz : m₁ = _ := hz
  unfold Machine.changes at hchanges
  rw [hz, Machine.after_log, Machine.after_log, List.filterMap_append, List.filterMap_append,
    List.append_assoc, List.append_cancel_left_eq] at hchanges
  have hlength := congrArg List.length hchanges
  simp only [preparation, reportEvent, List.length_append, List.filterMap_append,
    List.filterMap_cons, Event.change?, List.length_cons, List.length_nil,
    List.filterMap_nil] at hlength
  rw [← List.length_eq_zero_iff, ← List.length_eq_zero_iff]
  omega

/-- The tracefile at the end of a run was put there by a command, or is the report. -/
theorem own_tracefile {es fs : List Event} {ss : List Summary} {p : Place} {n : Node}
    (hr : OutputReady h (OutputPaths.inDir (c.outputDir root)) m.tree)
    (hz : ((unify h c root ps patterns).run m).2 =
      (m.after h (preparation (OutputPaths.inDir (c.outputDir root)))).after h
        (es ++ reportEvent h (OutputPaths.inDir (c.outputDir root)) ss :: fs))
    (hp : (preparedTree h (OutputPaths.inDir (c.outputDir root)) m.tree).resolve h.workingDir
      ((c.outputDir root).join unifiedName) false = .ok p)
    (hn : ((unify h c root ps patterns).run m).2.tree.lookup p = some n) :
    ((m.after h (preparation (OutputPaths.inDir (c.outputDir root)))).after h es).tree.resolve
        h.workingDir ((c.outputDir root).join reportName) = .ok p ∨
      PutByCommand h c root ps patterns m p n := by
  obtain ⟨hes, hfs⟩ := silent_around hr hz
  have hgone : (m.after h (preparation (OutputPaths.inDir (c.outputDir root)))).tree.lookup p ≠
      some n := by
    intro hthere
    rw [tree_after_preparation] at hthere
    have := find_eq_ok_iff.mpr ⟨hp, hthere⟩
    rw [find_unified_preparedTree hr] at this
    cases this
  obtain ⟨m₁, xs, ds, zs, ts, q, r, hruns, -⟩ := unify_runs h m c root ps patterns hr
  have hfinal := congrArg Prod.snd hruns.1
  obtain ⟨events, hevents, hexchanges, -⟩ := hruns.2
  rw [hz] at hn
  obtain hthere | hres | ⟨x, hx, hput⟩ := lookup_around hes hfs hn
  · exact absurd hthere hgone
  · exact .inl hres
  · refine .inr ⟨r, m₁, xs ++ zs, _, _, hruns, x, ?_, hput⟩
    -- The log tells which events there were.
    have hlog : events = preparation (OutputPaths.inDir (c.outputDir root)) ++
        (es ++ reportEvent h (OutputPaths.inDir (c.outputDir root)) ss :: fs) := by
      have := congrArg Machine.log (hevents.symm.trans (hfinal.symm.trans hz))
      rw [Machine.after_log, Machine.after_log, Machine.after_log, List.append_assoc] at this
      exact List.append_cancel_left this
    rw [← hexchanges, hlog, Machine.exchangesIn_append]
    exact List.mem_append_right _ hx

/-- A tracefile at the end of a run, in the place that its path leads to once the directory is
ready, was put there by a command, or is the report. -/
def OwnTracefile (h : Host) (c : Config) (root : Path) (ps : List Project) (patterns : List String)
    (m w : Machine) : Prop :=
  ∀ p n, (preparedTree h (OutputPaths.inDir (c.outputDir root)) m.tree).resolve h.workingDir
      ((c.outputDir root).join unifiedName) false = .ok p →
    ((unify h c root ps patterns).run m).2.tree.lookup p = some n →
    w.tree.resolve h.workingDir ((c.outputDir root).join reportName) = .ok p ∨
      PutByCommand h c root ps patterns m p n

/-- Runs that begin alike. -/
theorem forgets_of_prepared {m₁ m₁' : Machine} (ho : Overlooks h (d ++ [reportName]))
    (hmode : hasBit mode writeBit = true)
    (hp : (prepare h (OutputPaths.inDir (c.outputDir root))).run m = (.ok (), m₁))
    (hp' : (prepare (h.stamped stamp) (OutputPaths.inDir (c.outputDir root))).run m' =
      (.ok (), m₁'))
    (hstep : InStep h (h.stamped stamp) (Differs (OldAt (d ++ [reportName]) mode)) m m' m₁ m₁') :
    ∃ w w' ss, Forgets h stamp (OutputPaths.inDir (c.outputDir root)) (d ++ [reportName]) mode
        m m' w w' ss ((unify h c root ps patterns).run m)
        ((unify (h.stamped stamp) c root ps patterns).run m') ∧
      OwnTracefile h c root ps patterns m w := by
  have hr := outputReady_of_prepare hp
  obtain rfl : m₁ = m.after h (preparation _) := congrArg Prod.snd (hp.symm.trans (prepare_eq hr))
  obtain ⟨w, w', ss, rest, hw⟩ := unify_atReport ps patterns ho hp hp' hstep.tree
  refine ⟨w, w', ss, (hw.step hstep).forgets hmode, fun p n hplace hn => ?_⟩
  obtain ⟨es, -, -, rfl, -⟩ := hw.before
  obtain ⟨fs, hz⟩ := (hw.forgets hmode).writes
  exact own_tracefile hr (by rw [hz, Machine.after_append]) hplace hn

/-- Two runs on what an earlier run may have left. A run whose directory cannot be made ready ends
there, and so does the other. Otherwise both write their reports, see `Forgets`, and the tracefile
is there at the end only if a command put it there or the path of the report led to it. -/
theorem unify_forgets (ho : Overlooks h (d ++ [reportName]))
    (hmode : hasBit mode writeBit = true)
    (hstart : m'.tree = m.tree ∨
      OnlyLeftovers h.workingDir (c.outputDir root) d mode m.tree m'.tree) :
    (¬OutputReady h (OutputPaths.inDir (c.outputDir root)) m.tree ∧
        ((unify (h.stamped stamp) c root ps patterns).run m').1 =
          ((unify h c root ps patterns).run m).1 ∧
        InStep h (h.stamped stamp) Eq m m' ((unify h c root ps patterns).run m).2
          ((unify (h.stamped stamp) c root ps patterns).run m').2) ∨
      ∃ w w' ss, Forgets h stamp (OutputPaths.inDir (c.outputDir root)) (d ++ [reportName]) mode
          m m' w w' ss ((unify h c root ps patterns).run m)
          ((unify (h.stamped stamp) c root ps patterns).run m') ∧
        OwnTracefile h c root ps patterns m w := by
  obtain heq | hl := hstart
  · obtain ⟨hresult, hstep⟩ := abreast_prepare h stamp
      (OutputPaths.inDir (c.outputDir root)) m m' heq.symm
    obtain ⟨⟨r', m₁'⟩, hp'⟩ : ∃ z, (prepare (h.stamped stamp)
      (OutputPaths.inDir (c.outputDir root))).run m' = z := ⟨_, rfl⟩
    by_cases hr : OutputReady h (OutputPaths.inDir (c.outputDir root)) m.tree
    · have hp := prepare_eq hr
      rw [hp, hp'] at hresult hstep
      obtain rfl : r' = .ok () := hresult
      exact .inr (forgets_of_prepared ho hmode hp hp'
        (hstep.mono fun t t' ht => ht ▸ Differs.refl _ t))
    · obtain ⟨m₁, f, cs, hm₁, -⟩ := prepare_runs_unready h m _ hr
      rw [hm₁.1, hp'] at hresult hstep
      obtain rfl : r' = .error f := hresult
      have hz : (unify h c root ps patterns).run m = (.error f, m₁) :=
        Attempt.run_bind_error hm₁.1
      have hz' : (unify (h.stamped stamp) c root ps patterns).run m' = (.error f, m₁') :=
        Attempt.run_bind_error hp'
      rw [hz, hz']
      exact .inl ⟨hr, rfl, hstep⟩
  · have hl' : OnlyLeftovers (h.stamped stamp).workingDir (c.outputDir root) d mode m'.tree
        m.tree :=
      hl.symm
    exact .inr (forgets_of_prepared ho hmode (prepare_eq hl.prepared.1)
      (prepare_eq hl'.prepared.1) (inStep_preparation hl.differs_prepared))

end

/-! ## Concrete suites -/

/-- A suite with an empty output directory. -/
def cleanSuite : Tree := sampleTree.set ["coverage"] (.dir 0o755)

/-- The same suite after an earlier run. -/
def usedSuite : Tree :=
  (cleanSuite.set ["coverage", unifiedName] (.file [1] 0o644)).set ["coverage", reportName]
    (.file [2] 0o644)

theorem onlyLeftovers_usedSuite :
    OnlyLeftovers [] (({} : Config).outputDir ⟨"/"⟩) ["coverage"] 0o644 cleanSuite usedSuite where
  dir := ⟨0o755, Except.eq_ok_of_toOption (by decide +kernel), by decide⟩
  elsewhere := fun _ hu hr =>
    (lookup_set_ne _ _ (Ne.symm hr)).trans (lookup_set_ne _ _ (Ne.symm hu))
  unified := ⟨.inl (by decide +kernel), .inr ⟨[1], 0o644, by decide +kernel⟩⟩
  report := ⟨.inl (by decide +kernel), .inr ⟨[2], by decide +kernel⟩⟩

theorem unify_forgets_usedSuite :
    OnlyLeftovers [] (({} : Config).outputDir ⟨"/"⟩) ["coverage"] 0o644 cleanSuite usedSuite ∧
      ∃ w w' ss, Forgets sampleHost "later" (OutputPaths.inDir (({} : Config).outputDir ⟨"/"⟩))
        ["coverage", reportName] 0o644 ⟨cleanSuite, [], 0⟩ ⟨usedSuite, [], 0⟩ w w' ss
        ((unify sampleHost {} ⟨"/"⟩ [.inDir ⟨"/a"⟩ "build"] []).run ⟨cleanSuite, [], 0⟩)
        ((unify (sampleHost.stamped "later") {} ⟨"/"⟩ [.inDir ⟨"/a"⟩ "build"] []).run
          ⟨usedSuite, [], 0⟩) := by
  refine ⟨onlyLeftovers_usedSuite, ?_⟩
  have ho : Overlooks sampleHost (["coverage"] ++ [reportName]) := by
    intro cs cs' c t t' hd
    exact ⟨rfl, rfl, fun p => (hd p).imp_right fun hp => ⟨hp.1, rfl, rfl⟩⟩
  obtain ⟨hr, -⟩ | ⟨w, w', ss, hf, -⟩ := @unify_forgets sampleHost "later" {} ⟨"/"⟩
    [.inDir ⟨"/a"⟩ "build"] [] ["coverage"] 0o644 ⟨cleanSuite, [], 0⟩ ⟨usedSuite, [], 0⟩ ho
    (by decide) (.inr onlyLeftovers_usedSuite)
  · exact absurd (onlyLeftovers_usedSuite.prepared (h := sampleHost)).1 hr
  · exact ⟨w, w', ss, hf⟩

/-- A suite whose output directory is reached through a link. -/
def linkedSuite : Tree :=
  ((sampleTree.set ["store"] (.dir 0o755)).set ["other"] (.dir 0o755)).set ["coverage"]
    (.link "store")

/-- The same suite with an old report. -/
def usedLinkedSuite : Tree := linkedSuite.set ["store", reportName] (.file [2] 0o644)

/-- The merge leads the path of the output directory elsewhere. -/
def relinkingHost (target : String) : Host where
  runner := fun _ c t => ⟨.ok ⟨true, 0, "", "", 0, none⟩,
    if c.args.contains "-a" then t.set ["coverage"] (.link target) else t, []⟩

/-- Captures fail, and lead the path of the report to the tracefile. -/
def capturingHost : Host where
  runner := fun _ c t =>
    if c.args.contains "--capture" then
      ⟨.ok ⟨false, 1, "", "", 0, none⟩,
        t.set ["coverage", reportName] (.link unifiedName), []⟩
    else ⟨.ok ⟨true, 0, "", "", 0, none⟩, t, []⟩

theorem overlooks_relinkingHost (target : String) :
    Overlooks (relinkingHost target) ["store", reportName] := by
  intro cs cs' c t t' hd
  refine ⟨rfl, rfl, fun p => ?_⟩
  unfold relinkingHost
  dsimp only
  split
  · by_cases hp : ["coverage"] = p
    · rw [← hp, lookup_set_self _ _ _ (by simp), lookup_set_self _ _ _ (by simp)]
      exact .inl rfl
    · rw [lookup_set_ne _ _ hp, lookup_set_ne _ _ hp, lookup_set_ne _ _ (by decide),
        lookup_set_ne _ _ (by decide)]
      exact (hd p).imp_right fun h => ⟨h.1, rfl, rfl⟩
  · exact (hd p).imp_right fun h => ⟨h.1, rfl, rfl⟩

theorem overlooks_capturingHost : Overlooks capturingHost ["coverage", reportName] := by
  intro cs cs' c t t' hd
  unfold capturingHost
  dsimp only
  split
  · refine ⟨rfl, rfl, fun p => .inl ?_⟩
    by_cases hp : ["coverage", reportName] = p
    · rw [← hp, lookup_set_self _ _ _ (by simp), lookup_set_self _ _ _ (by simp)]
    · rw [lookup_set_ne _ _ hp, lookup_set_ne _ _ hp]
      exact (hd p).resolve_right fun h => hp h.1.symm
  · exact ⟨rfl, rfl, fun p => (hd p).imp_right fun h => ⟨h.1, rfl, rfl⟩⟩

theorem onlyLeftovers_usedLinkedSuite :
    OnlyLeftovers [] (({} : Config).outputDir ⟨"/"⟩) ["store"] 0o644 linkedSuite
      usedLinkedSuite where
  dir := ⟨0o755, Except.eq_ok_of_toOption (by decide +kernel), by decide⟩
  elsewhere := fun _ _ hr => lookup_set_ne _ _ (Ne.symm hr)
  unified := ⟨.inl (by decide +kernel), .inl (by decide +kernel)⟩
  report := ⟨.inl (by decide +kernel), .inr ⟨[2], by decide +kernel⟩⟩

/-- A suite whose old report nobody else may read. -/
def privateSuite : Tree := cleanSuite.set ["coverage", reportName] (.file [2] 0o600)

theorem onlyLeftovers_privateSuite :
    OnlyLeftovers [] (({} : Config).outputDir ⟨"/"⟩) ["coverage"] 0o600 cleanSuite
      privateSuite where
  dir := ⟨0o755, Except.eq_ok_of_toOption (by decide +kernel), by decide⟩
  elsewhere := fun _ _ hr => lookup_set_ne _ _ (Ne.symm hr)
  unified := ⟨.inl (by decide +kernel), .inl (by decide +kernel)⟩
  report := ⟨.inl (by decide +kernel), .inr ⟨[2], by decide +kernel⟩⟩

/-- The run of a host on a suite with one project. -/
def sampleRun (h : Host) (t : Tree) : Except Failure Unified × Machine :=
  (unify h {} ⟨"/"⟩ [.inDir ⟨"/a"⟩ "build"] []).run ⟨t, [], 0⟩

/-- With the path of the report led through the old one, the reason why it is not written tells
whether there is one. With the path led elsewhere, the old report stays. With the path led to the
tracefile, the report is there in its stead, though no command touches it. And a report that is
written over the old one keeps its mode. -/
theorem leftovers_show :
    (Overlooks (relinkingHost "store/summary.txt") ["store", reportName] ∧
      OnlyLeftovers [] (({} : Config).outputDir ⟨"/"⟩) ["store"] 0o644 linkedSuite
        usedLinkedSuite ∧
      (sampleRun (relinkingHost "store/summary.txt") linkedSuite).1 =
        .error (unwrittenFailure ⟨"/coverage/summary.txt"⟩ .noEntry) ∧
      (sampleRun (relinkingHost "store/summary.txt") usedLinkedSuite).1 =
        .error (unwrittenFailure ⟨"/coverage/summary.txt"⟩ .notDirectory)) ∧
      (Overlooks (relinkingHost "other") ["store", reportName] ∧
        (sampleRun (relinkingHost "other") linkedSuite).1.isOk = true ∧
        (sampleRun (relinkingHost "other") linkedSuite).2.tree.lookup ["store", reportName] =
          none ∧
        (sampleRun (relinkingHost "other") usedLinkedSuite).1.isOk = true ∧
        (sampleRun (relinkingHost "other") usedLinkedSuite).2.tree.lookup ["store", reportName] =
          some (.file [2] 0o644)) ∧
      (Overlooks capturingHost ["coverage", reportName] ∧
        (∀ cs c t, (capturingHost.runner cs c t).tree.lookup ["coverage", unifiedName] =
          t.lookup ["coverage", unifiedName]) ∧
        (sampleRun capturingHost cleanSuite).1 = .error (.fault .noCoverageData) ∧
        (sampleRun capturingHost cleanSuite).2.tree.lookup ["coverage", unifiedName] =
          some (.file (Text.encode (Report.mk "" []).render) 0o644)) ∧
      OnlyLeftovers [] (({} : Config).outputDir ⟨"/"⟩) ["coverage"] 0o600 cleanSuite
        privateSuite ∧
      ((sampleRun sampleHost cleanSuite).2.tree.lookup ["coverage", reportName]).map
        (fun n => modeFor (some n)) = some 0o644 ∧
      ((sampleRun sampleHost privateSuite).2.tree.lookup ["coverage", reportName]).map
        (fun n => modeFor (some n)) = some 0o600 := by
  refine ⟨⟨overlooks_relinkingHost _, onlyLeftovers_usedLinkedSuite, by decide +kernel,
    by decide +kernel⟩, ⟨overlooks_relinkingHost _, by decide +kernel, by decide +kernel,
    by decide +kernel, by decide +kernel⟩, ⟨overlooks_capturingHost, ?_, by decide +kernel,
    by decide +kernel⟩, onlyLeftovers_privateSuite, by decide +kernel, by decide +kernel⟩
  intro cs c t
  unfold capturingHost
  dsimp only
  split
  · exact lookup_set_ne _ _ (by decide)
  · rfl

end HostSuite.Coverage
