import HostSuite.Proofs.Project.BuildDir
import HostSuite.Proofs.Suite.Phase
import HostSuite.Proofs.Text.ByteOrder
import HostSuite.Proofs.Tree.Listing

/-
  Which projects a session gives. An entry of the root is a project of the session if it holds what
  `IsProject` asks for; the session gives exactly these, narrowed to the selected names, in the
  order of the bytes of their names, and refuses exactly where the root cannot be listed or a
  selected name is no project (`GivesProjects`). Neither the order of the listing nor that of the
  selection makes a difference to the projects (`projects_exact`); only the message about unknown
  names repeats the selection as it was written (`unknown_names_as_written`).
-/

namespace HostSuite

theorem Config.mem_addName {names : List String} {name n : String} :
    n ∈ addName names name ↔ n ∈ names ∨ n = name := by
  unfold addName
  split
  · rename_i hc
    have hmem : name ∈ names := by simpa using hc
    exact ⟨Or.inl, fun h => h.elim id fun he => he ▸ hmem⟩
  · simp

/-- By the excluded names: each one is added to those before. -/
theorem Config.mem_denylist {c : Config} {n : String} :
    n ∈ c.denylist ↔
      n ∈ builtinExcludes ∨ n = c.coverage.outputDir ∨ n ∈ c.discovery.exclude := by
  have hfold (names : List String) :
      n ∈ c.discovery.exclude.foldl addName names ↔ n ∈ names ∨ n ∈ c.discovery.exclude := by
    induction c.discovery.exclude generalizing names with
    | nil => simp
    | cons e es ih => rw [List.foldl_cons, ih, mem_addName, List.mem_cons, or_assoc]
  unfold denylist
  rw [hfold, List.mem_append, List.mem_singleton, or_assoc]

namespace Project

/-- A selection succeeds exactly if all its names are found, and keeps the projects of these. -/
theorem select_eq_ok_iff {found ps : List Project} {selected : List String} :
    select found selected = .ok ps ↔ (∀ n ∈ selected, ∃ p ∈ found, p.name = n) ∧
      ps = found.filter fun p => selected.isEmpty || selected.contains p.name := by
  unfold select
  by_cases he : selected = []
  · subst he
    simp [eq_comm]
  · have hempty : selected.isEmpty = false := by simpa using he
    rw [if_neg (by simp [hempty])]
    simp only [hempty, Bool.false_or]
    have hunknown : unknownNames found selected = [] ↔ ∀ n ∈ selected, ∃ p ∈ found, p.name = n := by
      simp [unknownNames, List.filter_eq_nil_iff]
    cases hu : unknownNames found selected with
    | nil =>
      rw [hu] at hunknown
      simp only [Except.ok.injEq]
      rw [← hunknown, eq_self, true_and, eq_comm]
    | cons n ns =>
      rw [hu] at hunknown
      simp only [reduceCtorEq, ← hunknown, false_and]

/-- The fault about unknown names repeats them as they were written. -/
theorem select_eq_error {found : List Project} {selected : List String} {f : Fault}
    (hs : select found selected = .error f) :
    f = .config ("Unknown project(s): " ++ ", ".intercalate (unknownNames found selected))
      (some ("Available projects: " ++ ", ".intercalate (found.map (·.name)))) := by
  unfold select at hs
  split at hs
  · cases hs
  · split at hs
    · cases hs
    · exact (Except.error.inj hs).symm

end Project

namespace Suite.Session

open Project

variable {s : Session} {t : Tree} {base : Place} {name : String} {names : List String}

/-- What makes an entry of the root a project of the session. -/
structure IsProject (s : Session) (t : Tree) (base : Place) (name : String) : Prop where
  entry : ∃ names, t.list base s.root = .ok names ∧ name ∈ names
  dir : t.isDir base (s.root.join name) = true
  builtin : name ∉ Config.builtinExcludes
  output : name ≠ s.config.coverage.outputDir
  exclude : name ∉ s.config.discovery.exclude
  descriptor :
    t.pathExists base ((s.root.join name).join s.config.discovery.descriptor) = true

theorem isProject_iff (hl : t.list base s.root = .ok names) :
    s.IsProject t base name ↔ name ∈ names.filter
      (qualifies t base s.root s.config.discovery.descriptor s.config.denylist) := by
  rw [List.mem_filter]
  unfold qualifies
  rw [Bool.and_eq_true, Bool.and_eq_true, Bool.not_eq_true', List.contains_eq_mem,
    decide_eq_false_iff_not, Config.mem_denylist, not_or, not_or]
  constructor
  · rintro ⟨⟨names', hl', hn⟩, hd, hb, ho, he, hx⟩
    rw [hl] at hl'
    exact ⟨Except.ok.inj hl' ▸ hn, ⟨hd, hb, ho, he⟩, hx⟩
  · rintro ⟨hn, ⟨hd, hb, ho, he⟩, hx⟩
    exact ⟨⟨names, hl, hn⟩, hd, hb, ho, he, hx⟩

/-- The project of an entry. -/
def projectOf (s : Session) (name : String) : Project :=
  ⟨name, s.root.join name, (s.root.join name).join s.config.discovery.buildDir⟩

/-- The entries that make projects, as the listing of the root has them. -/
theorem discovered_of_list (ht : t.WellNamed) (hl : t.list base s.root = .ok names) :
    s.discovered t base = .ok ((names.filter
      (qualifies t base s.root s.config.discovery.descriptor s.config.denylist)).map
        s.projectOf) := by
  obtain ⟨place, rfl⟩ := Tree.list_eq_ok hl
  unfold discovered discover
  rw [hl]
  refine congrArg Except.ok (List.map_congr_left fun n hn => ?_)
  have hname := name_inDir s.root (ht.of_mem_namesIn (List.mem_filter.mp hn).1)
    s.config.discovery.buildDir
  show Project.mk _ _ _ = _
  rw [show (s.root.join n).fileName.getD "" = n from hname]
  rfl

/-- What a listing as a directory gives it makes: the names that are texts, those that qualify, in
the order of their bytes. -/
def ofListing (s : Session) (t : Tree) (base : Place) (listing : List Text.Bytes) : List Project :=
  (Text.inByteOrder ((listing.filterMap Text.decode?).filter
    (qualifies t base s.root s.config.discovery.descriptor s.config.denylist))).map s.projectOf

/-- Whatever order the listing has, and whatever names that are no texts are among it. -/
theorem discovered_eq_ofListing (ht : t.WellNamed) (hl : t.list base s.root = .ok names)
    {listing : List Text.Bytes} (hp : (listing.filterMap Text.decode?).Perm names) :
    s.discovered t base = .ok (s.ofListing t base listing) := by
  rw [discovered_of_list ht hl]
  obtain ⟨place, rfl⟩ := Tree.list_eq_ok hl
  unfold ofListing
  rw [Text.inByteOrder_of_perm (hp.filter _) ((Tree.ascending_namesIn t place).filter _)]

/-- What a session gives as its projects; see the head of the file. -/
structure GivesProjects (s : Session) (t : Tree) (base : Place) (selected : List String)
    (r : Except Fault (List Project)) : Prop where
  refused : (∃ f, r = .error f) ↔
    (∃ e, t.list base s.root = .error e) ∨ ∃ n ∈ selected, ¬s.IsProject t base n
  fault : ∀ f, r = .error f → ∃ message hint, f = .config message hint
  unknown : ∀ f names, r = .error f → t.list base s.root = .ok names →
    ∃ isUnknown : String → Bool, (∀ n, isUnknown n = true ↔ ¬s.IsProject t base n) ∧
      f.message = "Configuration error: Unknown project(s): " ++
        ", ".intercalate (selected.filter isUnknown)
  members : ∀ ps, r = .ok ps → ∀ p, p ∈ ps ↔
    ∃ n, s.IsProject t base n ∧ (selected ≠ [] → n ∈ selected) ∧ p = s.projectOf n
  ascending : ∀ ps, r = .ok ps →
    (ps.map (·.name)).Pairwise fun a b => Text.encode a < Text.encode b

/-- A root that cannot be listed. -/
theorem givesProjects_of_unlisted {e : IoError} (hl : t.list base s.root = .error e)
    (selected : List String) : GivesProjects s t base selected (s.chosen t base selected) := by
  have hchosen : ∃ message hint, s.chosen t base selected = .error (.config message hint) := by
    unfold chosen discovered discover
    rw [hl]
    exact ⟨_, _, rfl⟩
  obtain ⟨message, hint, hc⟩ := hchosen
  rw [hc]
  refine ⟨⟨fun _ => .inl ⟨e, hl⟩, fun _ => ⟨_, rfl⟩⟩, ?_, ?_, nofun, nofun⟩
  · rintro f ⟨⟩
    exact ⟨message, hint, rfl⟩
  · intro f names _ hok
    rw [hl] at hok
    cases hok

/-- A root that can be listed: the selection is made from the entries that qualify. -/
theorem givesProjects_of_list (ht : t.WellNamed) (hl : t.list base s.root = .ok names)
    (selected : List String) : GivesProjects s t base selected (s.chosen t base selected) := by
  have hproject (n : String) : s.IsProject t base n ↔ n ∈ names.filter
      (qualifies t base s.root s.config.discovery.descriptor s.config.denylist) := isProject_iff hl
  obtain ⟨place, hplace⟩ := Tree.list_eq_ok hl
  have hascending := (Tree.ascending_namesIn t place).filter
    (qualifies t base s.root s.config.discovery.descriptor s.config.denylist)
  have hchosen : s.chosen t base selected = select ((names.filter (qualifies t base s.root
      s.config.discovery.descriptor s.config.denylist)).map s.projectOf) selected := by
    unfold chosen
    rw [discovered_of_list ht hl]
  rw [← hplace] at hascending
  rw [hchosen]
  generalize names.filter (qualifies t base s.root s.config.discovery.descriptor
    s.config.denylist) = kept at hproject hascending
  have hfound (n : String) : (∃ p ∈ kept.map s.projectOf, p.name = n) ↔ s.IsProject t base n := by
    rw [hproject]
    simp [projectOf]
  refine ⟨?_, ?_, ?_, ?_, ?_⟩
  · have herror : (∃ f, select (kept.map s.projectOf) selected = .error f) ↔
        ¬∃ ps, select (kept.map s.projectOf) selected = .ok ps := by
      cases select (kept.map s.projectOf) selected <;> simp
    simp only [herror, select_eq_ok_iff, hfound, hl, reduceCtorEq, exists_false, false_or,
      exists_and_left, exists_eq, and_true, not_forall, exists_prop]
  · intro f hf
    exact ⟨_, _, select_eq_error hf⟩
  · intro f names' hf _
    refine ⟨fun n => !(kept.map s.projectOf).any (·.name = n), fun n => ?_, ?_⟩
    · rw [← hfound]
      simp
    · rw [select_eq_error hf]
      rfl
  · intro ps hps p
    obtain ⟨-, rfl⟩ := select_eq_ok_iff.mp hps
    rw [List.mem_filter, List.mem_map]
    constructor
    · rintro ⟨⟨n, hn, rfl⟩, hsel⟩
      refine ⟨n, (hproject n).mpr hn, fun hne => ?_, rfl⟩
      simpa [hne, projectOf] using hsel
    · rintro ⟨n, hn, hsel, rfl⟩
      refine ⟨⟨n, (hproject n).mp hn, rfl⟩, ?_⟩
      by_cases hne : selected = []
      · simp [hne]
      · simpa [hne, projectOf] using hsel hne
  · intro ps hps
    obtain ⟨-, rfl⟩ := select_eq_ok_iff.mp hps
    have hsub : ((kept.map s.projectOf).filter fun p =>
        selected.isEmpty || selected.contains p.name).map (·.name) |>.Sublist kept := by
      have := (List.filter_sublist (l := kept.map s.projectOf) (p := fun p =>
        selected.isEmpty || selected.contains p.name)).map (·.name)
      simpa [projectOf, Function.comp_def] using this
    exact (hascending.sublist hsub).imp fun h => Text.encode_lt_encode h

theorem givesProjects_chosen (ht : t.WellNamed) (selected : List String) :
    GivesProjects s t base selected (s.chosen t base selected) := by
  cases hl : t.list base s.root with
  | error e => exact givesProjects_of_unlisted hl selected
  | ok names => exact givesProjects_of_list ht hl selected

/-- Two selections of the same names give the same projects. -/
theorem chosen_eq_ok_congr {selected selected' : List String}
    (hsame : ∀ n, n ∈ selected' ↔ n ∈ selected) (ps : List Project) :
    s.chosen t base selected' = .ok ps ↔ s.chosen t base selected = .ok ps := by
  have hempty : selected'.isEmpty = selected.isEmpty := by
    rw [Bool.eq_iff_iff, List.isEmpty_iff, List.isEmpty_iff, List.eq_nil_iff_forall_not_mem,
      List.eq_nil_iff_forall_not_mem]
    simp only [hsame]
  have hcontains (n : String) : selected'.contains n = selected.contains n := by
    rw [Bool.eq_iff_iff, List.contains_iff_mem, List.contains_iff_mem, hsame]
  unfold chosen
  cases s.discovered t base with
  | error f => simp only [reduceCtorEq]
  | ok found => simp only [select_eq_ok_iff, hsame, hempty, hcontains]

/-- Asking for the projects of a session sends nothing and changes nothing, and gives what
`GivesProjects` says: the projects do not depend on the order of the listing, nor on the order of
the selection or on names in it that occur more than once. -/
theorem projects_exact (h : Host) (m : Machine) (s : Session) (selected : List String)
    (ht : m.tree.WellNamed) :
    ∃ m' r, Runs h (s.projects h selected).run m r m' [] [] [] ∧
      GivesProjects s m.tree h.workingDir selected r ∧
      (∀ names, m.tree.list h.workingDir s.root = .ok names →
        ∀ listing : List Text.Bytes, (listing.filterMap Text.decode?).Perm names →
          r = select (s.ofListing m.tree h.workingDir listing) selected) ∧
      ∀ selected' : List String, (∀ n, n ∈ selected' ↔ n ∈ selected) →
        ∃ m₁ r', Runs h (s.projects h selected').run m r' m₁ [] [] [] ∧
          ∀ ps, r' = .ok ps ↔ r = .ok ps := by
  obtain ⟨m', hm'⟩ := s.projects_runs h m selected
  refine ⟨m', s.chosen m.tree h.workingDir selected, hm', givesProjects_chosen ht selected, ?_, ?_⟩
  · intro names hl listing hp
    unfold chosen
    rw [discovered_eq_ofListing ht hl hp]
  · intro selected' hsame
    obtain ⟨m₁, hm₁⟩ := s.projects_runs h m selected'
    exact ⟨m₁, _, hm₁, chosen_eq_ok_congr hsame⟩

/-- The suite of two projects, under the default configuration. -/
def atTop : Session := ⟨Path.ofPlace [], {}, false⟩

theorem projects_exact_twoProjects :
    ∃ m', Runs Coverage.sampleHost (atTop.projects Coverage.sampleHost ["b", "b"]).run
        ⟨twoProjects, [], 0⟩ (.ok [Project.named [] "build" "b"]) m' [] [] [] ∧
      GivesProjects atTop twoProjects [] ["b", "b"] (.ok [Project.named [] "build" "b"]) := by
  obtain ⟨m', r, hruns, hgives, -, -⟩ := projects_exact Coverage.sampleHost ⟨twoProjects, [], 0⟩
    atTop ["b", "b"] wellNamed_twoProjects
  have hr : r = .ok [Project.named [] "build" "b"] := by
    have hfst := congrArg Prod.fst hruns.1
    exact hfst.symm.trans (Except.eq_ok_of_toOption (by decide +kernel))
  subst hr
  exact ⟨m', hruns, hgives⟩

/-- The message about unknown names has them in the order of the selection. -/
theorem unknown_names_as_written :
    (∀ n, n ∈ ["y", "x"] ↔ n ∈ ["x", "y"]) ∧
      ((atTop.projects Coverage.sampleHost ["x", "y"]).run ⟨twoProjects, [], 0⟩).1 =
        .error (.config "Unknown project(s): x, y" (some "Available projects: a, b")) ∧
      ((atTop.projects Coverage.sampleHost ["y", "x"]).run ⟨twoProjects, [], 0⟩).1 =
        .error (.config "Unknown project(s): y, x" (some "Available projects: a, b")) := by
  refine ⟨fun n => ?_, by decide +kernel, by decide +kernel⟩
  rw [List.mem_pair, List.mem_pair, or_comm]

end Suite.Session

end HostSuite
