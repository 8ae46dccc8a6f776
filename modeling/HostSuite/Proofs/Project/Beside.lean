import Mathlib.Data.List.Find
import HostSuite.Project.TestBinary
import HostSuite.Proofs.Tree.Removal
import HostSuite.Proofs.Tree.SelfContained

/-
  One directory in two trees. Two trees have the same self-contained directory, and around it each
  one is as it was (`Beside`). What a run itself does for a project then does the same in both and
  keeps them so: removing the build directory (`Beside.removeDirsIfThere`), dropping the counters
  (`Beside.dropCounters`) and looking for the test binary (`Beside.findBinary`). All paths in it are
  written with plain names, so they lead along the directory.
-/

namespace HostSuite

/-! ## Written paths of a search -/

namespace Project

theorem seenFrom_absolute {p : Path} (hp : p.isAbsolute = true) (n : String) :
    seenFrom p n = p.join n := by
  unfold seenFrom
  refine if_neg fun he => ?_
  unfold Path.isAbsolute at hp
  rw [he] at hp
  cases hp

/-- A step down, written from an absolute path. -/
theorem elfStep_name {t : Tree} {base : Place} {here : Path} {n : String}
    (hh : here.isAbsolute = true) (hn : Path.IsPlain n) :
    elfStep t base here n =
      if (if hasWildcard n then (t.list base here).toOption.any (·.contains n)
        else isThere t base (here.join n)) then some (here.join n) else none := by
  unfold elfStep
  simp only [seenFrom_absolute hh, hn.ne_dot, hn.ne_dots, decide_false, Bool.or_self,
    Bool.false_eq_true, if_false]
  cases t.list base here <;> rfl

/-- The path of a place is written with its names. -/
theorem writtenSteps_ofPlace {s : List String} (hs : ∀ n ∈ s, Path.IsPlain n) :
    writtenSteps (Path.ofPlace s) = s := by
  have htail : (Path.ofPlace s).text.toList.tail = ['/'].intercalate (s.map String.toList) := by
    rw [show ['/'] = "/".toList from rfl, ← String.toList_intercalate]
    simp [Path.ofPlace]
  unfold writtenSteps Text.splitAt
  rw [Path.isAbsolute_ofPlace, if_pos rfl, htail, String.toList_ofList, Text.pieces_eq_splitOn]
  cases s with
  | nil => rfl
  | cons n rest =>
    rw [List.splitOn_intercalate '/' _ (by simp)]
    · have hmap : ((n :: rest).map String.toList).map String.ofList = n :: rest := by simp
      simp only [hmap]
      refine if_neg fun hlast => ?_
      exact (hs "" (List.mem_of_getLast? hlast)).ne_empty rfl
    · intro l hl
      obtain ⟨m, hm, rfl⟩ := List.mem_map.mp hl
      exact (hs m hm).no_slash

end Project

namespace Tree

/-- The same directory at `P` in two trees: around it the first is as in `o` and the second as in
`o'`, and what is above it is the same in these. -/
structure Beside (P : Place) (o o' t t' : Tree) : Prop where
  above : Agree (fun q => q <+: P ∧ ¬P <+: q) o o'
  around : Agree (¬P <+: ·) o t
  around' : Agree (¬P <+: ·) o' t'
  inside : Agree (P <+: ·) t t'
  contained : t.SelfContained P
  names : t.WellNamed

/-- The same answer, and the trees stay beside each other. -/
def StayBeside {α : Type} (P : Place) (o o' : Tree) (x y : Tree × α) : Prop :=
  y.2 = x.2 ∧ Beside P o o' x.1 y.1

theorem StayBeside.split {α : Type} {P : Place} {o o' : Tree} {x y : Tree × α}
    (hs : StayBeside P o o' x y) :
    ∃ t t' r, x = (t, r) ∧ y = (t', r) ∧ Beside P o o' t t' :=
  ⟨x.1, y.1, x.2, rfl, Prod.ext rfl hs.1, hs.2⟩

namespace Beside

variable {α : Type} {P s : Place} {o o' t t' : Tree} {base : Place} {p : Path}

/-- The trees agree along the directory. -/
theorem along (hb : Beside P o o' t t') : Agree (Along P) t t' := by
  intro q hq
  by_cases hP : P <+: q
  · exact hb.inside q hP
  · rw [hb.around' q hP, hb.above q ⟨hq.resolve_left hP, hP⟩, hb.around q hP]

/-- The trees stay beside each other when the same is cleared in both. -/
theorem clears (hb : Beside P o o' t t') {x y : Tree × α} (hs : SameBelow P x y)
    (hx : OnlyClears (P <+: ·) t x.1) (hy : OnlyClears (P <+: ·) t' y.1) :
    StayBeside P o o' x y :=
  ⟨hs.1, hb.above, hb.around.trans (hx.agree fun _ h => h),
    hb.around'.trans (hy.agree fun _ h => h), hs.2, hb.contained.of_clears hx fun _ h => h,
    hb.names.of_onlyClears hx⟩

theorem find_eq (hb : Beside P o o' t t') (hp : p.Spells s) (hs : Along P s) {follow : Bool} :
    t'.find base p follow = t.find base p follow :=
  hb.contained.find_eq hb.along hp hs

theorem mayChangeAround_eq (hb : Beside P o o' t t') {q : Place} (hq : Along P q) :
    t'.mayChangeAround q = t.mayChangeAround q := by
  unfold mayChangeAround
  rw [hb.along _ (hq.of_prefix (List.dropLast_prefix q))]

/-- Clearing one place in the directory. -/
theorem clear (hb : Beside P o o' t t') {q : Place} (hq : P <+: q) (hne : q ≠ []) (r : α) :
    StayBeside P o o' (t.clear q, r) (t'.clear q, r) := by
  refine hb.clears ⟨rfl, hb.inside.clear q⟩ ?_ ?_
  · exact (clear_onlyClears t hne).mono fun _ h => h ▸ hq
  · exact (clear_onlyClears t' hne).mono fun _ h => h ▸ hq

/-! ## Where the paths of a project lead, links at the end not followed -/

theorem place_of_find (hb : Beside P o o' t t') (hp : p.Spells P) (hends : p.endsInSlash = false)
    {q : Place} {n : Node} (hf : t.find base p false = .ok (q, n)) : q = P :=
  (reaches_of_spells_last hp hends hf).straight hp.plain hb.contained.above

theorem place_of_find_name (hb : Beside P o o' t t') {b : String} (hp : p.Spells (P ++ [b]))
    (hends : p.endsInSlash = false) {q : Place} {n : Node}
    (hf : t.find base p false = .ok (q, n)) : q = P ++ [b] := by
  have hplain := hp.plain b (by simp)
  obtain ⟨place, hplace, rfl⟩ :=
    (reaches_of_spells_last hp hends hf).split_last hplain.ne_dot hplain.ne_dots
  rw [hplace.straight (fun n hn => hp.plain n (List.mem_append_left _ hn)) hb.contained.above]
  rfl

/-! ## Removing the build directory -/

/-- A directory right inside is emptied in the same way. -/
theorem emptyDir (hb : Beside P o o' t t') (b : String) :
    StayBeside P o o' (t.emptyDir t.depthBound (P ++ [b]))
      (t'.emptyDir t'.depthBound (P ++ [b])) := by
  have hpre : ∀ q, P ++ [b] <+: q → P <+: q := fun _ hq => (List.prefix_append P [b]).trans hq
  have hx := emptyDir_onlyClears t.depthBound t (P ++ [b])
  have hy := emptyDir_onlyClears t'.depthBound t' (P ++ [b])
  exact hb.clears ((emptyDir_sameBelow (hb.inside.mono hpre)).widen hb.inside hx hy)
    (hx.mono hpre) (hy.mono hpre)

theorem removeDirs (hb : Beside P o o' t t') (base : Place) {b : String} (hp : p.Spells (P ++ [b]))
    (hends : p.endsInSlash = false) :
    StayBeside P o o' (t.removeDirs base p) (t'.removeDirs base p) := by
  have halong : Along P (P ++ [b]) := .inl (List.prefix_append P [b])
  unfold Tree.removeDirs
  rw [hb.find_eq hp halong]
  cases hf : t.find base p false with
  | error e => exact ⟨rfl, hb⟩
  | ok found =>
    obtain ⟨q, node⟩ := found
    obtain rfl := hb.place_of_find_name hp hends hf
    cases node with
    | file _ _ => exact ⟨rfl, hb⟩
    | link _ =>
      simp only [hb.mayChangeAround_eq halong]
      split
      · exact hb.clear (List.prefix_append P [b]) (by simp) none
      · exact ⟨rfl, hb⟩
    | dir _ =>
      obtain ⟨t₁, t₁', r, hx, hy, hb₁⟩ := (hb.emptyDir b).split
      simp only [hx, hy]
      cases r with
      | some e => exact ⟨rfl, hb₁⟩
      | none =>
        simp only [Path.withoutSlash_eq hends, hb₁.find_eq hp halong, hb₁.mayChangeAround_eq halong]
        -- Whatever stands in the way of removing the emptied directory does so in both.
        have hlast : StayBeside P o o'
            (if p.segments.getLast? = some "." then (t₁, some .invalidArgument)
              else if p.segments.getLast? = some ".." then (t₁, some .notEmpty)
              else if P ++ [b] = [] then (t₁, some .busy)
              else if t₁.mayChangeAround (P ++ [b]) then (t₁.clear (P ++ [b]), none)
              else (t₁, some IoError.permissionDenied))
            (if p.segments.getLast? = some "." then (t₁', some .invalidArgument)
              else if p.segments.getLast? = some ".." then (t₁', some .notEmpty)
              else if P ++ [b] = [] then (t₁', some .busy)
              else if t₁.mayChangeAround (P ++ [b]) then (t₁'.clear (P ++ [b]), none)
              else (t₁', some IoError.permissionDenied)) := by
          have hclear := hb₁.clear (List.prefix_append P [b]) (by simp) (none : Option IoError)
          split_ifs
          · exact ⟨rfl, hb₁⟩
          · exact ⟨rfl, hb₁⟩
          · exact ⟨rfl, hb₁⟩
          · exact hclear
          · exact ⟨rfl, hb₁⟩
        cases t₁.find base p false with
        | error e => exact ⟨rfl, hb₁⟩
        | ok found =>
          obtain ⟨-, node⟩ := found
          cases node with
          | link _ => exact ⟨rfl, hb₁⟩
          | dir _ | file _ _ => exact hlast

/-- A missing directory is fine in both. -/
theorem removeDirsIfThere (hb : Beside P o o' t t') (base : Place) {b : String}
    (hp : p.Spells (P ++ [b])) (hends : p.endsInSlash = false) :
    StayBeside P o o' (t.removeDirsIfThere base p) (t'.removeDirsIfThere base p) := by
  obtain ⟨t₁, t₁', r, hx, hy, hb₁⟩ := (hb.removeDirs base hp hends).split
  unfold Tree.removeDirsIfThere
  rw [hx, hy]
  cases r with
  | none => exact ⟨rfl, hb₁⟩
  | some e => cases e <;> exact ⟨rfl, hb₁⟩

/-! ## Dropping the counters -/

theorem removeFile (hb : Beside P o o' t t') (base : Place) (hp : p.Spells P)
    (hends : p.endsInSlash = false) :
    (∃ e, t.removeFile base p = .error e ∧ t'.removeFile base p = .error e) ∨
      P ≠ [] ∧ t.removeFile base p = .ok (t.clear P) ∧ t'.removeFile base p = .ok (t'.clear P) := by
  have halong : Along P P := .inl (List.prefix_refl P)
  unfold Tree.removeFile
  rw [Path.withoutSlash_eq hends, hb.find_eq hp halong]
  split
  · exact .inl ⟨_, rfl, rfl⟩
  · exact .inl ⟨_, rfl, rfl⟩
  · rename_i q n hnd hf
    obtain rfl := hb.place_of_find hp hends hf
    simp only [hends, Bool.false_eq_true, if_false, hb.mayChangeAround_eq halong]
    split
    · refine .inr ⟨ne_nil_of_lookup (find_eq_ok_iff.mp hf).2 ?_, rfl, rfl⟩
      rintro mode rfl
      exact hnd mode rfl
    · exact .inl ⟨_, rfl, rfl⟩

theorem sweep (hb : Beside P o o' t t') :
    StayBeside P o o' (t.sweep t.depthBound P) (t'.sweep t'.depthBound P) :=
  hb.clears (sweep_sameBelow hb.inside) (sweep_onlyClears _ t P) (sweep_onlyClears _ t' P)

theorem dropCounters (hb : Beside P o o' t t') (base : Place) (hp : p.Spells P)
    (hends : p.endsInSlash = false) :
    StayBeside P o o' (t.dropCounters base p) (t'.dropCounters base p) := by
  have halong : Along P P := .inl (List.prefix_refl P)
  unfold Tree.dropCounters
  rw [hb.find_eq hp halong]
  split
  · split
    · obtain ⟨e, hx, hy⟩ | ⟨hne, hx, hy⟩ := hb.removeFile base hp hends
      · rw [hx, hy]
        exact ⟨rfl, hb⟩
      · rw [hx, hy]
        exact hb.clear (List.prefix_refl P) hne 1
    · exact ⟨rfl, hb⟩
  · rw [hb.find_eq hp halong]
    split
    · rename_i place mode hf
      obtain rfl : place = P :=
        (reaches_of_spells hp hf).straight hp.plain hb.contained.above
      exact hb.sweep
    · exact ⟨rfl, hb⟩

/-! ## Looking around in the directory -/

/-- A directory inside has the same names. -/
theorem list_eq (hb : Beside P o o' t t') (hp : p.Spells s) (hs : P <+: s) :
    t'.list base p = t.list base p := by
  unfold list
  rw [hb.find_eq hp (.inl hs)]
  split
  · rfl
  · rename_i place mode hf
    have hbelow := hb.contained.find_below hp hs hf
    rw [namesIn_congr fun n => hb.inside _ (hbelow.trans (List.prefix_append place [n]))]
  · rfl

theorem plain_of_list (hb : Beside P o o' t t') {names : List String}
    (hl : t.list base p = .ok names) : ∀ n ∈ names, Path.IsPlain n := by
  obtain ⟨place, rfl⟩ := list_eq_ok hl
  exact fun n hn => hb.names.of_mem_namesIn hn

/-- On the way to the directory the next name is seen in both listings or in neither. -/
theorem any_contains_eq (hb : Beside P o o' t t') (hp : p.Spells s) {n : String}
    (hs : Along P (s ++ [n])) :
    (t'.list base p).toOption.any (·.contains n) =
      (t.list base p).toOption.any (·.contains n) := by
  obtain hs | hs := hs.above_or_below
  · unfold list
    rw [hb.find_eq hp (.inr ((List.prefix_append s [n]).trans hs))]
    cases hf : t.find base p with
    | error e => rfl
    | ok found =>
      obtain ⟨place, node⟩ := found
      cases node with
      | file _ _ | link _ => rfl
      | dir mode =>
        obtain rfl : place = s := (reaches_of_spells hp hf).straight hp.plain fun q hq =>
          hb.contained.above q (hq.trans ((List.prefix_append s [n]).trans hs))
        have hmem : n ∈ t'.namesIn place ↔ n ∈ t.namesIn place := by
          rw [mem_namesIn, mem_namesIn, hb.along _ (.inr hs)]
        simp only
        by_cases hread : hasBit mode readBit
        · rw [if_pos hread, if_pos hread, Bool.eq_iff_iff]
          exact List.contains_iff_mem.trans (hmem.trans List.contains_iff_mem.symm)
        · rw [if_neg hread, if_neg hread]
  · rw [hb.list_eq hp hs]

/-! ## Looking for the test binary -/

theorem isBinary_eq (hb : Beside P o o' t t') (base : Place) (hp : p.Spells s) (hs : P <+: s)
    {n : String} (hn : Path.IsPlain n) :
    Project.isBinary t' base p n = Project.isBinary t base p n := by
  unfold Project.isBinary isProgram
  rw [hb.find_eq (hp.join hn) (.inl (hs.trans (List.prefix_append s [n])))]

theorem elfStep_eq (hb : Beside P o o' t t') (hp : p.Spells s) {n : String} (hn : Path.IsPlain n)
    (hs : Along P (s ++ [n])) : Project.elfStep t' base p n = Project.elfStep t base p n := by
  have hthere : Project.isThere t' base (p.join n) = Project.isThere t base (p.join n) := by
    unfold Project.isThere pathExists
    rw [hb.find_eq (hp.join hn) hs, hb.find_eq (hp.join hn) hs]
  rw [Project.elfStep_name hp.absolute hn, Project.elfStep_name hp.absolute hn, hthere,
    hb.any_contains_eq hp hs]

/-- Step by step along the written path; where it leads somewhere, the path written so far is that
of its names. -/
theorem elfSteps_eq (hb : Beside P o o' t t') (base : Place) {rest : List String}
    (hs : Along P (s ++ rest)) (hplain : ∀ n ∈ s ++ rest, Path.IsPlain n) :
    rest.foldlM (Project.elfStep t' base) (Path.ofPlace s) =
        rest.foldlM (Project.elfStep t base) (Path.ofPlace s) ∧
      ∀ here ∈ rest.foldlM (Project.elfStep t base) (Path.ofPlace s),
        here = Path.ofPlace (s ++ rest) := by
  induction rest generalizing s with
  | nil => simp
  | cons n rest ih =>
    have hs' : Along P ((s ++ [n]) ++ rest) := by simpa using hs
    have hfront : ∀ m ∈ s, Path.IsPlain m := fun m hm => hplain m (List.mem_append_left _ hm)
    have hn : Path.IsPlain n := hplain n (by simp)
    rw [List.foldlM_cons, List.foldlM_cons, hb.elfStep_eq (Path.spells_ofPlace hfront) hn
      (hs'.of_prefix (List.prefix_append _ rest)),
      Project.elfStep_name (Path.isAbsolute_ofPlace s) hn, Path.join_ofPlace hfront hn]
    generalize (if Project.hasWildcard n then _ else _ : Bool) = leads
    cases leads with
    | false => simp
    | true => simpa using ih hs' (by simpa using hplain)

theorem findElf_eq (hb : Beside P o o' t t') (base : Place) (hs : P <+: s)
    (hplain : ∀ n ∈ s, Path.IsPlain n) :
    Project.findElf t' base (Path.ofPlace s) = Project.findElf t base (Path.ofPlace s) := by
  obtain ⟨hsteps, hend⟩ := hb.elfSteps_eq base (s := []) (.inl hs) hplain
  unfold Project.findElf
  rw [Project.writtenSteps_ofPlace hplain, Path.isAbsolute_ofPlace, if_pos rfl]
  show (s.foldlM (Project.elfStep t' base) (Path.ofPlace []) >>= _) =
    (s.foldlM (Project.elfStep t base) (Path.ofPlace []) >>= _)
  rw [hsteps]
  cases hhere : s.foldlM (Project.elfStep t base) (Path.ofPlace []) with
  | none => rfl
  | some here =>
    obtain rfl := hend here hhere
    show ((t'.list base (Path.ofPlace s)).toOption >>= _) =
      ((t.list base (Path.ofPlace s)).toOption >>= _)
    rw [hb.list_eq (Path.spells_ofPlace hplain) hs]

theorem findBinary_eq (hb : Beside P o o' t t') (base : Place) (hs : P <+: s)
    (hplain : ∀ n ∈ s, Path.IsPlain n) :
    Project.findBinary t' base (Path.ofPlace s) = Project.findBinary t base (Path.ofPlace s) := by
  have hp := Path.spells_ofPlace hplain
  unfold Project.findBinary
  rw [hb.list_eq hp hs, hb.findElf_eq base hs hplain]
  have hnames : ∀ n ∈ (t.list base (Path.ofPlace s)).toOption.getD [], Path.IsPlain n := by
    cases hl : t.list base (Path.ofPlace s) with
    | error e => exact fun _ hn => absurd hn List.not_mem_nil
    | ok names => exact hb.plain_of_list hl
  have hfind := List.find?_congr fun n hn => hb.isBinary_eq base hp hs (hnames n hn)
  simp only [hfind]

end Beside

end Tree

end HostSuite
