import Mathlib.Data.List.Infix
import HostSuite.Proofs.Project.Beside
import HostSuite.Proofs.Text.ByteOrder
import HostSuite.Proofs.Text.Streams
import HostSuite.Proofs.Tree.Listing
import HostSuite.Proofs.Tree.SameSteps
import HostSuite.Suite.ProjectRun

/-
  Which binary is found. The names of a directory come in ascending order, so the first one that
  fits is the bytewise least. The second search walks the directory as it is written, step by step;
  where the directory and what is above it can be read, each step leads on (`elfStep_of_toward`),
  and the walk ends at the directory itself, whatever characters are in its path (`elfSteps_reach`).
  So both searches choose among the entries of one directory (`findBinary_first`). The second one
  does not ask what kind of entry it chooses (`findBinary_isFile_iff`).
-/

namespace HostSuite.Project

/-! ## Names -/

theorem endsWith_iff {s ending : String} :
    endsWith s ending = true ↔ ending.toList <:+ s.toList := by
  unfold endsWith
  rw [List.isPrefixOf_iff_prefix, List.reverse_prefix]

/-- A regular file, links followed, that may be executed, under a name that is none of another
product of the build. -/
structure IsCandidate (t : Tree) (base : Place) (dir : Path) (name : String) : Prop where
  program : ∃ place content mode, t.find base (dir.join name) = .ok (place, .file content mode) ∧
    Tree.mayExecute mode = true
  no_ending : ∀ ending ∈ [".bin", ".map", ".cmake"], ¬ ending.toList <:+ name.toList
  no_cmake : ¬ "cmake".toList <:+: name.toList.map foldCase

def IsElf (name : String) : Prop := ".elf".toList <:+ name.toList

theorem isElf_iff {name : String} : endsWith name ".elf" = true ↔ IsElf name := endsWith_iff

theorem isBinary_iff {t : Tree} {base : Place} {dir : Path} {name : String} :
    isBinary t base dir name = true ↔ IsCandidate t base dir name := by
  have hending : (!artifactEndings.any (endsWith name)) = true ↔
      ∀ ending ∈ artifactEndings, ¬ ending.toList <:+ name.toList := by
    rw [Bool.not_eq_true', List.any_eq_false]
    exact forall₂_congr fun ending _ => not_congr endsWith_iff
  have hcmake : (!namesCmake name) = true ↔ ¬ "cmake".toList <:+: name.toList.map foldCase := by
    rw [Bool.not_eq_true', ← Bool.not_eq_true]
    exact not_congr Text.occursIn_iff
  unfold isBinary isBinaryName
  rw [Bool.and_eq_true, Bool.and_eq_true, Tree.isProgram_iff, hending, hcmake]
  exact ⟨fun ⟨hp, he, hc⟩ => ⟨hp, he, hc⟩, fun ⟨hp, he, hc⟩ => ⟨hp, he, hc⟩⟩

/-- The bytewise least of the names that are like this. -/
structure FirstName (names : List String) (Q : String → Prop) (name : String) : Prop where
  mem : name ∈ names
  holds : Q name
  least : ∀ other ∈ names, Q other → Text.encode name ≤ Text.encode other

/-- In ascending order the first name that fits is the least. -/
theorem firstName_of_find? {names : List String} {p : String → Bool} {Q : String → Prop}
    {name : String} (hasc : names.Pairwise (· < ·)) (hpq : ∀ n, p n = true ↔ Q n)
    (hf : names.find? p = some name) : FirstName names Q name := by
  obtain ⟨hp, front, back, rfl, hfront⟩ := List.find?_eq_some_iff_append.mp hf
  refine ⟨by simp, (hpq name).mp hp, fun other hmem hother => ?_⟩
  obtain hmem | rfl | hmem : other ∈ front ∨ other = name ∨ other ∈ back := by simpa using hmem
  · have hno := hfront other hmem
    rw [(hpq other).mpr hother] at hno
    cases hno
  · exact List.le_refl _
  · have hback := (List.pairwise_cons.mp (List.pairwise_append.mp hasc).2.1).1
    have hlt : name < other := hback other hmem
    exact List.le_of_lt (Text.encode_lt_encode hlt)

theorem not_of_find?_eq_none {names : List String} {p : String → Bool} {Q : String → Prop}
    (hpq : ∀ n, p n = true ↔ Q n) (hf : names.find? p = none) : ∀ n ∈ names, ¬ Q n := by
  intro n hn hq
  exact List.find?_eq_none.mp hf n hn ((hpq n).mpr hq)

/-! ## Written steps -/

theorem text_of_absolute {p : Path} (hp : p.isAbsolute = true) :
    ∃ rest, p.text.toList = '/' :: rest :=
  List.head?_eq_some_iff.mp (of_decide_eq_true hp)

section

variable {p : Path} {rest : List Char} (hp : p.text.toList = '/' :: rest)

include hp

/-- An absolute path is cut at its slashes, after the first one; what is after the last one counts
only if it is not empty. -/
theorem writtenSteps_eq : writtenSteps p =
    if (Text.splitAt '/' (String.ofList rest)).getLast? = some "" then
      (Text.splitAt '/' (String.ofList rest)).dropLast
    else Text.splitAt '/' (String.ofList rest) := by
  have habs : p.isAbsolute = true := by simp [Path.isAbsolute, hp]
  unfold writtenSteps
  rw [if_pos habs, hp, List.tail_cons]

theorem segments_of_text :
    p.segments = (Text.splitAt '/' (String.ofList rest)).filter (· ≠ "") := by
  unfold Path.segments Text.splitAt
  rw [hp, Text.pieces, if_pos rfl, String.toList_ofList]
  rfl

/-- Only empty steps are more than the segments. -/
theorem writtenSteps_filter : (writtenSteps p).filter (· ≠ "") = p.segments := by
  rw [writtenSteps_eq hp, segments_of_text hp]
  split
  · rename_i hlast
    obtain ⟨front, hfront⟩ := List.getLast?_eq_some_iff.mp hlast
    simp [hfront]
  · rfl

theorem no_slash_of_mem_writtenSteps {s : String} (hs : s ∈ writtenSteps p) : '/' ∉ s.toList := by
  have hmem : s ∈ Text.splitAt '/' (String.ofList rest) := by
    rw [writtenSteps_eq hp] at hs
    split at hs
    · exact List.dropLast_subset _ hs
    · exact hs
  obtain ⟨piece, hpiece, rfl⟩ := List.mem_map.mp hmem
  rw [String.toList_ofList]
  exact Text.not_mem_of_mem_pieces hpiece

/-- Where the last step is empty, or there is none, the path ends in a slash. -/
theorem endsInSlash_of_writtenSteps
    (hlast : (writtenSteps p).getLast? = some "" ∨ writtenSteps p = []) : p.endsInSlash = true := by
  have hpieces : (Text.pieces '/' rest).getLast? = some [] := by
    have hsplit : (Text.splitAt '/' (String.ofList rest)).getLast? = some "" := by
      rw [writtenSteps_eq hp] at hlast
      split at hlast
      · assumption
      · refine hlast.resolve_right fun hnil => ?_
        exact Text.pieces_ne_nil '/' _ (List.map_eq_nil_iff.mp hnil)
    unfold Text.splitAt at hsplit
    rw [String.toList_ofList, List.getLast?_map, Option.map_eq_some_iff] at hsplit
    obtain ⟨piece, hpiece, hempty⟩ := hsplit
    rw [hpiece, ← String.toList_ofList (l := piece), hempty]
    rfl
  unfold Path.endsInSlash
  rw [hp, decide_eq_true_iff]
  obtain rfl | ⟨front, c, rfl⟩ := List.eq_nil_or_concat' rest
  · rfl
  · by_cases hc : c = '/'
    · rw [hc, ← List.cons_append, List.getLast?_concat]
    · refine absurd ?_ (Text.getLastD_pieces_concat front hc)
      rw [List.getLastD_eq_getLast?, hpieces]
      rfl

end

/-- `here` is written as the first steps of `dir`, and `rest` are the steps to come. -/
structure Toward (dir here : Path) (rest : List String) : Prop where
  absolute : here.isAbsolute = true
  segments : here.segments ++ rest.filter (· ≠ "") = dir.segments
  no_slash : ∀ s ∈ rest, '/' ∉ s.toList
  here_ends : here.endsInSlash = true → rest = [] → dir.endsInSlash = true
  rest_ends : rest.getLast? = some "" → dir.endsInSlash = true

namespace Toward

variable {dir here : Path} {step : String} {rest : List String}

theorem start (hdir : dir.isAbsolute = true) : Toward dir ⟨"/"⟩ (writtenSteps dir) := by
  obtain ⟨text, htext⟩ := text_of_absolute hdir
  have hroot : (⟨"/"⟩ : Path).segments = [] := by decide
  refine ⟨rfl, ?_, fun s => no_slash_of_mem_writtenSteps htext, ?_, ?_⟩
  · rw [hroot, List.nil_append, writtenSteps_filter htext]
  · exact fun _ hnil => endsInSlash_of_writtenSteps htext (.inr hnil)
  · exact fun hlast => endsInSlash_of_writtenSteps htext (.inl hlast)

theorem segments_join (hw : Toward dir here (step :: rest)) :
    (here.join step).segments = here.segments ++ [step].filter (· ≠ "") := by
  have hs := hw.no_slash step List.mem_cons_self
  rw [Path.segments_join here (Path.head_ne_slash hs)]
  by_cases he : step = ""
  · subst he
    rfl
  · rw [Path.segments_plain he hs]
    simp [he]

theorem next (hw : Toward dir here (step :: rest)) : Toward dir (here.join step) rest := by
  have hs := hw.no_slash step List.mem_cons_self
  have hlast : rest = [] → step = "" → dir.endsInSlash = true := by
    rintro rfl rfl
    exact hw.rest_ends rfl
  refine ⟨Path.isAbsolute_join hw.absolute step, ?_, fun s hmem => ?_, fun hends hnil => ?_,
    fun hrest => ?_⟩
  · rw [hw.segments_join, List.append_assoc, ← List.filter_append, List.singleton_append]
    exact hw.segments
  · exact hw.no_slash s (List.mem_cons_of_mem _ hmem)
  · by_cases he : step = ""
    · exact hlast hnil he
    · rw [Path.endsInSlash_join_step here he hs] at hends
      cases hends
  · refine hw.rest_ends ?_
    obtain ⟨front, rfl⟩ := List.getLast?_eq_some_iff.mp hrest
    rw [← List.cons_append, List.getLast?_concat]

/-- What is still to walk, once a step is still to come. -/
theorem walkSteps_eq (hw : Toward dir here (step :: rest)) :
    ∃ first more, Tree.walkSteps dir = here.segments ++ first :: more ∧
      (step ≠ "" → first = step) := by
  have hsteps : Tree.walkSteps dir = here.segments ++ ((step :: rest).filter (· ≠ "") ++
      if dir.endsInSlash then ["."] else []) := by
    unfold Tree.walkSteps
    rw [← hw.segments]
    split <;> simp
  by_cases he : step = ""
  · -- only empty steps may be left, and then there is a slash at the end
    have hne : (step :: rest).filter (· ≠ "") ++ (if dir.endsInSlash then ["."] else []) ≠ [] := by
      intro hnil
      obtain ⟨hfilter, hslash⟩ := List.append_eq_nil_iff.mp hnil
      obtain ⟨last, hlast⟩ : ∃ last, (step :: rest).getLast? = some last :=
        Option.isSome_iff_exists.mp (by simp)
      have hempty : last = "" := by
        by_contra hlne
        have hgone := List.filter_eq_nil_iff.mp hfilter last (List.mem_of_getLast? hlast)
        exact hgone (by simpa using hlne)
      rw [hw.rest_ends (hempty ▸ hlast)] at hslash
      cases hslash
    obtain ⟨first, more, hmore⟩ := List.exists_cons_of_ne_nil hne
    exact ⟨first, more, hsteps.trans (by rw [hmore]), fun hne => absurd he hne⟩
  · rw [List.filter_cons_of_pos (by simpa using he), List.cons_append] at hsteps
    exact ⟨step, _, hsteps, fun _ => rfl⟩

end Toward

/-! ## The walk -/

/-- The directory can be read, and so can each directory above it as its path is written. -/
structure ReadableAlong (t : Tree) (base : Place) (dir : Path) : Prop where
  own : (t.list base dir).isOk = true
  above : ∀ front ∈ dir.segments.inits, (t.list base (Path.ofPlace front)).isOk = true

section

variable {t : Tree} {base : Place} {dir : Path} {place : Place} {node : Node}

theorem reaches_of_find (hdir : dir.isAbsolute = true) (hf : t.find base dir = .ok (place, node)) :
    Tree.Reaches t true Tree.maxLinks [] (Tree.walkSteps dir) place ∧
      ∀ s ∈ dir.segments, '\x00' ∉ s.toList := by
  obtain ⟨-, hclean, hreach⟩ := Tree.resolve_eq_ok_iff.mp (Tree.find_eq_ok_iff.mp hf).1
  rw [Tree.walkStart_absolute hdir] at hreach
  exact ⟨hreach, fun s hs hnul => hclean ((Path.mem_text_iff (by decide)).mpr ⟨s, hs, hnul⟩)⟩

/-- Where a path along the way is listed, the place that it leads to can be read. -/
theorem list_of_above (hread : ReadableAlong t base dir) {here : Path} {p : Place} {mode : Nat}
    (hfront : here.segments <+: dir.segments)
    (hreach : Tree.Reaches t true Tree.maxLinks [] here.segments p)
    (hf : t.find base here = .ok (p, .dir mode)) : t.list base here = .ok (t.namesIn p) := by
  have habove := hread.above here.segments ((List.mem_inits _ _).mpr hfront)
  obtain ⟨names, hnames⟩ : ∃ names, t.list base (Path.ofPlace here.segments) = .ok names := by
    cases hl : t.list base (Path.ofPlace here.segments) with
    | ok names => exact ⟨names, rfl⟩
    | error e => rw [hl] at habove; cases habove
  obtain ⟨p', mode', hf', hmode, -⟩ := Tree.list_eq_ok_iff.mp hnames
  have hreach' := Tree.reaches_segments (Tree.find_eq_ok_iff.mp hf').1
  rw [Tree.walkStart_absolute (Path.isAbsolute_ofPlace _),
    Path.segments_ofPlace fun _ hs => Path.of_mem_segments hs] at hreach'
  obtain rfl := hreach.unique hreach'
  obtain rfl : mode = mode' := by
    have hsame := (Tree.find_eq_ok_iff.mp hf).2.symm.trans (Tree.find_eq_ok_iff.mp hf').2
    simpa using hsame
  exact Tree.list_eq_ok_iff.mpr ⟨p, mode, hf, hmode, rfl⟩

/-- A step of a walk that goes on is there. -/
theorem mem_namesIn_of_reaches {p q : Place} {links : Nat} {step : String} {more : List String}
    (hr : Tree.Reaches t true links p (step :: more) q) (hq : (t.lookup q).isSome = true)
    (hd : step ≠ ".") (hdd : step ≠ "..") : step ∈ t.namesIn p := by
  rw [Tree.mem_namesIn, ← Option.isSome_iff_exists]
  cases hr with
  | stay _ _ => exact absurd rfl hd
  | up _ _ => exact absurd rfl hdd
  | down _ _ _ hr => exact hr.lookup_isSome hq
  | halt _ _ _ hf => cases hf
  | link _ _ hl _ _ => rw [hl]; rfl

variable {here : Path} {step : String} {rest : List String}

/-- On the way to a directory one stands in a directory, from where the rest of the way goes on. -/
theorem Toward.stand (hw : Toward dir here (step :: rest)) (hdir : dir.isAbsolute = true)
    (hf : t.find base dir = .ok (place, node)) :
    ∃ p mode first more links, t.find base here = .ok (p, .dir mode) ∧ t.Searchable p ∧
      Tree.Reaches t true Tree.maxLinks [] here.segments p ∧
      Tree.walkSteps dir = here.segments ++ first :: more ∧
      Tree.Reaches t true links p (first :: more) place ∧ (step ≠ "" → first = step) := by
  obtain ⟨hreach, hclean⟩ := reaches_of_find hdir hf
  obtain ⟨first, more, hsteps, hfirst⟩ := hw.walkSteps_eq
  rw [hsteps] at hreach
  obtain ⟨p, links, hfront, hrest⟩ := hreach.split
  obtain ⟨mode, hmode, -⟩ := hrest.searchable
  have hbegins : here.segments <+: dir.segments := ⟨_, hw.segments⟩
  have hhere : t.find base here = .ok (p, .dir mode) :=
    Tree.find_of_reaches hw.absolute (fun s hs => hclean s (hbegins.subset hs)) hfront hmode
      fun _ => hrest.searchable
  exact ⟨p, mode, first, more, links, hhere, hrest.searchable, hfront, hsteps, hrest, hfirst⟩

/-- The next path on the way is reached. -/
theorem Toward.reaches_next (hw : Toward dir here (step :: rest)) (hdir : dir.isAbsolute = true)
    (hf : t.find base dir = .ok (place, node)) :
    ∃ p n, Tree.Reaches t true Tree.maxLinks [] (here.join step).segments p ∧
      t.lookup p = some n ∧ ((here.join step).endsInSlash = true → t.Searchable p) := by
  obtain ⟨p, mode, first, more, links, hhere, hsearch, hfront, hsteps, -, hfirst⟩ :=
    hw.stand hdir hf
  by_cases he : step = ""
  · have hsegments : (here.join step).segments = here.segments := by
      rw [hw.segments_join, he]
      simp
    exact ⟨p, _, hsegments ▸ hfront, (Tree.find_eq_ok_iff.mp hhere).2, fun _ => hsearch⟩
  · obtain rfl := hfirst he
    have hsegments : (here.join first).segments = here.segments ++ [first] := by
      rw [hw.segments_join, List.filter_cons_of_pos (by simpa using he)]
      rfl
    have hsplit : Tree.walkSteps dir = (here.join first).segments ++ more := by
      rw [hsteps, hsegments, List.append_assoc]
      rfl
    have hreach := (reaches_of_find hdir hf).1
    rw [hsplit] at hreach
    obtain ⟨q, links', hq, hmore⟩ := hreach.split
    have hnode : (t.lookup place).isSome = true := by rw [(Tree.find_eq_ok_iff.mp hf).2]; rfl
    obtain ⟨n, hn⟩ := Option.isSome_iff_exists.mp (hmore.lookup_isSome hnode)
    refine ⟨q, n, hq, hn, fun hends => ?_⟩
    rw [Path.endsInSlash_join_step here he (hw.no_slash first List.mem_cons_self)] at hends
    cases hends

/-- So it leads to something. -/
theorem Toward.isThere (hw : Toward dir here (step :: rest)) (hdir : dir.isAbsolute = true)
    (hf : t.find base dir = .ok (place, node)) : isThere t base (here.join step) = true := by
  obtain ⟨p, n, hreach, hn, hends⟩ := hw.reaches_next hdir hf
  have hnext := hw.next
  have hbegins : (here.join step).segments <+: dir.segments := ⟨_, hnext.segments⟩
  have hnul : ∀ s ∈ (here.join step).segments, '\x00' ∉ s.toList :=
    fun s hs => (reaches_of_find hdir hf).2 s (hbegins.subset hs)
  unfold Project.isThere Tree.pathExists
  rw [Tree.find_of_reaches hnext.absolute hnul hreach hn hends]
  rfl

/-- On the way to a readable directory every written step leads on. -/
theorem elfStep_of_toward (hw : Toward dir here (step :: rest)) (hdir : dir.isAbsolute = true)
    (hf : t.find base dir = .ok (place, node)) (hread : ReadableAlong t base dir) :
    elfStep t base here step = some (here.join step) := by
  have hnode : (t.lookup place).isSome = true := by rw [(Tree.find_eq_ok_iff.mp hf).2]; rfl
  obtain ⟨p, mode, first, more, links, hhere, -, hfront, -, hrest, hfirst⟩ := hw.stand hdir hf
  unfold elfStep
  simp only [seenFrom_absolute hw.absolute]
  refine if_pos ?_
  by_cases hdots : (step = "." || step = "..") = true
  · rw [if_pos hdots]
    unfold Tree.isDir
    rw [hhere]
  · rw [if_neg hdots]
    rw [Bool.or_eq_true, decide_eq_true_iff, decide_eq_true_iff, not_or] at hdots
    by_cases hwild : hasWildcard step = true
    · -- a wildcard character has to be seen in the listing
      have hne : step ≠ "" := by
        rintro rfl
        cases hwild
      obtain rfl := hfirst hne
      rw [if_pos hwild, list_of_above hread ⟨_, hw.segments⟩ hfront hhere]
      exact List.contains_iff_mem.mpr (mem_namesIn_of_reaches hrest hnode hdots.1 hdots.2)
    · rw [if_neg hwild]
      exact hw.isThere hdir hf

/-- The walk ends at the directory, whatever characters its path holds. -/
theorem elfSteps_reach (hw : Toward dir here rest) (hdir : dir.isAbsolute = true)
    (hf : t.find base dir = .ok (place, node)) (hread : ReadableAlong t base dir) :
    ∃ last, rest.foldlM (elfStep t base) here = some last ∧ Toward dir last [] := by
  induction rest generalizing here with
  | nil => exact ⟨here, rfl, hw⟩
  | cons step rest ih =>
    obtain ⟨last, hlast, hto⟩ := ih hw.next
    refine ⟨last, ?_, hto⟩
    rw [List.foldlM_cons, elfStep_of_toward hw hdir hf hread]
    exact hlast

/-- At the end of the way one finds what the path of the directory leads to. -/
theorem Toward.find_eq {last : Path} (hw : Toward dir last []) (hdir : dir.isAbsolute = true)
    (hf : t.find base dir = .ok (place, node)) : t.find base last = .ok (place, node) := by
  obtain ⟨hreach, hclean⟩ := reaches_of_find hdir hf
  have hsegments : last.segments = dir.segments := by simpa using hw.segments
  have hplace := Tree.reaches_segments (Tree.find_eq_ok_iff.mp hf).1
  rw [Tree.walkStart_absolute hdir, ← hsegments] at hplace
  refine Tree.find_of_reaches hw.absolute (hsegments ▸ hclean) hplace
    (Tree.find_eq_ok_iff.mp hf).2 fun hends => ?_
  unfold Tree.walkSteps at hreach
  rw [if_pos (hw.here_ends hends rfl)] at hreach
  obtain ⟨p, links, hp, hstay⟩ := hreach.split
  have hsearch := hstay.searchable
  cases hstay.of_stay
  exact hsearch

end

/-! ## The choice -/

/-- The path is written as an entry of that name in the directory, up to doubled slashes, and leads
to that entry in every tree. -/
structure IsEntryOf (dir : Path) (name : String) (p : Path) : Prop where
  absolute : p.isAbsolute = true
  segments : p.segments = dir.segments ++ [name]
  same : ∀ (t : Tree) (base : Place) (follow : Bool),
    t.find base p follow = t.find base (dir.join name) follow

theorem isEntryOf_join {dir last : Path} {name : String} (hdir : dir.isAbsolute = true)
    (hlast : last.isAbsolute = true) (hs : last.segments = dir.segments)
    (hn : Path.IsPlain name) : IsEntryOf dir name (last.join name) := by
  have hsegments (p : Path) : (p.join name).segments = p.segments ++ [name] := by
    rw [Path.segments_join p (Path.head_ne_slash hn.no_slash), hn.segments]
  refine ⟨Path.isAbsolute_join hlast name, by rw [hsegments, hs], fun t base follow => ?_⟩
  refine Tree.find_eq_of_segments (Path.isAbsolute_join hdir name)
    (Path.isAbsolute_join hlast name) ?_ ?_
  · rw [hsegments, hsegments, hs]
  · rw [Path.endsInSlash_join last hn, Path.endsInSlash_join dir hn]

/-- The choice among the names of a directory: the first candidate, or the first name that ends in
`.elf` where there is no candidate, or nothing where there is neither. -/
inductive Chooses (t : Tree) (base : Place) (dir : Path) (names : List String) :
    Option Path → Prop
  | candidate {name : String} (hn : FirstName names (IsCandidate t base dir) name) :
      Chooses t base dir names (some (dir.join name))
  | elf {name : String} {p : Path} (hno : ∀ n ∈ names, ¬ IsCandidate t base dir n)
      (hn : FirstName names IsElf name) (hp : IsEntryOf dir name p) :
      Chooses t base dir names (some p)
  | nothing (hno : ∀ n ∈ names, ¬ IsCandidate t base dir n ∧ ¬ IsElf n) :
      Chooses t base dir names none

section

variable {t : Tree} {base : Place} {dir : Path}

/-- Both searches are over the names of the directory. -/
theorem findBinary_eq (hdir : dir.isAbsolute = true) (hread : ReadableAlong t base dir) :
    ∃ (place : Place) (last : Path), t.resolve base dir = .ok place ∧
      t.list base dir = .ok (t.namesIn place) ∧
      last.isAbsolute = true ∧ last.segments = dir.segments ∧
      findBinary t base dir =
        (((t.namesIn place).find? (isBinary t base dir)).map dir.join).or
          (((t.namesIn place).find? (endsWith · ".elf")).map last.join) := by
  obtain ⟨names, hnames⟩ : ∃ names, t.list base dir = .ok names := by
    have hown := hread.own
    cases hl : t.list base dir with
    | ok names => exact ⟨names, rfl⟩
    | error e => rw [hl] at hown; cases hown
  obtain ⟨place, mode, hf, hmode, rfl⟩ := Tree.list_eq_ok_iff.mp hnames
  obtain ⟨last, hlast, hto⟩ := elfSteps_reach (.start hdir) hdir hf hread
  have hlist : t.list base last = .ok (t.namesIn place) :=
    Tree.list_eq_ok_iff.mpr ⟨place, mode, hto.find_eq hdir hf, hmode, rfl⟩
  refine ⟨place, last, (Tree.find_eq_ok_iff.mp hf).1, hnames, hto.absolute,
    by simpa using hto.segments, ?_⟩
  have helf : findElf t base dir =
      ((t.namesIn place).find? (endsWith · ".elf")).map last.join := by
    have hstart : (⟨if dir.isAbsolute then "/" else "."⟩ : Path) = ⟨"/"⟩ := by rw [if_pos hdir]
    unfold findElf
    dsimp only
    rw [hstart, hlast]
    show ((t.list base last).toOption >>= fun names => names.find? (endsWith · ".elf") >>=
      fun name => some (seenFrom last name)) = _
    rw [hlist]
    show ((t.namesIn place).find? (endsWith · ".elf") >>= fun name => some (seenFrom last name)) = _
    cases (t.namesIn place).find? (endsWith · ".elf") with
    | none => rfl
    | some name => exact congrArg some (seenFrom_absolute hto.absolute name)
  unfold findBinary
  rw [hnames, helf]
  simp only [Except.toOption, Option.getD_some]
  cases (t.namesIn place).find? (isBinary t base dir) <;> rfl

theorem chooses_findBinary {names : List String} {last : Path} (hdir : dir.isAbsolute = true)
    (hasc : names.Pairwise (· < ·)) (hplain : ∀ n ∈ names, Path.IsPlain n)
    (hlast : last.isAbsolute = true) (hsegments : last.segments = dir.segments) :
    Chooses t base dir names (((names.find? (isBinary t base dir)).map dir.join).or
      ((names.find? (endsWith · ".elf")).map last.join)) := by
  cases hbinary : names.find? (isBinary t base dir) with
  | some name => exact .candidate (firstName_of_find? hasc (fun n => isBinary_iff) hbinary)
  | none =>
    have hno := not_of_find?_eq_none (fun n => isBinary_iff) hbinary
    cases helf : names.find? (endsWith · ".elf") with
    | some name =>
      have hfirst := firstName_of_find? hasc (fun n => isElf_iff) helf
      exact .elf hno hfirst (isEntryOf_join hdir hlast hsegments (hplain name hfirst.mem))
    | none =>
      have hnoElf := not_of_find?_eq_none (fun n => isElf_iff) helf
      exact .nothing fun n hn => ⟨hno n hn, hnoElf n hn⟩

end

/-- A directory with brackets in the name of the one above it; what may be executed in it is no test
binary by its name. -/
def bracketed : Tree :=
  (((Tree.empty.set ["a[1]"] (.dir 0o755)).set ["a[1]", "build"] (.dir 0o755)).set
    ["a[1]", "build", "app.elf"] (.file [] 0o644)).set ["a[1]", "build", "app.bin"]
      (.file [] 0o755)

theorem wellNamed_bracketed : bracketed.WellNamed :=
  (((Tree.wellNamed_empty.set (by decide) _).set (by decide) _).set (by decide) _).set
    (by decide) _

theorem readableAlong_bracketed : ReadableAlong bracketed [] ⟨"/a[1]/build"⟩ :=
  ⟨by decide +kernel, by decide +kernel⟩

theorem IsCandidate.isFile {t : Tree} {base : Place} {dir : Path} {name : String}
    (hn : IsCandidate t base dir name) : t.isFile base (dir.join name) = true := by
  obtain ⟨place, content, mode, hf, -⟩ := hn.program
  unfold Tree.isFile
  rw [hf]

section

variable {t : Tree} {base : Place} {dir : Path}

theorem FirstName.unique {names : List String} {Q : String → Prop} {m n : String}
    (hm : FirstName names Q m) (hn : FirstName names Q n) : m = n :=
  Text.encode_injective (List.le_antisymm (hm.least n hn.mem hn.holds) (hn.least m hm.mem hm.holds))

/-- Whatever is found and is no regular file comes from the second search, which looks at names
only. -/
theorem elf_of_not_isFile {p : Path} (hp : findBinary t base dir = some p)
    (hfile : t.isFile base p = false) :
    (∀ names, t.list base dir = .ok names → ∀ n ∈ names, ¬ IsCandidate t base dir n) ∧
      ∃ here names name, t.list base here = .ok names ∧ FirstName names IsElf name ∧
        p = seenFrom here name := by
  unfold findBinary at hp
  dsimp only at hp
  cases hbinary : ((t.list base dir).toOption.getD []).find? (isBinary t base dir) with
  | some name =>
    rw [hbinary] at hp
    obtain rfl := Option.some.inj hp
    rw [(isBinary_iff.mp (List.find?_some hbinary)).isFile] at hfile
    cases hfile
  | none =>
    rw [hbinary] at hp
    refine ⟨fun names hnames => ?_, ?_⟩
    · rw [hnames] at hbinary
      exact not_of_find?_eq_none (fun n => isBinary_iff) hbinary
    · obtain ⟨here, -, hhere⟩ := Option.bind_eq_some_iff.mp hp
      obtain ⟨names, hnames, hname⟩ := Option.bind_eq_some_iff.mp hhere
      obtain ⟨name, helf, hseen⟩ := Option.bind_eq_some_iff.mp hname
      have hlist : t.list base here = .ok names := by
        cases hl : t.list base here with
        | ok listed => rw [hl] at hnames; rw [Option.some.inj hnames]
        | error e => rw [hl] at hnames; cases hnames
      obtain ⟨place, rfl⟩ := Tree.list_eq_ok hlist
      exact ⟨here, _, name, hlist,
        firstName_of_find? (Tree.ascending_namesIn t place) (fun n => isElf_iff) helf,
        (Option.some.inj hseen).symm⟩

/-- What is chosen is a regular file exactly if there is a candidate, or the first name that ends in
`.elf` is that of a regular file. -/
theorem Chooses.isFile_iff {names : List String} {p : Path}
    (hc : Chooses t base dir names (some p)) :
    t.isFile base p = true ↔ (∃ n ∈ names, IsCandidate t base dir n) ∨
      ∃ n, FirstName names IsElf n ∧ t.isFile base (dir.join n) = true := by
  cases hc with
  | @candidate name hn => simp only [hn.holds.isFile, true_iff]; exact .inl ⟨name, hn.mem, hn.holds⟩
  | @elf name p hno hn hp =>
    have hsame : t.isFile base p = t.isFile base (dir.join name) := by
      unfold Tree.isFile
      rw [hp.same t base true]
    rw [hsame]
    constructor
    · intro hfile
      exact .inr ⟨name, hn, hfile⟩
    · rintro (⟨n, hmem, hcandidate⟩ | ⟨n, hfirst, hfile⟩)
      · exact absurd hcandidate (hno n hmem)
      · exact hn.unique hfirst ▸ hfile

/-- Something is chosen where there is something to choose. -/
theorem Chooses.isSome_iff {names : List String} {found : Option Path}
    (hc : Chooses t base dir names found) :
    found.isSome = true ↔ ∃ n ∈ names, IsCandidate t base dir n ∨ IsElf n := by
  cases hc with
  | @candidate name hn => simpa using ⟨name, hn.mem, .inl hn.holds⟩
  | @elf name p hno hn hp => simpa using ⟨name, hn.mem, .inr hn.holds⟩
  | nothing hno => simpa [not_or] using hno

/-- Whatever is found and is no regular file, in whatever directory, is the first entry by name that
ends in `.elf` where nothing is a candidate. In an absolute directory that can be read, as can those
above it, a binary is found exactly if there is a candidate or a name that ends in `.elf`; it is a
regular file exactly if there is a candidate or the first of these names is that of one. -/
theorem findBinary_isFile_iff (t : Tree) (base : Place) (dir : Path) :
    (∀ p, findBinary t base dir = some p → t.isFile base p = false →
      (∀ names, t.list base dir = .ok names → ∀ n ∈ names, ¬ IsCandidate t base dir n) ∧
        ∃ here names name, t.list base here = .ok names ∧ FirstName names IsElf name ∧
          p = seenFrom here name) ∧
    (dir.isAbsolute = true → ReadableAlong t base dir → t.WellNamed →
      ∃ names, t.list base dir = .ok names ∧
        ((findBinary t base dir).isSome = true ↔
          ∃ n ∈ names, IsCandidate t base dir n ∨ IsElf n) ∧
        ∀ p, findBinary t base dir = some p → (t.isFile base p = true ↔
          (∃ n ∈ names, IsCandidate t base dir n) ∨
            ∃ n, FirstName names IsElf n ∧ t.isFile base (dir.join n) = true)) := by
  refine ⟨fun p hp hfile => elf_of_not_isFile hp hfile, fun hdir hread ht => ?_⟩
  obtain ⟨place, last, -, hnames, hlast, hsegments, heq⟩ := findBinary_eq hdir hread
  have hchooses : Chooses t base dir (t.namesIn place) (findBinary t base dir) := by
    rw [heq]
    exact chooses_findBinary hdir (Tree.ascending_namesIn t place)
      (fun n hn => ht.of_mem_namesIn hn) hlast hsegments
  exact ⟨_, hnames, hchooses.isSome_iff, fun p hp => (hp ▸ hchooses).isFile_iff⟩

end

theorem findBinary_isFile_iff_bracketed :
    ∃ names, bracketed.list [] ⟨"/a[1]/build"⟩ = .ok names ∧
      bracketed.isFile [] ⟨"/a[1]/build/app.elf"⟩ = true ∧
      ((∃ n ∈ names, IsCandidate bracketed [] ⟨"/a[1]/build"⟩ n) ∨ ∃ n, FirstName names IsElf n ∧
        bracketed.isFile [] ((⟨"/a[1]/build"⟩ : Path).join n) = true) := by
  obtain ⟨names, hnames, -, hfile⟩ := (findBinary_isFile_iff bracketed [] ⟨"/a[1]/build"⟩).2
    (by decide) readableAlong_bracketed wellNamed_bracketed
  have hregular : bracketed.isFile [] ⟨"/a[1]/build/app.elf"⟩ = true := by decide +kernel
  exact ⟨names, hnames, hregular, (hfile _ (by decide +kernel)).mp hregular⟩

/-- A build directory with a directory `a.elf` and a regular file `z_test.elf` in it. -/
def elfDirectory : Tree :=
  (((Tree.empty.set ["b"] (.dir 0o755)).set ["b", "build"] (.dir 0o755)).set
    ["b", "build", "a.elf"] (.dir 0o755)).set ["b", "build", "z_test.elf"] (.file [] 0o644)

/-- The directory is found although there is a regular file that ends in `.elf`, and it is what a
run of the project executes. -/
theorem elf_directory_executed :
    findBinary elfDirectory [] ⟨"/b/build"⟩ = some ⟨"/b/build/a.elf"⟩ ∧
      elfDirectory.isFile [] ⟨"/b/build/a.elf"⟩ = false ∧
      elfDirectory.isFile [] ⟨"/b/build/z_test.elf"⟩ = true ∧
      (Suite.runProject { runner := fun _ _ t => ⟨.ok ⟨true, 0, "", "", 0, none⟩, t, []⟩ } {} false
        (inDir ⟨"/b"⟩ "build") ⟨elfDirectory, [], 0⟩).2.commands.getLast? =
          some (Suite.testCommand (inDir ⟨"/b"⟩ "build") ⟨"/b/build/a.elf"⟩) :=
  ⟨by decide +kernel, by decide +kernel, by decide +kernel, by decide +kernel⟩

end HostSuite.Project
