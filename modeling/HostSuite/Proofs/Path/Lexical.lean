import Mathlib.Data.List.Induction
import HostSuite.Tree.Edit

/-
  Written paths, taken apart. The pieces of a text are what the library calls splitting it, so the
  segments of a joined path are the segments of both parts (`segments_join`) and the segments of the
  path of a place are its names (`segments_ofPlace`). A name that stands for itself (`IsPlain`) adds
  exactly itself to the place that a path names lexically (`lexical_join`).
-/

namespace HostSuite

theorem Text.pieces_eq_splitOn (sep : Char) (cs : List Char) :
    Text.pieces sep cs = cs.splitOn sep := by
  induction cs with
  | nil => rfl
  | cons c cs ih =>
    rw [Text.pieces, List.splitOn_cons_eq_if_modifyHead, ih]
    by_cases hc : c = sep
    · rw [if_pos hc, if_pos (by simpa using hc)]
    · rw [if_neg hc, if_neg (by simpa using hc)]
      cases hs : cs.splitOn sep with
      | nil => exact absurd hs (List.splitOn_ne_nil sep cs)
      | cons p ps => rfl

/-- No piece holds the separator. -/
theorem Text.not_mem_of_mem_pieces {sep : Char} {cs p : List Char} (hp : p ∈ Text.pieces sep cs) :
    sep ∉ p := by
  induction cs generalizing p with
  | nil => simp_all [Text.pieces]
  | cons c cs ih =>
    unfold Text.pieces at hp
    split at hp
    · obtain rfl | hp := List.mem_cons.mp hp
      · exact List.not_mem_nil
      · exact ih hp
    · rename_i hc
      split at hp
      · rw [List.mem_singleton.mp hp]
        simpa using Ne.symm hc
      · rename_i first rest hrest
        obtain rfl | hp := List.mem_cons.mp hp
        · have := ih (hrest ▸ List.mem_cons_self)
          simp [this, Ne.symm hc]
        · exact ih (hrest ▸ List.mem_cons_of_mem _ hp)

/-- Splitting loses nothing but the separators. -/
theorem Text.mem_pieces_iff {sep a : Char} (ha : a ≠ sep) {cs : List Char} :
    (∃ p ∈ Text.pieces sep cs, a ∈ p) ↔ a ∈ cs := by
  induction cs with
  | nil => simp [Text.pieces]
  | cons c cs ih =>
    unfold Text.pieces
    split
    · rename_i hc
      simp [ih, hc, ha]
    · split
      · rename_i hnil
        exact absurd hnil (Text.pieces_ne_nil sep cs)
      · rename_i first rest hrest
        rw [hrest] at ih
        simp only [List.mem_cons, exists_eq_or_imp] at ih ⊢
        rw [← ih, or_assoc]

/-- After a character that is no separator the last piece is not empty. -/
theorem Text.getLastD_pieces_concat (cs : List Char) {sep a : Char} (ha : a ≠ sep) :
    (Text.pieces sep (cs ++ [a])).getLastD [] ≠ [] := by
  induction cs with
  | nil => simp [Text.pieces, ha]
  | cons c cs ih =>
    rw [List.cons_append, Text.pieces]
    cases hps : Text.pieces sep (cs ++ [a]) with
    | nil => exact absurd hps (Text.pieces_ne_nil _ _)
    | cons p ps =>
      rw [hps] at ih
      split
      · simpa using ih
      · cases ps with
        | nil => simp
        | cons q qs => simpa using ih

namespace Path

/-- A text without slashes that is not empty and is no step in place or up. -/
structure IsPlain (name : String) : Prop where
  ne_empty : name ≠ ""
  no_slash : '/' ∉ name.toList
  ne_dot : name ≠ "."
  ne_dots : name ≠ ".."

theorem isPlain_iff {name : String} :
    IsPlain name ↔ name ≠ "" ∧ '/' ∉ name.toList ∧ name ≠ "." ∧ name ≠ ".." :=
  ⟨fun ⟨he, hs, hd, hdd⟩ => ⟨he, hs, hd, hdd⟩, fun ⟨he, hs, hd, hdd⟩ => ⟨he, hs, hd, hdd⟩⟩

instance : DecidablePred IsPlain := fun _ => decidable_of_iff _ isPlain_iff.symm

theorem head_ne_slash {child : String} (hc : '/' ∉ child.toList) :
    child.toList.head? ≠ some '/' :=
  fun he => hc (List.mem_of_head? he)

/-- What is joined comes last. -/
theorem text_join (p : Path) (child : String) : ∃ front, (p.join child).text = front ++ child := by
  unfold join
  split
  · exact ⟨"", by simp⟩
  · split
    · exact ⟨p.text, rfl⟩
    · exact ⟨p.text ++ "/", rfl⟩

/-- Joining a text without a slash in front drops nothing. -/
theorem mem_text_join {p : Path} {child : String} (hc : child.toList.head? ≠ some '/') {a : Char}
    (ha : a ∈ p.text.toList) : a ∈ (p.join child).text.toList := by
  unfold join
  rw [if_neg hc]
  split <;> simp [ha]

theorem segments_eq (p : Path) :
    p.segments = ((p.text.toList.splitOn '/').map String.ofList).filter (· ≠ "") := by
  unfold segments Text.splitAt
  rw [Text.pieces_eq_splitOn]

/-- The path that is joined to ends in a slash, is empty, or gets a slash; the segments between
the slashes stay the same. -/
theorem segments_join (p : Path) {child : String} (hc : child.toList.head? ≠ some '/') :
    (p.join child).segments = p.segments ++ (⟨child⟩ : Path).segments := by
  have hslash (front : List Char) :
      ((front ++ '/' :: child.toList).splitOn '/').map String.ofList =
        (front.splitOn '/').map String.ofList ++
          (child.toList.splitOn '/').map String.ofList := by
    rw [List.splitOn_append_cons_self, List.map_append]
  simp only [segments_eq]
  unfold join
  rw [if_neg hc]
  by_cases he : p.text.toList = []
  · simp [he]
  · by_cases hl : p.text.toList.getLast? = some '/'
    · obtain ⟨front, hf⟩ := List.getLast?_eq_some_iff.mp hl
      rw [if_pos (by simp [hl]), String.toList_append, hf, List.append_assoc]
      have := hslash front
      rw [List.singleton_append, this, List.splitOn_append_cons_self]
      simp
    · rw [if_neg (by simp [he, hl])]
      have := hslash p.text.toList
      simp only [String.toList_append]
      rw [List.append_assoc, show "/".toList ++ child.toList = '/' :: child.toList from rfl, this,
        List.filter_append]

theorem of_mem_segments {p : Path} {s : String} (hs : s ∈ p.segments) :
    s ≠ "" ∧ '/' ∉ s.toList := by
  unfold segments Text.splitAt at hs
  obtain ⟨hm, hne⟩ := List.mem_filter.mp hs
  obtain ⟨cs, hcs, rfl⟩ := List.mem_map.mp hm
  refine ⟨by simpa using hne, ?_⟩
  rw [String.toList_ofList]
  exact Text.not_mem_of_mem_pieces hcs

/-- Apart from slashes a path holds what its segments hold. -/
theorem mem_text_iff {p : Path} {a : Char} (ha : a ≠ '/') :
    a ∈ p.text.toList ↔ ∃ s ∈ p.segments, a ∈ s.toList := by
  rw [← Text.mem_pieces_iff ha]
  unfold segments Text.splitAt
  constructor
  · rintro ⟨piece, hp, hmem⟩
    refine ⟨String.ofList piece, ?_, by simpa using hmem⟩
    refine List.mem_filter.mpr ⟨List.mem_map_of_mem hp, ?_⟩
    simpa using List.ne_nil_of_mem hmem
  · rintro ⟨s, hs, hmem⟩
    obtain ⟨piece, hp, rfl⟩ := List.mem_map.mp (List.mem_filter.mp hs).1
    exact ⟨piece, hp, by simpa using hmem⟩

theorem segments_plain {name : String} (he : name ≠ "") (hs : '/' ∉ name.toList) :
    (⟨name⟩ : Path).segments = [name] := by
  rw [segments_eq, List.splitOn_eq_singleton hs]
  simp [he]

theorem IsPlain.segments {name : String} (hn : IsPlain name) : (⟨name⟩ : Path).segments = [name] :=
  segments_plain hn.ne_empty hn.no_slash

/-- The place that a joined path names lexically, whatever the text without slashes is. -/
theorem lexical_join_step (p : Path) {child : String} (hs : '/' ∉ child.toList) :
    (p.join child).lexical = lexicalStep p.lexical child := by
  unfold lexical
  rw [segments_join p (head_ne_slash hs), List.foldl_append]
  by_cases he : child = ""
  · subst he
    simp [segments_eq, lexicalStep]
  · rw [segments_plain he hs]
    rfl

theorem lexical_join (p : Path) {name : String} (hn : IsPlain name) :
    (p.join name).lexical = p.lexical ++ [name] := by
  rw [lexical_join_step p hn.no_slash]
  unfold lexicalStep
  rw [if_neg (by simp [hn.ne_dot, hn.ne_empty]), if_neg hn.ne_dots]

/-- A path to which a name was joined ends in that name. -/
theorem fileName_join (p : Path) {name : String} (hn : IsPlain name) :
    (p.join name).fileName = some name := by
  unfold fileName steps
  rw [segments_join p (head_ne_slash hn.no_slash), hn.segments, List.filter_append,
    List.filter_cons_of_pos (by simp [hn.ne_dot])]
  simp [hn.ne_dots]

/-- Joining a text without slashes leaves an absolute path absolute. -/
theorem isAbsolute_join {p : Path} (hp : p.isAbsolute = true) (child : String) :
    (p.join child).isAbsolute = true := by
  unfold isAbsolute at hp ⊢
  rw [decide_eq_true_eq] at hp ⊢
  obtain ⟨cs, hcs⟩ := List.head?_eq_some_iff.mp hp
  unfold join
  split
  · assumption
  · split <;> simp [hcs]

/-- Joining a name to a path with a text leaves it absolute or not. -/
theorem isAbsolute_join_eq {p : Path} (he : p.text.toList ≠ []) {name : String}
    (hn : IsPlain name) : (p.join name).isAbsolute = p.isAbsolute := by
  obtain ⟨a, as, ha⟩ := List.exists_cons_of_ne_nil he
  unfold isAbsolute join
  rw [if_neg (head_ne_slash hn.no_slash)]
  split <;> simp [ha]

/-- A joined path holds nothing but its parts and a slash. -/
theorem of_mem_text_join {p : Path} {child : String} {a : Char}
    (ha : a ∈ (p.join child).text.toList) : a ∈ p.text.toList ∨ a ∈ child.toList ∨ a = '/' := by
  unfold join at ha
  split at ha
  · exact .inr (.inl ha)
  · split at ha
    · rw [String.toList_append, List.mem_append] at ha
      exact ha.imp_right .inl
    · simpa [or_comm, or_assoc] using ha

/-- A path to which a step was joined does not end in a slash. -/
theorem endsInSlash_join_step (p : Path) {step : String} (he : step ≠ "")
    (hs : '/' ∉ step.toList) : (p.join step).endsInSlash = false := by
  obtain ⟨front, hf⟩ := text_join p step
  have hne : step.toList ≠ [] := by simpa using he
  unfold endsInSlash
  rw [hf, String.toList_append, List.getLast?_append, List.getLast?_eq_some_getLast hne,
    Option.some_or, decide_eq_false_iff_not]
  intro hl
  exact hs (Option.some.inj hl ▸ List.getLast_mem hne)

theorem endsInSlash_join (p : Path) {name : String} (hn : IsPlain name) :
    (p.join name).endsInSlash = false :=
  endsInSlash_join_step p hn.ne_empty hn.no_slash

theorem withoutSlash_eq {p : Path} (hends : p.endsInSlash = false) : p.withoutSlash = p := by
  unfold endsInSlash at hends
  rw [decide_eq_false_iff_not, ← List.head?_reverse] at hends
  unfold withoutSlash
  split
  · rfl
  · cases hr : p.text.toList.reverse with
    | nil =>
      rw [List.reverse_eq_nil_iff] at hr
      rw [List.dropWhile_nil, List.reverse_nil, ← hr, String.ofList_toList]
    | cons last front =>
      rw [hr] at hends
      rw [List.dropWhile_cons_of_neg (by simpa using hends), ← hr, List.reverse_reverse,
        String.ofList_toList]

theorem withoutSlash_join (p : Path) {name : String} (hn : IsPlain name) :
    (p.join name).withoutSlash = p.join name :=
  withoutSlash_eq (endsInSlash_join p hn)

/-- A path is directly below another one, links not followed. -/
def IsChildOf (p q : Path) : Prop := ∃ name, p.lexical = q.lexical ++ [name]

/-- Joining a text without slashes leads to a child exactly if it is no step in place or up. -/
theorem join_isChildOf_iff (p : Path) {child : String} (he : child ≠ "")
    (hs : '/' ∉ child.toList) : (p.join child).IsChildOf p ↔ child ≠ "." ∧ child ≠ ".." := by
  constructor
  · rintro ⟨name, hname⟩
    rw [lexical_join_step p hs] at hname
    constructor
    · rintro rfl
      have := congrArg List.length hname
      simp [lexicalStep] at this
    · rintro rfl
      have := congrArg List.length hname
      simp [lexicalStep] at this
  · rintro ⟨hd, hdd⟩
    exact ⟨child, lexical_join p ⟨he, hs, hd, hdd⟩⟩

/-! ## The path of a place -/

theorem isAbsolute_ofPlace (names : List String) : (ofPlace names).isAbsolute = true := by
  unfold isAbsolute ofPlace
  simp

theorem segments_ofPlace {names : List String} (hn : ∀ n ∈ names, n ≠ "" ∧ '/' ∉ n.toList) :
    (ofPlace names).segments = names := by
  have htext : (ofPlace names).text.toList = [] ++ '/' :: ("/".intercalate names).toList := by
    simp [ofPlace]
  rw [segments_eq, htext, List.splitOn_append_cons_self]
  cases names with
  | nil => simp
  | cons name rest =>
    rw [String.toList_intercalate, show "/".toList = ['/'] from rfl,
      List.splitOn_intercalate '/' _ (by simp)]
    · have : (name :: rest).filter (· ≠ "") = name :: rest := by
        rw [List.filter_eq_self]
        intro n hm
        simpa using (hn n hm).1
      simpa using this
    · intro l hl
      obtain ⟨n, hm, rfl⟩ := List.mem_map.mp hl
      exact (hn n hm).2

theorem intercalate_concat {sep : String} {names : List String} (hne : names ≠ []) (name : String) :
    sep.intercalate (names ++ [name]) = sep.intercalate names ++ sep ++ name := by
  induction names with
  | nil => exact absurd rfl hne
  | cons first rest ih =>
    cases rest with
    | nil => simp
    | cons next rest =>
      rw [List.cons_append, List.cons_append, String.intercalate_cons_cons, ← List.cons_append,
        ih (by simp), String.intercalate_cons_cons]
      simp [String.append_assoc]

/-- A name joined to the path of a place gives the path of the name in it. By the last name, which
keeps the path from ending in a slash. -/
theorem join_ofPlace {names : List String} (hnames : ∀ n ∈ names, IsPlain n) {name : String}
    (hn : IsPlain name) : (ofPlace names).join name = ofPlace (names ++ [name]) := by
  induction names using List.reverseRecOn generalizing name with
  | nil =>
    unfold join ofPlace
    rw [if_neg (head_ne_slash hn.no_slash)]
    simp
  | append_singleton front last ih =>
    have hends : (ofPlace (front ++ [last])).endsInSlash = false := by
      rw [← ih (fun n hm => hnames n (by simp [hm])) (hnames last (by simp))]
      exact endsInSlash_join _ (hnames last (by simp))
    unfold endsInSlash at hends
    rw [decide_eq_false_iff_not] at hends
    unfold join
    rw [if_neg (head_ne_slash hn.no_slash), if_neg (by simpa [ofPlace] using hends)]
    have hconcat : "/".intercalate (front ++ [last] ++ [name]) =
        "/".intercalate (front ++ [last]) ++ "/" ++ name := intercalate_concat (by simp) name
    simp only [ofPlace, hconcat, String.append_assoc]

theorem endsInSlash_ofPlace {names : List String} (hnames : ∀ n ∈ names, IsPlain n)
    (hne : names ≠ []) : (ofPlace names).endsInSlash = false := by
  obtain ⟨front, last, rfl⟩ := List.eq_nil_or_concat names |>.resolve_left hne
  rw [List.concat_eq_append] at hnames ⊢
  rw [← join_ofPlace (fun n hm => hnames n (by simp [hm])) (hnames last (by simp))]
  exact endsInSlash_join _ (hnames last (by simp))

/-- The path of a place names it lexically. -/
theorem lexical_ofPlace {names : List String} (hn : ∀ n ∈ names, IsPlain n) :
    (ofPlace names).lexical = names := by
  unfold lexical
  rw [segments_ofPlace fun n hm => ⟨(hn n hm).ne_empty, (hn n hm).no_slash⟩]
  have (here : List String) : names.foldl lexicalStep here = here ++ names := by
    induction names generalizing here with
    | nil => simp
    | cons name names ih =>
      have hp := hn name List.mem_cons_self
      rw [List.foldl_cons, ih fun n hm => hn n (List.mem_cons_of_mem name hm)]
      simp [lexicalStep, hp.ne_dot, hp.ne_empty, hp.ne_dots]
  simpa using this []

end Path

end HostSuite
