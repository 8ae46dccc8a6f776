import Mathlib.Data.List.Forall2
import Mathlib.Data.List.TakeWhile
import HostSuite.CommandLine.Parse

/-
  Reading the words of options. An `Item` is an option with its value, and it is spelled in one or
  two words (`Spells`). A level that has read some items has set what they say (`settingsOf`);
  reading the words of one more item sets one more (`Reader.item`), if it is not one that may be
  there once and already is. So a level reads any items in any order (`Reader.items`).
-/

namespace HostSuite.CommandLine

/-- An option as it is chosen. -/
inductive Item
  | root (dir : String)
  | verbose
  | noColor
  | project (name : String)
  | clean
  | keepGoing
  | openPage
  | percent (text : String)
  deriving DecidableEq, Repr

namespace Item

def opt : Item → Opt
  | root _ => .root
  | verbose => .verbose
  | noColor => .noColor
  | project _ => .project
  | clean => .clean
  | keepGoing => .keepGoing
  | openPage => .openPage
  | percent _ => .failUnder

def value? : Item → Option String
  | root v | project v | percent v => some v
  | _ => none

def root? : Item → Option String
  | root dir => some dir
  | _ => none

def project? : Item → Option String
  | project name => some name
  | _ => none

/-- The number that a text stands for. -/
def percent? : Item → Option Number.Binary64
  | percent text => (Number.readBinary64 text).toOption
  | _ => none

/-- A root has a name, and a percentage is a number. -/
def Readable : Item → Prop
  | root dir => dir ≠ ""
  | percent text => ∃ x, Number.readBinary64 text = .ok x
  | _ => True

end Item

/-- The words of an item: the value after an equals sign, or as a word of its own if it does not
begin with a dash. -/
inductive Spells (i : Item) : List String → Prop
  | bare (hv : i.value? = none) : Spells i ["--" ++ i.opt.long]
  | attached {v : String} (hv : i.value? = some v) : Spells i ["--" ++ i.opt.long ++ "=" ++ v]
  | apart {v : String} (hv : i.value? = some v) (hd : v.toList.head? ≠ some '-') :
      Spells i ["--" ++ i.opt.long, v]

/-- What items set on a level. -/
def settingsOf (items : List Item) : Settings where
  root := items.findSome? Item.root?
  verbose := items.contains .verbose
  noColor := items.contains .noColor
  clean := items.contains .clean
  keepGoing := items.contains .keepGoing
  openPage := items.contains .openPage
  failUnder := items.findSome? Item.percent?
  projects := items.filterMap Item.project?

/-- Acts on an item. -/
def Settings.act (l : Level) (s : Settings) (i : Item) : Except Refusal Settings :=
  match i.value? with
  | none => s.flag l i.opt
  | some v => s.value i.opt v

theorem Settings.act_of_flag {l : Level} {s : Settings} {i : Item} (hv : i.value? = none) :
    s.act l i = s.flag l i.opt := by
  unfold Settings.act
  rw [hv]

theorem Settings.act_of_value {s : Settings} {i : Item} {v : String} (l : Level)
    (hv : i.value? = some v) : s.act l i = s.value i.opt v := by
  unfold Settings.act
  rw [hv]

/-- Nothing but a project may be there twice. -/
def Fresh (items : List Item) (i : Item) : Prop :=
  i.opt ≠ .project → i.opt ∉ items.map Item.opt

section

variable {items : List Item} {i : Item}

theorem Fresh.not_mem (hf : Fresh items i) (hi : i.opt ≠ .project) : i ∉ items :=
  fun hm => hf hi (List.mem_map.mpr ⟨i, hm, rfl⟩)

theorem findSome?_root_of_fresh {dir : String} (hf : Fresh items (.root dir)) :
    items.findSome? Item.root? = none := by
  refine List.findSome?_eq_none_iff.mpr fun j hj => ?_
  cases j with
  | root d => exact absurd (List.mem_map.mpr ⟨_, hj, rfl⟩) (hf nofun)
  | _ => rfl

theorem findSome?_percent_of_fresh {text : String} (hf : Fresh items (.percent text)) :
    items.findSome? Item.percent? = none := by
  refine List.findSome?_eq_none_iff.mpr fun j hj => ?_
  cases j with
  | percent d => exact absurd (List.mem_map.mpr ⟨_, hj, rfl⟩) (hf nofun)
  | _ => rfl

/-- One more item sets one more thing. -/
theorem act_settingsOf (l : Level) (hi : i.Readable) (hf : Fresh items i) :
    (settingsOf items).act l i = .ok (settingsOf (items ++ [i])) := by
  have hnot := hf.not_mem
  cases i with
  | root dir =>
    have hdir : dir ≠ "" := hi
    have hnone := findSome?_root_of_fresh hf
    simp [Settings.act, Item.value?, Item.opt, Settings.value, settingsOf, hnone,
      Settings.readRoot, hdir, Except.map, Item.root?, Item.percent?, Item.project?]
  | percent text =>
    obtain ⟨x, hx⟩ := hi
    have hnone := findSome?_percent_of_fresh hf
    simp [Settings.act, Item.value?, Item.opt, Settings.value, settingsOf, hnone,
      Settings.readPercent, hx, Except.map, Except.mapError, Item.root?, Item.percent?,
      Item.project?, Except.toOption]
  | project name =>
    simp [Settings.act, Item.value?, Item.opt, Settings.value, settingsOf, Item.root?,
      Item.percent?, Item.project?]
  | _ =>
    have hnot := hnot nofun
    simp [Settings.act, Item.value?, Item.opt, Settings.flag, Settings.setFlag, settingsOf, hnot,
      Item.root?, Item.percent?, Item.project?]

end

/-! ## Words -/

/-- Reading the words one after the other leads from one reader to the other. None of them stops the
reading of a level: each is no pair of dashes alone, and no command word unless a value is
awaited. -/
inductive Reads : Reader → List String → Reader → Prop
  | nil (r : Reader) : Reads r [] r
  | cons {r r₁ r' : Reader} {w : String} {ws : List String} (hw : r.word w = .ok r₁)
      (hd : w ≠ "--") (hc : r.isAwaiting = true ∨ isCommandWord w = false)
      (hrest : Reads r₁ ws r') : Reads r (w :: ws) r'

namespace Reads

variable {r r' r'' : Reader} {ws ws' : List String}

theorem append (h : Reads r ws r') (h' : Reads r' ws' r'') : Reads r (ws ++ ws') r'' := by
  induction h with
  | nil r => exact h'
  | cons hw hd hc _ ih => exact .cons hw hd hc (ih h')

theorem readUnder_eq (h : Reads r ws r') (rest : List String) :
    readUnder r (ws ++ rest) = readUnder r' rest := by
  induction h with
  | nil r => rfl
  | cons hw hd _ _ ih => rw [List.cons_append, readUnder, if_neg hd, hw, ← ih]

theorem readTop_eq (h : Reads r ws r') (rest : List String) :
    readTop r (ws ++ rest) = readTop r' rest := by
  induction h with
  | nil r => rfl
  | @cons r r₁ r' w ws hw hd hc _ ih =>
    have hhelp : (!r.isAwaiting && decide (w = helpWord)) = false := by
      obtain hc | hc := hc
      · simp [hc]
      · simp [(Bool.or_eq_false_iff.mp hc).2]
    have hword : (if r.isAwaiting then none else Word.ofText? w) = none := by
      obtain hc | hc := hc
      · rw [if_pos hc]
      · have hnone : Word.ofText? w = none := by
          simpa using (Bool.or_eq_false_iff.mp hc).1
        rw [hnone, ite_self]
    rw [List.cons_append, readTop, if_neg (by simpa using hhelp), hword]
    simp only [if_neg hd, hw, ih]

end Reads

/-! ## One item -/

theorem find?_long {l : Level} {o : Opt} (ho : o ∈ l.options) :
    l.options.find? (·.long = o.long) = some o := by
  revert ho
  cases l with
  | top => cases o <;> decide
  | under w => cases w <;> cases o <;> decide

theorem long_ne_nil (o : Opt) : o.long.toList ≠ [] := by
  cases o <;> decide

theorem equals_not_mem_long (o : Opt) : '=' ∉ o.long.toList := by
  cases o <;> decide

section

variable {cs vs : List Char} (hcs : '=' ∉ cs)

include hcs in
theorem ne_equals : ∀ c ∈ cs, decide (c ≠ '=') = true := by
  intro c hc
  rw [decide_eq_true_eq]
  rintro rfl
  exact hcs hc

include hcs in
theorem cutAtEquals_attached :
    Reader.cutAtEquals (cs ++ '=' :: vs) = (String.ofList cs, some (String.ofList vs)) := by
  unfold Reader.cutAtEquals
  rw [List.takeWhile_append_of_pos (ne_equals hcs), List.dropWhile_append_of_pos (ne_equals hcs)]
  simp

include hcs in
theorem cutAtEquals_bare : Reader.cutAtEquals cs = (String.ofList cs, none) := by
  unfold Reader.cutAtEquals
  rw [List.takeWhile_eq_self_iff.mpr (ne_equals hcs),
    List.dropWhile_eq_nil_iff.mpr (ne_equals hcs)]

end

theorem takesValue_opt (i : Item) : i.opt.takesValue = i.value?.isSome := by
  cases i <;> rfl

theorem dashed_ne {s w : String} (hw : w.toList.head? ≠ some '-') : "--" ++ s ≠ w := by
  rintro rfl
  simp at hw

theorem isCommandWord_dashed (s : String) : isCommandWord ("--" ++ s) = false := by
  have hword : Word.ofText? ("--" ++ s) = none := by
    refine List.find?_eq_none.mpr fun w _ => ?_
    rw [decide_eq_true_eq]
    refine (dashed_ne ?_).symm
    cases w <;> decide
  unfold isCommandWord
  rw [hword, decide_eq_false (dashed_ne (by decide))]
  rfl

theorem dashed_ne_dashes {s : String} (hs : s.toList ≠ []) : "--" ++ s ≠ "--" := by
  intro h
  have := congrArg String.toList h
  simp at this
  exact hs (by simp [this])

namespace Reader

variable {r : Reader} {items : List Item} {i : Item} {ws : List String} {v : String}

theorem word_dashed (s : String) : r.word ("--" ++ s) = r.long s.toList := by
  unfold word
  rw [String.toList_append]
  rfl

/-- The reader has read these items, and no value is awaited. -/
structure Has (r : Reader) (items : List Item) : Prop where
  settle : r.settle = .ok (settingsOf items)
  ready : r.isAwaiting = false

section

variable {cs : List Char} (hl : i.opt ∈ r.level.options)

include hl in
theorem long_flag (hcut : cutAtEquals cs = (i.opt.long, none)) (hv : i.value? = none) :
    r.long cs = r.actFlag i.opt := by
  simp only [long, hcut, find?_long hl, takesValue_opt, hv, Option.isSome_none]

include hl in
theorem long_value (hcut : cutAtEquals cs = (i.opt.long, some v)) (hv : i.value? = some v) :
    r.long cs = r.actValue i.opt v := by
  simp only [long, hcut, find?_long hl, takesValue_opt, hv, Option.isSome_some]

include hl in
theorem long_await (hcut : cutAtEquals cs = (i.opt.long, none)) (hv : i.value? = some v) :
    r.long cs = r.await i.opt := by
  simp only [long, hcut, find?_long hl, takesValue_opt, hv, Option.isSome_some]

end

theorem actFlag_eq (hr : r.Has items) (hv : i.value? = none) (hi : i.Readable)
    (hf : Fresh items i) : r.actFlag i.opt = .ok (r.settled (settingsOf (items ++ [i]))) := by
  unfold actFlag
  rw [hr.settle]
  show (do return r.settled (← (settingsOf items).flag r.level i.opt)) = _
  rw [← Settings.act_of_flag hv, act_settingsOf r.level hi hf]
  rfl

theorem actValue_eq (hr : r.Has items) (hv : i.value? = some v) (hi : i.Readable)
    (hf : Fresh items i) : r.actValue i.opt v = .ok (r.settled (settingsOf (items ++ [i]))) := by
  unfold actValue
  rw [hr.settle]
  show (do return r.settled (← (settingsOf items).value i.opt v)) = _
  rw [← Settings.act_of_value r.level hv, act_settingsOf r.level hi hf]
  rfl

theorem await_eq (hr : r.Has items) (o : Opt) :
    r.await o = .ok ⟨r.level, settingsOf items, .awaiting o⟩ := by
  unfold await
  rw [hr.settle]
  rfl

/-- A word that begins with no dash is the value that is awaited. -/
theorem word_awaited {l : Level} {s : Settings} {o : Opt} (hd : v.toList.head? ≠ some '-') :
    (Reader.mk l s (.awaiting o)).word v = .ok ⟨l, s, .held o v⟩ := by
  unfold word
  split
  · rename_i h
    simp [h] at hd
  · rename_i h
    simp [h] at hd
  · rfl

theorem has_settled : (r.settled (settingsOf items)).Has items := ⟨rfl, rfl⟩

/-- One more item. -/
theorem Has.item (hr : r.Has items) (hl : i.opt ∈ r.level.options) (hs : Spells i ws)
    (hi : i.Readable) (hf : Fresh items i) :
    ∃ r', Reads r ws r' ∧ r'.Has (items ++ [i]) ∧ r'.level = r.level := by
  have hlong := long_ne_nil i.opt
  have hname := cutAtEquals_bare (equals_not_mem_long i.opt)
  rw [String.ofList_toList] at hname
  cases hs with
  | bare hv =>
    refine ⟨_, .cons ?_ (dashed_ne_dashes hlong) (.inr (isCommandWord_dashed _)) (.nil _),
      has_settled, rfl⟩
    rw [word_dashed, long_flag hl hname hv]
    exact actFlag_eq hr hv hi hf
  | @attached v hv =>
    have hcut : cutAtEquals (i.opt.long ++ "=" ++ v).toList = (i.opt.long, some v) := by
      have := @cutAtEquals_attached _ v.toList (equals_not_mem_long i.opt)
      rw [String.ofList_toList, String.ofList_toList] at this
      rw [← this]
      simp
    have hword : "--" ++ i.opt.long ++ "=" ++ v = "--" ++ (i.opt.long ++ "=" ++ v) := by
      simp only [String.append_assoc]
    rw [hword]
    refine ⟨_, .cons ?_ (dashed_ne_dashes ?_) (.inr (isCommandWord_dashed _)) (.nil _),
      has_settled, rfl⟩
    · rw [word_dashed, long_value hl hcut hv]
      exact actValue_eq hr hv hi hf
    · simp [hlong]
  | @apart v hv hd =>
    have hawait : r.word ("--" ++ i.opt.long) =
        .ok ⟨r.level, settingsOf items, .awaiting i.opt⟩ := by
      rw [word_dashed, long_await hl hname hv]
      exact await_eq hr i.opt
    have hv' : v ≠ "--" := by
      rintro rfl
      exact hd rfl
    refine ⟨⟨r.level, settingsOf items, .held i.opt v⟩,
      .cons hawait (dashed_ne_dashes hlong) (.inr (isCommandWord_dashed _))
        (.cons (word_awaited hd) hv' (.inl rfl) (.nil _)), ⟨?_, rfl⟩, rfl⟩
    show (settingsOf items).value i.opt v = _
    rw [← Settings.act_of_value r.level hv, act_settingsOf r.level hi hf]

end Reader

/-! ## Any items -/

/-- Of two items with the same option both are projects. -/
def Apart (i j : Item) : Prop := i.opt = j.opt → i.opt = .project

theorem fresh_of_pairwise {front rest : List Item} {i : Item}
    (h : (front ++ i :: rest).Pairwise Apart) : Fresh front i := by
  obtain ⟨-, -, hbetween⟩ := List.pairwise_append.mp h
  intro hi hm
  obtain ⟨j, hj, hopt⟩ := List.mem_map.mp hm
  exact hi (hopt ▸ hbetween j hj i List.mem_cons_self hopt)

/-- A level reads items in any order. -/
theorem Reader.Has.items {r : Reader} {front items : List Item} {wss : List (List String)}
    (hr : r.Has front) (hs : List.Forall₂ Spells items wss)
    (hl : ∀ i ∈ items, i.opt ∈ r.level.options) (hi : ∀ i ∈ items, i.Readable)
    (ho : (front ++ items).Pairwise Apart) :
    ∃ r', Reads r wss.flatten r' ∧ r'.Has (front ++ items) ∧ r'.level = r.level := by
  induction hs generalizing r front with
  | nil => exact ⟨r, .nil r, by rwa [List.append_nil], rfl⟩
  | @cons i ws items wss hws _ ih =>
    obtain ⟨hli, hl⟩ := List.forall_mem_cons.mp hl
    obtain ⟨hii, hi⟩ := List.forall_mem_cons.mp hi
    obtain ⟨r₁, hread, hr₁, hlevel⟩ := hr.item hli hws hii (fresh_of_pairwise ho)
    rw [← List.singleton_append, ← List.append_assoc] at ho
    obtain ⟨r', hreads, hr', hlevel'⟩ := ih hr₁ (hlevel ▸ hl) hi ho
    refine ⟨r', hread.append hreads, ?_, hlevel'.trans hlevel⟩
    rwa [List.append_assoc] at hr'

end HostSuite.CommandLine
