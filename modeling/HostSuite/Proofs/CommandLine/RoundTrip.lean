import HostSuite.Proofs.CommandLine.Reading

/-
  Every way of writing a command line says the same. A `Choice` is a command with its options, and
  it is written as the words of its options around the command word: the shared ones on either side,
  the others behind, in any order but for the projects (`Choice.WrittenAs`). All these are read as
  the choice, and the environment gives a root only where none is written (`parse_written`).
-/

namespace HostSuite.CommandLine

/-- A command with its options as they are chosen. -/
structure Choice where
  word : Word
  root : Option String := none
  verbose : Bool := false
  noColor : Bool := false
  projects : List String := []
  clean : Bool := false
  keepGoing : Bool := false
  openPage : Bool := false
  percent : Option String := none

/-- The options that can be chosen. -/
def choosable : List Opt :=
  [.root, .verbose, .noColor, .project, .clean, .keepGoing, .openPage, .failUnder]

/-- The options that may stand in front of the command word. -/
def shared : List Opt := [.root, .verbose, .noColor]

namespace Choice

/-- What is chosen of an option. -/
def itemsOf (c : Choice) : Opt → List Item
  | .root => c.root.toList.map .root
  | .verbose => if c.verbose then [.verbose] else []
  | .noColor => if c.noColor then [.noColor] else []
  | .project => c.projects.map .project
  | .clean => if c.clean then [.clean] else []
  | .keepGoing => if c.keepGoing then [.keepGoing] else []
  | .openPage => if c.openPage then [.openPage] else []
  | .failUnder => c.percent.toList.map .percent
  | .help | .version => []

/-- All that is chosen. -/
def items (c : Choice) : List Item := choosable.flatMap c.itemsOf

/-- The command has the options, a root has a name, and a percentage is a number. -/
structure Valid (c : Choice) : Prop where
  options : ∀ i ∈ c.items, i.opt ∈ (Level.under c.word).options
  readable : ∀ i ∈ c.items, i.Readable

/-- The number that is chosen as threshold. -/
def failUnder (c : Choice) : Option Number.Binary64 :=
  c.percent.bind fun text => (Number.readBinary64 text).toOption

def request (c : Choice) : Request :=
  match c.word with
  | .test => .test ⟨c.clean, c.keepGoing⟩
  | .coverage => .coverage ⟨c.openPage, c.failUnder⟩
  | .run => .run ⟨c.clean, c.keepGoing⟩ ⟨c.openPage, c.failUnder⟩

/-- What the choice asks for; the environment may give a root where none is chosen. -/
def commandLine (c : Choice) (environment : Option String) : CommandLine where
  root := c.root <|> environment
  verbose := c.verbose
  noColor := c.noColor
  projects := c.projects
  request := c.request

/-- The words say the choice: each of its options once, the shared ones in front of the command word
or behind it, the others behind it, and the projects in their order. -/
def WrittenAs (c : Choice) (words : List String) : Prop :=
  ∃ front back fs bs, words = fs.flatten ++ c.word.text :: bs.flatten ∧
    List.Forall₂ Spells front fs ∧ List.Forall₂ Spells back bs ∧
    (front ++ back).Perm c.items ∧ (∀ i ∈ front, i.opt ∈ shared) ∧
    back.filterMap Item.project? = c.projects

variable {c : Choice} {i : Item} {o : Opt}

theorem opt_of_mem (hi : i ∈ c.itemsOf o) : i.opt = o := by
  cases o <;> simp [itemsOf] at hi
  case root | project | failUnder => obtain ⟨v, -, rfl⟩ := hi; rfl
  all_goals obtain ⟨-, rfl⟩ := hi; rfl

theorem mem_items : i ∈ c.items ↔ i ∈ c.itemsOf i.opt := by
  constructor
  · intro hi
    obtain ⟨o, -, hi⟩ := List.mem_flatMap.mp hi
    rwa [opt_of_mem hi]
  · refine fun hi => List.mem_flatMap.mpr ⟨i.opt, ?_, hi⟩
    cases i <;> simp [choosable, Item.opt]

/-- No option but that for projects is chosen twice. -/
theorem pairwise_items (c : Choice) : c.items.Pairwise Apart := by
  refine List.pairwise_flatMap.mpr ⟨fun o _ => ?_, ?_⟩
  · cases o with
    | project => exact List.pairwise_map.mpr (List.pairwise_of_forall fun _ _ _ => rfl)
    | root => cases hr : c.root <;> simp [itemsOf, hr]
    | failUnder => cases hp : c.percent <;> simp [itemsOf, hp]
    | help | version => exact .nil
    | verbose | noColor | clean | keepGoing | openPage =>
      simp only [itemsOf]
      split <;> simp
  · have hd : choosable.Nodup := by decide
    refine hd.imp fun hne i hi j hj hopt => ?_
    rw [opt_of_mem hi, opt_of_mem hj] at hopt
    exact absurd hopt hne

/-! ## What is set on the two levels -/

section

variable {α : Type} {front back : List Item} {f : Item → Option α} {x : Option α}

/-- What is chosen once is found on one of the levels. -/
theorem found (hall : ∀ i ∈ front ++ back, ∀ y, f i = some y → x = some y)
    (hex : ∀ y, x = some y → ∃ i ∈ front ++ back, f i = some y) :
    (back.findSome? f).or (front.findSome? f) = x := by
  cases hb : back.findSome? f with
  | some y =>
    obtain ⟨i, hi, hy⟩ := List.exists_of_findSome?_eq_some hb
    exact (hall i (List.mem_append_right _ hi) y hy).symm
  | none =>
    show front.findSome? f = x
    cases hf : front.findSome? f with
    | some y =>
      obtain ⟨i, hi, hy⟩ := List.exists_of_findSome?_eq_some hf
      exact (hall i (List.mem_append_left _ hi) y hy).symm
    | none =>
      cases x with
      | none => rfl
      | some y =>
        obtain ⟨i, hi, hy⟩ := hex y rfl
        rw [List.findSome?_eq_none_iff] at hb hf
        obtain hi | hi := List.mem_append.mp hi
        · rw [hf i hi] at hy; cases hy
        · rw [hb i hi] at hy; cases hy

variable (hp : (front ++ back).Perm c.items)

include hp

theorem root_found : (back.findSome? Item.root?).or (front.findSome? Item.root?) = c.root := by
  refine found (fun i hi y hy => ?_) fun y hy => ⟨.root y, hp.mem_iff.mpr ?_, rfl⟩
  · rw [hp.mem_iff, mem_items] at hi
    cases i with
    | root dir => simpa [Item.opt, itemsOf, Item.root?, ← hy] using hi
    | _ => cases hy
  · rw [mem_items]
    simpa [Item.opt, itemsOf] using hy

theorem percent_found :
    (back.findSome? Item.percent?).or (front.findSome? Item.percent?) = c.failUnder := by
  refine found (fun i hi y hy => ?_) fun y hy => ?_
  · rw [hp.mem_iff, mem_items] at hi
    cases i with
    | percent text =>
      have htext : c.percent = some text := by simpa [Item.opt, itemsOf] using hi
      unfold failUnder
      rw [htext]
      exact hy
    | _ => cases hy
  · obtain ⟨text, htext, hy⟩ := Option.bind_eq_some_iff.mp hy
    refine ⟨.percent text, hp.mem_iff.mpr (mem_items.mpr ?_), hy⟩
    simpa [Item.opt, itemsOf] using htext

theorem contains_iff (i : Item) :
    (front.contains i || back.contains i) = decide (i ∈ c.itemsOf i.opt) := by
  rw [Bool.eq_iff_iff, Bool.or_eq_true, List.contains_iff_mem, List.contains_iff_mem,
    ← List.mem_append, hp.mem_iff, mem_items, decide_eq_true_eq]

end

section

variable {front back : List Item} (hp : (front ++ back).Perm c.items)
  (hs : ∀ i ∈ front, i.opt ∈ shared)

include hs in
/-- What is not shared is not set in front of the command word. -/
theorem contains_front (hi : i.opt ∉ shared) : front.contains i = false := by
  rw [Bool.eq_false_iff, ne_eq, List.contains_iff_mem]
  exact fun hm => hi (hs i hm)

include hp hs in
theorem contains_back (hi : i.opt ∉ shared) :
    back.contains i = decide (i ∈ c.itemsOf i.opt) := by
  rw [← contains_iff hp, contains_front hs hi, Bool.false_or]

include hp hs in
theorem request_settingsOf : c.word.request (settingsOf back) = c.request := by
  have hpercent : back.findSome? Item.percent? = c.failUnder := by
    have hfront : front.findSome? Item.percent? = none := by
      refine List.findSome?_eq_none_iff.mpr fun i hi => ?_
      have := hs i hi
      cases i with
      | percent text => simp [Item.opt, shared] at this
      | _ => rfl
    rw [← percent_found hp, hfront, Option.or_none]
  have hclean := contains_back hp hs (i := .clean) (by decide)
  have hkeep := contains_back hp hs (i := .keepGoing) (by decide)
  have hopen := contains_back hp hs (i := .openPage) (by decide)
  simp only [Item.opt, itemsOf, List.mem_ite_nil_right, List.mem_singleton, and_true,
    Bool.decide_eq_true] at hclean hkeep hopen
  cases hw : c.word <;>
    simp only [Word.request, request, settingsOf, hw, hpercent, hclean, hkeep, hopen]

include hp hs in
/-- Both levels together are the choice. -/
theorem ofLevels_settingsOf (hprojects : back.filterMap Item.project? = c.projects)
    (environment : Option String) :
    ofLevels environment (settingsOf front) (settingsOf back) c.word =
      c.commandLine environment := by
  have hverbose := contains_iff hp .verbose
  have hcolor := contains_iff hp .noColor
  simp only [Item.opt, itemsOf, List.mem_ite_nil_right, List.mem_singleton, and_true,
    Bool.decide_eq_true] at hverbose hcolor
  have hroot : ((settingsOf back).root <|> (settingsOf front).root <|> environment) =
      (c.root <|> environment) := by
    rw [← root_found hp]
    unfold settingsOf
    cases back.findSome? Item.root? <;> cases front.findSome? Item.root? <;> rfl
  unfold ofLevels commandLine
  rw [hroot, request_settingsOf hp hs]
  show CommandLine.mk _ (front.contains .verbose || back.contains .verbose)
    (front.contains .noColor || back.contains .noColor) (back.filterMap Item.project?) _ = _
  rw [hverbose, hcolor, hprojects]

end

end Choice

/-! ## Both levels -/

section

variable {c : Choice} {words : List String} {environment : Option String}

theorem ofText?_text (w : Word) : Word.ofText? w.text = some w ∧ w.text ≠ helpWord := by
  cases w <;> decide

/-- A level that has read its items is finished with what they set. -/
theorem Reader.Has.finish {r : Reader} {items : List Item} (hr : r.Has items)
    (he : ∀ v ∈ environment, v ≠ "") : finish r environment = .ok (settingsOf items) := by
  have hcheck : checkEnvironment (settingsOf items) environment = .ok () := by
    unfold checkEnvironment
    split
    · rename_i v _
      simp [Settings.readRoot, he v rfl, Except.map]
    · rfl
  unfold CommandLine.finish
  rw [hr.settle]
  show (do checkEnvironment (settingsOf items) environment; return settingsOf items) = _
  rw [hcheck]
  rfl

/-- The command word ends the level in front of it. -/
theorem readTop_word {r : Reader} {items : List Item} (hr : r.Has items) (w : Word)
    (rest : List String) : readTop r (w.text :: rest) = .ok (r, some (w, rest)) := by
  obtain ⟨hword, hhelp⟩ := ofText?_text w
  have hnot : ¬((!r.isAwaiting && decide (w.text = helpWord)) = true) := by
    simp [hhelp]
  rw [readTop, if_neg hnot, hr.ready, if_neg Bool.false_ne_true, hword]

/-- Whatever way a choice is written, it is read as the choice. A root that is written, on either
side of the command word, wins over the one of the environment. -/
theorem parse_written (hc : c.Valid) (hw : c.WrittenAs words) (he : ∀ v ∈ environment, v ≠ "") :
    parse words environment = .ok (c.commandLine environment) := by
  obtain ⟨front, back, fs, bs, rfl, hfs, hbs, hp, hs, hprojects⟩ := hw
  have hmem : ∀ i ∈ front ++ back, i ∈ c.items := fun i hi => hp.mem_iff.mp hi
  have hpair : (front ++ back).Pairwise Apart :=
    (hp.pairwise_iff fun h hopt => hopt.trans (h hopt.symm)).mpr c.pairwise_items
  obtain ⟨hpf, hpb, -⟩ := List.pairwise_append.mp hpair
  have hstart (l : Level) : (Reader.mk l {} .nothing).Has [] := ⟨rfl, rfl⟩
  have hshared : ∀ i ∈ front, i.opt ∈ Level.top.options := fun i hi =>
    List.mem_of_mem_take (i := 3) (hs i hi)
  obtain ⟨r, hreads, hr, -⟩ := (hstart .top).items hfs hshared
    (fun i hi => hc.readable i (hmem i (List.mem_append_left _ hi))) hpf
  obtain ⟨r', hreads', hr', -⟩ := (hstart (.under c.word)).items hbs
    (fun i hi => hc.options i (hmem i (List.mem_append_right _ hi)))
    (fun i hi => hc.readable i (hmem i (List.mem_append_right _ hi))) hpb
  have htop := hreads.readTop_eq (c.word.text :: bs.flatten)
  rw [readTop_word hr] at htop
  have hunder := hreads'.readUnder_eq []
  rw [List.append_nil] at hunder
  unfold parse
  rw [htop]
  show (do
    let under ← readUnder ⟨.under c.word, {}, .nothing⟩ bs.flatten
    let sub ← finish under environment
    let top ← finish r environment
    return ofLevels environment top sub c.word) = _
  rw [hunder]
  show (do
    let sub ← finish r' environment
    let top ← finish r environment
    return ofLevels environment top sub c.word) = _
  rw [hr'.finish he, hr.finish he]
  show Except.ok (ofLevels environment (settingsOf front) (settingsOf back) c.word) = _
  rw [Choice.ofLevels_settingsOf hp hs hprojects]

end

/-- Two projects are run, with a root and a threshold. -/
def sampleChoice : Choice where
  word := .run
  root := some "/r"
  verbose := true
  projects := ["b", "a"]
  percent := some "80"

theorem parse_written_sample :
    sampleChoice.Valid ∧
      sampleChoice.WrittenAs ["--root=/r", "run", "--project", "b", "--fail-under=80",
        "--project=a", "--verbose"] ∧
      parse ["--root=/r", "run", "--project", "b", "--fail-under=80", "--project=a", "--verbose"]
        (some "/env") = .ok (sampleChoice.commandLine (some "/env")) := by
  have hitems : sampleChoice.items =
      [.root "/r", .verbose, .project "b", .project "a", .percent "80"] := rfl
  have hvalid : sampleChoice.Valid := by
    refine ⟨by decide, fun i hi => ?_⟩
    simp only [hitems, List.mem_cons, List.not_mem_nil, or_false] at hi
    obtain rfl | rfl | rfl | rfl | rfl := hi
    · exact (by decide : "/r" ≠ "")
    · trivial
    · trivial
    · trivial
    · have hread : (Number.readBinary64 "80").isOk = true := by decide +kernel
      show ∃ x, Number.readBinary64 "80" = .ok x
      cases hx : Number.readBinary64 "80" with
      | error f => rw [hx] at hread; cases hread
      | ok x => exact ⟨x, rfl⟩
  have hwritten : sampleChoice.WrittenAs ["--root=/r", "run", "--project", "b",
      "--fail-under=80", "--project=a", "--verbose"] :=
    ⟨[.root "/r"], [.project "b", .percent "80", .project "a", .verbose], _, _, by decide,
      .cons (.attached rfl) .nil, .cons (.apart rfl (by decide)) (.cons (.attached rfl)
        (.cons (.attached rfl) (.cons (.bare rfl) .nil))), by decide, by decide, rfl⟩
  exact ⟨hvalid, hwritten, parse_written hvalid hwritten (by simp)⟩

end HostSuite.CommandLine
