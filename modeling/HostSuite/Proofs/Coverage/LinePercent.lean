import Mathlib.Data.List.TakeWhile
import HostSuite.Proofs.Coverage.Conduct
import HostSuite.Proofs.Text.Streams

/-
  The line percentage. A line tells it when it has the form `PercentLine`, and there is one way only
  to take such a line apart: each repetition in it ends where a character stands that it cannot take
  (`cut`). So reading is sound and complete for the form (`percentNumeral?_eq_some_iff`), and the
  numeral in it is always a number (`readBinary64_amount`). Neither the choice of summary lines nor
  putting the two streams together loses or moves such a line, hence a section has the percentage
  of the first one in the output and then in the error output (`line_percent_told`).
-/

namespace HostSuite.Coverage

open HostSuite.Number

/-! ## The form -/

/-- Blanks, possibly none. -/
@[ext]
structure Blanks where
  chars : List Char
  blank : ∀ c ∈ chars, Text.isBlank c = true

/-- Digits, at least one. -/
@[ext]
structure Digits where
  chars : List Char
  digit : ∀ c ∈ chars, isDigit c = true
  nonempty : chars ≠ []

/-- Digits, and maybe a point with digits. -/
@[ext]
structure Amount where
  whole : Digits
  fraction : Option Digits

namespace Amount

/-- The digits after the point. -/
def places (a : Amount) : List Char := a.fraction.elim [] Digits.chars

def text (a : Amount) : List Char :=
  a.whole.chars ++ a.fraction.elim [] fun ds => '.' :: ds.chars

/-- The binary64 number nearest to what the digits write. -/
def value (a : Amount) : Binary64 :=
  Decimal.toBinary64 ⟨false, digitsValue (a.whole.chars ++ a.places), -a.places.length⟩

end Amount

/-- A line that tells the percentage of lines. -/
@[ext]
structure PercentLine where
  dots : Nat
  before : Blanks
  after : Blanks
  amount : Amount
  rest : List Char

def PercentLine.text (l : PercentLine) : List Char :=
  "lines".toList ++ (List.replicate l.dots '.' ++ (l.before.chars ++ ':' :: (l.after.chars ++
    (l.amount.text ++ '%' :: l.rest))))

/-! ## Where a repetition ends -/

/-- What comes next is none of these. -/
def Stops (p : Char → Bool) (rest : List Char) : Prop := ∀ c, rest.head? = some c → p c = false

section

variable {p : Char → Bool} {front rest front' rest' : List Char}

theorem Stops.nil : Stops p [] := fun c hc => absurd hc (Option.some_ne_none c).symm

theorem Stops.cons {c : Char} (hc : p c = false) : Stops p (c :: rest) :=
  fun _ hd => Option.some.inj hd ▸ hc

theorem Stops.append (hf : ∀ c ∈ front, p c = false) (hr : Stops p rest) :
    Stops p (front ++ rest) := by
  cases front with
  | nil => exact hr
  | cons c front => exact .cons (hf c List.mem_cons_self)

theorem cut (hf : ∀ c ∈ front, p c = true) (hr : Stops p rest) :
    (front ++ rest).takeWhile p = front ∧ (front ++ rest).dropWhile p = rest := by
  rw [List.takeWhile_append_of_pos hf, List.dropWhile_append_of_pos hf]
  cases rest with
  | nil => simp
  | cons c rest =>
    have hc : p c = false := hr c rfl
    simp [hc]

/-- There is one way only to cut. -/
theorem cut_unique (hf : ∀ c ∈ front, p c = true) (hr : Stops p rest)
    (hf' : ∀ c ∈ front', p c = true) (hr' : Stops p rest')
    (heq : front ++ rest = front' ++ rest') : front = front' ∧ rest = rest' := by
  obtain ⟨htake, hdrop⟩ := cut hf hr
  obtain ⟨htake', hdrop'⟩ := cut hf' hr'
  rw [heq] at htake hdrop
  exact ⟨htake.symm.trans htake', hdrop.symm.trans hdrop'⟩

end

theorem toNat_of_isDigit {c : Char} (hc : isDigit c = true) : 48 ≤ c.toNat ∧ c.toNat ≤ 57 := by
  unfold isDigit at hc
  rw [Bool.and_eq_true, decide_eq_true_iff, decide_eq_true_iff] at hc
  exact hc

theorem isBlank_of_isDigit {c : Char} (hc : isDigit c = true) : Text.isBlank c = false := by
  have := toNat_of_isDigit hc
  simp only [Text.isBlank, Bool.or_eq_false_iff, Bool.and_eq_false_iff, decide_eq_false_iff_not,
    beq_eq_false_iff_ne]
  omega

theorem isDot_of_isBlank {c : Char} (hc : Text.isBlank c = true) : decide (c = '.') = false := by
  rw [decide_eq_false_iff_not]
  rintro rfl
  exact absurd hc (by decide)

namespace Digits

theorem eq_cons (ds : Digits) : ∃ c cs, ds.chars = c :: cs ∧ isDigit c = true := by
  obtain ⟨c, cs, hcs⟩ := List.exists_cons_of_ne_nil ds.nonempty
  exact ⟨c, cs, hcs, ds.digit c (hcs ▸ List.mem_cons_self)⟩

theorem isEmpty_chars (ds : Digits) : ds.chars.isEmpty = false := by
  obtain ⟨c, cs, hcs, -⟩ := ds.eq_cons
  rw [hcs]
  rfl

theorem stops_isBlank (ds : Digits) (rest : List Char) :
    Stops Text.isBlank (ds.chars ++ rest) := by
  obtain ⟨c, cs, hcs, hc⟩ := ds.eq_cons
  rw [hcs]
  exact .cons (isBlank_of_isDigit hc)

end Digits

namespace Amount

variable (a : Amount) (rest : List Char)

/-- What follows the digits before the point: a point with digits, or the rest. -/
def tail : List Char := a.fraction.elim [] (fun ds => '.' :: ds.chars) ++ rest

theorem text_append : a.text ++ rest = a.whole.chars ++ a.tail rest := List.append_assoc ..

theorem stops_tail {c : Char} (hc : isDigit c = false) : Stops isDigit (a.tail (c :: rest)) := by
  unfold tail
  cases a.fraction with
  | none => exact .cons hc
  | some ds => exact .cons (by decide)

end Amount

/-! ## One way to take a line apart -/

theorem Amount.text_append_unique {a b : Amount} {rest rest' : List Char}
    (heq : a.text ++ '%' :: rest = b.text ++ '%' :: rest') : a = b ∧ rest = rest' := by
  rw [Amount.text_append, Amount.text_append] at heq
  obtain ⟨hwhole, htail⟩ := cut_unique a.whole.digit (a.stops_tail rest (by decide))
    b.whole.digit (b.stops_tail rest' (by decide)) heq
  obtain ⟨whole, fraction⟩ := a
  obtain ⟨whole', fraction'⟩ := b
  obtain rfl : whole = whole' := Digits.ext hwhole
  unfold Amount.tail at htail
  cases fraction with
  | none =>
    cases fraction' with
    | none => exact ⟨rfl, (List.cons.inj htail).2⟩
    | some ds => exact absurd (List.cons.inj htail).1 (by decide)
  | some ds =>
    cases fraction' with
    | none => exact absurd (List.cons.inj htail).1 (by decide)
    | some ds' =>
      obtain ⟨hds, hrest⟩ := cut_unique (p := isDigit) ds.digit (.cons (by decide)) ds'.digit
        (.cons (by decide)) (List.cons.inj htail).2
      obtain rfl : ds = ds' := Digits.ext hds
      exact ⟨rfl, (List.cons.inj hrest).2⟩

namespace PercentLine

variable (l : PercentLine)

/-- What follows the dots. -/
def afterDots : List Char :=
  l.before.chars ++ ':' :: (l.after.chars ++ (l.amount.text ++ '%' :: l.rest))

theorem stops_afterDots : Stops (fun c => decide (c = '.')) l.afterDots :=
  .append (fun c hc => isDot_of_isBlank (l.before.blank c hc)) (.cons (by decide))

theorem stops_amount : Stops Text.isBlank (l.amount.text ++ '%' :: l.rest) := by
  rw [Amount.text_append]
  exact l.amount.whole.stops_isBlank _

theorem text_injective : Function.Injective text := by
  intro l l' heq
  have hdots : List.replicate l.dots '.' ++ l.afterDots =
      List.replicate l'.dots '.' ++ l'.afterDots := List.append_cancel_left heq
  have hall (n : Nat) : ∀ c ∈ List.replicate n '.', decide (c = '.') = true := by simp
  obtain ⟨hdots, hafter⟩ := cut_unique (hall _) l.stops_afterDots (hall _) l'.stops_afterDots hdots
  obtain ⟨hbefore, hcolon⟩ := cut_unique l.before.blank (.cons (by decide)) l'.before.blank
    (.cons (by decide)) hafter
  obtain ⟨hblanks, hamount⟩ := cut_unique l.after.blank l.stops_amount l'.after.blank
    l'.stops_amount (List.cons.inj hcolon).2
  obtain ⟨hamount, hrest⟩ := Amount.text_append_unique hamount
  refine PercentLine.ext ?_ (Blanks.ext hbefore) (Blanks.ext hblanks) hamount hrest
  simpa using congrArg List.length hdots

end PercentLine

/-! ## Reading -/

theorem after?_eq_some_iff {front cs rest : List Char} :
    after? front cs = some rest ↔ cs = front ++ rest := by
  unfold after?
  constructor
  · intro h
    split at h
    · rename_i hfront
      obtain ⟨rest', rfl⟩ := List.isPrefixOf_iff_prefix.mp hfront
      rw [List.drop_left] at h
      rw [Option.some.inj h]
    · cases h
  · rintro rfl
    rw [if_pos (List.isPrefixOf_iff_prefix.mpr (List.prefix_append front rest)), List.drop_left]

theorem numeral?_complete (a : Amount) {c : Char} (hc : isDigit c = false) (hp : c ≠ '.')
    (rest : List Char) : numeral? (a.text ++ c :: rest) = some (a.text, c :: rest) := by
  obtain ⟨htake, hdrop⟩ := cut a.whole.digit (a.stops_tail rest hc)
  rw [Amount.text_append]
  unfold numeral?
  simp only [htake, hdrop, a.whole.isEmpty_chars, Bool.false_eq_true, if_false]
  obtain ⟨whole, fraction⟩ := a
  cases fraction with
  | none =>
    simp only [Amount.tail, Amount.text, Option.elim_none, List.nil_append, List.append_nil]
    split
    · rename_i heq
      exact absurd (List.cons.inj heq).1 hp
    · rfl
  | some ds =>
    have hstops : Stops isDigit (c :: rest) := .cons hc
    obtain ⟨htake, hdrop⟩ := cut ds.digit hstops
    simp only [Amount.tail, Amount.text, Option.elim_some, List.cons_append, htake, hdrop,
      ds.isEmpty_chars, Bool.false_eq_true, if_false]

theorem numeral?_sound {cs numeral rest : List Char} (hn : numeral? cs = some (numeral, rest)) :
    ∃ a : Amount, a.text = numeral ∧ cs = numeral ++ rest := by
  have hdigits (ds : List Char) : ∀ c ∈ ds.takeWhile isDigit, isDigit c = true :=
    fun _ hc => List.mem_takeWhile_imp hc
  unfold numeral? at hn
  dsimp only at hn
  split at hn
  · cases hn
  · rename_i hwhole
    let whole : Digits := ⟨_, hdigits cs, by simpa using hwhole⟩
    have hcs : cs = whole.chars ++ cs.dropWhile isDigit := List.takeWhile_append_dropWhile.symm
    split at hn
    · rename_i tail htail
      split at hn
      · obtain ⟨rfl, rfl⟩ := Prod.mk.inj (Option.some.inj hn)
        exact ⟨⟨whole, none⟩, List.append_nil _, hcs⟩
      · rename_i hplaces
        obtain ⟨rfl, rfl⟩ := Prod.mk.inj (Option.some.inj hn)
        refine ⟨⟨whole, some ⟨_, hdigits tail, by simpa using hplaces⟩⟩, rfl, ?_⟩
        rw [List.append_assoc, List.cons_append, List.takeWhile_append_dropWhile, ← htail]
        exact hcs
    · obtain ⟨rfl, rfl⟩ := Prod.mk.inj (Option.some.inj hn)
      exact ⟨⟨whole, none⟩, List.append_nil _, hcs⟩

theorem percentNumeral?_complete (l : PercentLine) :
    percentNumeral? l.text = some l.amount.text := by
  have hall : ∀ c ∈ List.replicate l.dots '.', decide (c = '.') = true := by simp
  have hlines : after? "lines".toList l.text = some (List.replicate l.dots '.' ++ l.afterDots) :=
    after?_eq_some_iff.mpr rfl
  have hcolon : after? [':'] ((l.afterDots).dropWhile Text.isBlank) =
      some (l.after.chars ++ (l.amount.text ++ '%' :: l.rest)) := by
    unfold PercentLine.afterDots
    rw [(cut l.before.blank (.cons (by decide))).2]
    rfl
  unfold percentNumeral?
  rw [hlines, Option.bind_eq_bind, Option.bind_some, (cut hall l.stops_afterDots).2, hcolon,
    Option.bind_eq_bind, Option.bind_some, (cut l.after.blank l.stops_amount).2,
    numeral?_complete l.amount (by decide) (by decide)]
  rfl

theorem percentNumeral?_sound {line numeral : List Char}
    (hn : percentNumeral? line = some numeral) :
    ∃ l : PercentLine, l.text = line ∧ l.amount.text = numeral := by
  unfold percentNumeral? at hn
  simp only [Option.bind_eq_bind, Option.bind_eq_some_iff, after?_eq_some_iff] at hn
  obtain ⟨r₁, rfl, r₂, hcolon, ⟨n, r₃⟩, hnumeral, hpercent⟩ := hn
  obtain ⟨a, rfl, hr₂⟩ := numeral?_sound hnumeral
  obtain ⟨hhead, hn⟩ := Option.ite_none_right_eq_some.mp hpercent
  obtain ⟨rest, rfl⟩ := List.head?_eq_some_iff.mp hhead
  have hblank (cs : List Char) : ∀ c ∈ cs.takeWhile Text.isBlank, Text.isBlank c = true :=
    fun _ hc => List.mem_takeWhile_imp hc
  have hdots : r₁.takeWhile (· = '.') = List.replicate (r₁.takeWhile (· = '.')).length '.' :=
    List.eq_replicate_of_mem fun c hc => by simpa using List.mem_takeWhile_imp hc
  refine ⟨⟨(r₁.takeWhile (· = '.')).length, ⟨_, hblank (r₁.dropWhile (· = '.'))⟩,
    ⟨_, hblank r₂⟩, a, rest⟩, ?_, Option.some.inj hn⟩
  show "lines".toList ++ (_ ++ (_ ++ ([':'] ++ (_ ++ (a.text ++ '%' :: rest))))) =
    "lines".toList ++ r₁
  rw [← hdots, ← hr₂, List.takeWhile_append_dropWhile, ← hcolon, List.takeWhile_append_dropWhile,
    List.takeWhile_append_dropWhile]

/-- The reader accepts exactly the lines of the form, and gives their numeral. -/
theorem percentNumeral?_eq_some_iff {line numeral : List Char} :
    percentNumeral? line = some numeral ↔
      ∃ l : PercentLine, l.text = line ∧ l.amount.text = numeral := by
  constructor
  · exact percentNumeral?_sound
  · rintro ⟨l, rfl, rfl⟩
    exact percentNumeral?_complete l

-- a point needs digits after it
example : percentNumeral? "lines...: 1.%".toList = none := by decide

/-! ## The number -/

theorem readMagnitude_amount (a : Amount) :
    readMagnitude false a.text =
      some ⟨false, digitsValue (a.whole.chars ++ a.places), -a.places.length⟩ := by
  have hstops : Stops isDigit (a.tail []) := by
    unfold Amount.tail
    cases a.fraction with
    | none => exact .nil
    | some ds => exact .cons (by decide)
  obtain ⟨htake, hdrop⟩ := cut a.whole.digit hstops
  rw [← List.append_nil a.text, Amount.text_append]
  unfold readMagnitude
  rw [htake, hdrop]
  obtain ⟨whole, fraction⟩ := a
  cases fraction with
  | none => simp [Amount.tail, Amount.places, readExponent, whole.nonempty]
  | some ds =>
    obtain ⟨htake, hdrop⟩ := cut ds.digit Stops.nil
    rw [List.append_nil] at htake hdrop
    simp [Amount.tail, Amount.places, readExponent, whole.nonempty, htake, hdrop]

/-- What begins with a digit is no word that does not. -/
theorem lowerAscii_word_ne {c : Char} (hc : isDigit c = true) (cs : List Char) (word : String)
    (hw : Stops isDigit word.toList) : String.ofList ((c :: cs).map lowerAscii) ≠ word := by
  have hlower : lowerAscii c = c := by
    have hbound := toNat_of_isDigit hc
    have hnot : ¬ 'A' ≤ c := fun hA => by
      have hA' : 65 ≤ c.toNat := hA
      omega
    simp [lowerAscii, hnot]
  rintro rfl
  rw [String.toList_ofList, List.map_cons, hlower] at hw
  rw [hw c rfl] at hc
  cases hc

theorem takeSign_digit {c : Char} (hc : isDigit c = true) (cs : List Char) :
    takeSign (c :: cs) = (false, c :: cs) := by
  unfold takeSign
  split
  · rename_i heq
    rw [(List.cons.inj heq).1] at hc
    exact absurd hc (by decide)
  · rename_i heq
    rw [(List.cons.inj heq).1] at hc
    exact absurd hc (by decide)
  · rfl

/-- The numeral of a line is always a number. -/
theorem readBinary64_amount (a : Amount) : readBinary64 (String.ofList a.text) = .ok a.value := by
  obtain ⟨c, cs, hcs, hc⟩ : ∃ c cs, a.text = c :: cs ∧ isDigit c = true := by
    obtain ⟨c, cs, hcs, hc⟩ := a.whole.eq_cons
    exact ⟨c, _, by rw [Amount.text, hcs, List.cons_append], hc⟩
  have hmagnitude := readMagnitude_amount a
  rw [hcs] at hmagnitude ⊢
  have hinf := lowerAscii_word_ne hc cs "inf" (.cons (by decide))
  have hinfinity := lowerAscii_word_ne hc cs "infinity" (.cons (by decide))
  have hnan := lowerAscii_word_ne hc cs "nan" (.cons (by decide))
  unfold readBinary64
  simp only [String.toList_ofList, takeSign_digit hc, List.isEmpty_cons, Bool.false_eq_true,
    if_false, hmagnitude, hinf, hinfinity, hnan, decide_false, Bool.or_false]
  rfl

/-! ## Lines of a section -/

/-- The line tells the percentage of lines. -/
def tells (line : String) : Bool := (percentNumeral? line.toList).isSome

theorem tells_iff {line : String} :
    tells line = true ↔ ∃ l : PercentLine, l.text = line.toList := by
  unfold tells
  rw [Option.isSome_iff_exists]
  constructor
  · rintro ⟨numeral, hn⟩
    obtain ⟨l, hl, -⟩ := percentNumeral?_sound hn
    exact ⟨l, hl⟩
  · rintro ⟨l, hl⟩
    exact ⟨l.amount.text, hl ▸ percentNumeral?_complete l⟩

theorem tells_eq_false_iff {line : String} :
    tells line = false ↔ ∀ l : PercentLine, l.text ≠ line.toList := by
  rw [← Bool.not_eq_true, tells_iff, not_exists]

/-- A line that tells the percentage is a summary line, also with blanks around it. -/
theorem isSummaryLine_of_tells {line : String} (ht : tells (Text.trim line) = true) :
    isSummaryLine line = true := by
  obtain ⟨l, hl⟩ := tells_iff.mp ht
  have hline : l.text <:+: line.toList := by
    rw [hl, Text.trim, String.toList_ofList]
    exact Text.trimChars_isInfix _
  have hlines : "lines".toList <:+: l.text := (List.prefix_append _ _).isInfix
  have hcolon : ":".toList <:+: l.text := by
    refine ⟨"lines".toList ++ (List.replicate l.dots '.' ++ l.before.chars),
      l.after.chars ++ (l.amount.text ++ '%' :: l.rest), ?_⟩
    unfold PercentLine.text
    simp only [List.append_assoc]
    rfl
  unfold isSummaryLine
  rw [Bool.and_eq_true, Bool.or_eq_true]
  exact ⟨Text.contains_iff.mpr (hcolon.trans hline),
    .inl (Text.contains_iff.mpr (hlines.trans hline))⟩

/-- The choice of summary lines keeps the lines that tell the percentage, in order. -/
theorem filter_tells_summaryLines (output : String) :
    (summaryLines output).filter tells = (Text.trimmedLines output).filter tells := by
  unfold summaryLines Text.trimmedLines
  rw [List.filter_map, List.filter_map, List.filter_filter]
  refine congrArg _ (List.filter_congr fun line _ => ?_)
  simp only [Function.comp_apply]
  cases ht : tells (Text.trim line) with
  | false => rfl
  | true => exact isSummaryLine_of_tells ht

/-- Other lines do not matter. -/
theorem linePercent?_filter (ls : List String) :
    linePercent? (ls.filter tells) = linePercent? ls := by
  unfold linePercent?
  congr 1
  rw [← List.head?_filterMap, ← List.head?_filterMap, List.filterMap_filter]
  congr 2
  funext line
  unfold tells
  cases percentNumeral? line.toList <;> rfl

/-- The percentage is that of the first of the lines that tell one, and only without such a line
there is none. -/
structure PercentTold (ls : List String) (percent : Option Binary64) : Prop where
  first : ∀ v, percent = some v ↔ ∃ front line back, ∃ l : PercentLine,
    ls = front ++ line :: back ∧ (∀ s ∈ front, ∀ l : PercentLine, l.text ≠ s.toList) ∧
    l.text = line.toList ∧ l.amount.value = v
  absent : percent = none ↔ ∀ s ∈ ls, ∀ l : PercentLine, l.text ≠ s.toList

theorem percentNumeral?_eq_none_iff {line : String} :
    percentNumeral? line.toList = none ↔ ∀ l : PercentLine, l.text ≠ line.toList := by
  rw [← tells_eq_false_iff, tells, Option.isSome_eq_false_iff, Option.isNone_iff_eq_none]

theorem percentTold_linePercent? (ls : List String) : PercentTold ls (linePercent? ls) := by
  -- reading the numeral of a line as a number never fails, so no line is skipped for that
  have hread {line : String} {numeral : List Char}
      (hn : percentNumeral? line.toList = some numeral) :
      ∃ l : PercentLine, l.text = line.toList ∧
        (readBinary64 (String.ofList numeral)).toOption = some l.amount.value := by
    obtain ⟨l, hl, rfl⟩ := percentNumeral?_sound hn
    exact ⟨l, hl, by rw [readBinary64_amount]; rfl⟩
  constructor
  · intro v
    unfold linePercent?
    rw [Option.bind_eq_some_iff]
    constructor
    · rintro ⟨numeral, hfind, hv⟩
      obtain ⟨front, line, back, hls, hline, hfront⟩ := List.findSome?_eq_some_iff.mp hfind
      obtain ⟨l, hl, hvalue⟩ := hread hline
      have hearlier := fun s hs => percentNumeral?_eq_none_iff.mp (hfront s hs)
      exact ⟨front, line, back, l, hls, hearlier, hl, Option.some.inj (hvalue.symm.trans hv)⟩
    · rintro ⟨front, line, back, l, hls, hfront, hl, rfl⟩
      refine ⟨l.amount.text, List.findSome?_eq_some_iff.mpr ⟨front, line, back, hls, ?_, ?_⟩, ?_⟩
      · rw [← hl]
        exact percentNumeral?_complete l
      · exact fun s hs => percentNumeral?_eq_none_iff.mpr (hfront s hs)
      · rw [readBinary64_amount]
        rfl
  · unfold linePercent?
    cases hfind : ls.findSome? fun line => percentNumeral? line.toList with
    | none =>
      have hall := List.findSome?_eq_none_iff.mp hfind
      simpa using fun s hs => percentNumeral?_eq_none_iff.mp (hall s hs)
    | some numeral =>
      obtain ⟨front, line, back, rfl, hline, -⟩ := List.findSome?_eq_some_iff.mp hfind
      obtain ⟨l, hl, hvalue⟩ := hread hline
      rw [Option.bind_some, hvalue]
      simp only [reduceCtorEq, false_iff]
      exact fun hall => hall line (by simp) l hl

/-- What a section keeps of the answer to the command that it is built from. -/
structure SectionTold (o : Outcome) (s : Summary) : Prop where
  percent : ∀ r, o = .ok r → r.success = true →
    PercentTold (Text.trimmedLines r.stdout ++ Text.trimmedLines r.stderr) s.percent?
  kept : ∀ r, o = .ok r → r.success = true → ∃ ls, s.lines = some ls ∧
    ls.filter tells = (Text.trimmedLines r.stdout ++ Text.trimmedLines r.stderr).filter tells
  unavailable : (∀ r, o = .ok r → r.success = false) → s.percent? = none

theorem sectionTold_summaryOf (label : String) (o : Outcome) :
    SectionTold o (summaryOf label o) := by
  have hkept (r : CommandResult) : (summaryLines r.combined).filter tells =
      (Text.trimmedLines r.stdout ++ Text.trimmedLines r.stderr).filter tells := by
    rw [filter_tells_summaryLines, Text.trimmedLines_combined]
  refine ⟨?_, ?_, ?_⟩
  · rintro r rfl hs
    have hpercent :
        (summaryOf label (.ok r)).percent? = linePercent? (summaryLines r.combined) := by
      simp [Summary.percent?, summaryOf, hs]
    rw [hpercent, ← linePercent?_filter, hkept, linePercent?_filter]
    exact percentTold_linePercent? _
  · rintro r rfl hs
    exact ⟨summaryLines r.combined, by simp [summaryOf, hs], hkept r⟩
  · intro hnone
    cases o with
    | error e => rfl
    | ok r => simp [Summary.percent?, summaryOf, hnone r rfl]

/-- The reader of the line percentage accepts exactly the lines of its form, which can be taken
apart in one way only and always hold a number. So the percentage of a section is that of the first
such line in the output, then in the error output, of the summarizer: none of them is lost, moved or
skipped on the way. -/
theorem line_percent_told :
    (∀ line numeral, percentNumeral? line = some numeral ↔
      ∃ l : PercentLine, l.text = line ∧ l.amount.text = numeral) ∧
    Function.Injective PercentLine.text ∧
    (∀ a : Amount, readBinary64 (String.ofList a.text) = .ok a.value) ∧
    ∀ (h : Host) (m : Machine) (lcov : String) (dataset : Path) (label : String) (cwd : Path),
      ∃ m' z s, Runs h (summarize h lcov dataset label cwd) m s m' [z] [] [s.render] ∧
        z.command = summaryCommand lcov dataset cwd ∧ SectionTold z.outcome s := by
  refine ⟨fun _ _ => percentNumeral?_eq_some_iff, PercentLine.text_injective,
    readBinary64_amount, ?_⟩
  intro h m lcov dataset label cwd
  obtain ⟨m', z, hm, hz⟩ := summarize_runs h m lcov dataset label cwd
  exact ⟨m', z, _, hm, hz, sectionTold_summaryOf label z.outcome⟩

end HostSuite.Coverage
