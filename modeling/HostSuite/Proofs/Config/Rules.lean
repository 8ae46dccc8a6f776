import HostSuite.Config.Decode
import HostSuite.Proofs.Suite.Phase

/-
  The rules of a configuration. What the checks ask of each text and of the threshold is said here
  without them (`Config.Sound`), and a configuration passes all checks exactly if it keeps the rules
  (`check_eq_ok_iff`). A text is accepted exactly if it has a document, the document gives a
  configuration, and that passes the checks (`parse_eq_ok_iff`).
-/

namespace HostSuite

namespace Config

/-- There is something on it that is no blank. -/
def Filled (s : String) : Prop := ∃ c ∈ s.toList, Text.isBlank c = false

/-- Filled, and without separators. -/
structure PlainName (s : String) : Prop where
  filled : Filled s
  no_slash : '/' ∉ s.toList
  no_backslash : '\\' ∉ s.toList

/-- The configuration keeps all rules. -/
structure Sound (c : Config) : Prop where
  descriptor : PlainName c.discovery.descriptor
  buildDir : PlainName c.discovery.buildDir
  exclude : ∀ name ∈ c.discovery.exclude, PlainName name
  idf : Filled c.tools.idf
  target : Filled c.tools.target
  lcov : Filled c.tools.lcov
  genhtml : Filled c.tools.genhtml
  outputDir : Filled c.coverage.outputDir
  ignoreFile : Filled c.coverage.ignoreFile
  failUnder : ∀ x ∈ c.coverage.failUnder, x.IsPercent

theorem checkFilled_eq_ok_iff {key value : String} :
    checkFilled key value = .ok () ↔ Filled value := by
  unfold checkFilled Filled Text.isBlankText
  split
  · rename_i hall
    simp only [reduceCtorEq, false_iff, not_exists, not_and, Bool.not_eq_false]
    exact List.all_eq_true.mp hall
  · rename_i hall
    simpa using hall

theorem checkPlainName_eq_ok_iff {key value : String} :
    checkPlainName key value = .ok () ↔ PlainName value := by
  unfold checkPlainName
  rw [Except.bind_eq_ok_iff]
  constructor
  · rintro ⟨⟨⟩, hfilled, hsep⟩
    split at hsep
    · rename_i hno
      obtain ⟨hslash, hback⟩ := Bool.and_eq_true_iff.mp hno
      exact ⟨checkFilled_eq_ok_iff.mp hfilled, by simpa using hslash, by simpa using hback⟩
    · cases hsep
  · rintro ⟨hfilled, hslash, hback⟩
    exact ⟨(), checkFilled_eq_ok_iff.mpr hfilled, by simp [hasNoSeparator, hslash, hback]⟩

/-- Checks one after the other. -/
theorem then_eq_ok_iff {ε β : Type} {x : Except ε Unit} {f : Unit → Except ε β} {b : β} :
    x >>= f = .ok b ↔ x = .ok () ∧ f () = .ok b := by
  cases x <;> simp [bind, Except.bind]

/-- The same check on every item. -/
theorem forM_eq_ok_iff {α ε : Type} {f : α → Except ε Unit} {xs : List α} :
    xs.forM f = .ok () ↔ ∀ x ∈ xs, f x = .ok () := by
  induction xs with
  | nil => simp [List.forM, pure, Except.pure]
  | cons x xs ih =>
    rw [List.forM, then_eq_ok_iff, List.forall_mem_cons, ← ih]

theorem checkThreshold_eq_ok_iff {x : Number.Binary64} :
    checkThreshold x = .ok () ↔ x.IsPercent := by
  unfold checkThreshold
  rw [← isPercentage_iff]
  cases isPercentage x <;> simp

theorem check_eq_ok_iff {c : Config} : c.check = .ok () ↔ c.Sound := by
  unfold check
  simp only [then_eq_ok_iff, checkPlainName_eq_ok_iff, forM_eq_ok_iff, checkFilled_eq_ok_iff,
    filledTexts, List.forall_mem_cons]
  constructor
  · rintro ⟨hd, hb, he, ⟨hi, ht, hl, hg, ho, hf, -⟩, hlast⟩
    refine ⟨hd, hb, he, hi, ht, hl, hg, ho, hf, fun x hx => ?_⟩
    rw [Option.mem_def.mp hx] at hlast
    exact checkThreshold_eq_ok_iff.mp hlast
  · rintro ⟨hd, hb, he, hi, ht, hl, hg, ho, hf, hpercent⟩
    refine ⟨hd, hb, he, ⟨hi, ht, hl, hg, ho, hf, by simp⟩, ?_⟩
    split
    · rename_i x hx
      exact checkThreshold_eq_ok_iff.mpr (hpercent x hx)
    · rfl

theorem parse_eq_ok_iff {text : String} {c : Config} :
    parse text = .ok c ↔
      ∃ es, Toml.document? text = some es ∧ ofDocument es = .ok c ∧ c.check = .ok () := by
  unfold parse
  cases Toml.document? text with
  | none => simp
  | some es =>
    simp only [Option.some.injEq, exists_eq_left']
    cases ofDocument es with
    | error f => simp
    | ok d =>
      simp only [Except.ok.injEq]
      cases hcheck : d.check with
      | error f =>
        simp only [reduceCtorEq, false_iff, not_and]
        rintro rfl
        simp [hcheck]
      | ok u =>
        simp only [Except.ok.injEq]
        constructor
        · rintro rfl
          exact ⟨rfl, hcheck⟩
        · exact And.left

end Config

end HostSuite
