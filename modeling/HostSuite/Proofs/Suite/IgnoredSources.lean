import HostSuite.Proofs.Suite.CoverageVerdict
import HostSuite.Proofs.Text.Trimmed

/-
  Ignored sources, from the text that lists them to the commands that remove them. The patterns of
  a text are some of its non-blank trimmed lines (`patternsOf_eq`), so what is known of these
  lines is known of patterns: texts one below the other give the patterns of both, and the kind of
  line end does not matter. A project that is captured has one removal sent for it, which names
  the patterns as they are, or none if there are none (`NamesPatterns`). A coverage phase hands
  the patterns of its file on to every project (`patterns_in_file_order`).
-/

namespace HostSuite

namespace Coverage

/-! ## The patterns of a text -/

/-- A line that is trimmed is judged as it stands, and a blank one holds no pattern. -/
theorem patternsOf_eq (text : String) :
    patternsOf text = (Text.nonblankLines text).filter isPattern := by
  have hnonblank (l : String) : (isPattern l && decide (l ≠ "")) = isPattern l := by
    by_cases hl : l = ""
    · subst hl
      decide
    · simp [hl]
  unfold patternsOf Text.nonblankLines Text.trimmedLines
  rw [List.filter_filter]
  simp only [hnonblank]

theorem patternsOf_append (a b : String) :
    patternsOf (a ++ "\n" ++ b) = patternsOf a ++ patternsOf b := by
  simp only [patternsOf_eq]
  rw [Text.nonblankLines_append, List.filter_append]

theorem patternsOf_withReturns (text : String) :
    patternsOf (Text.withReturns text) = patternsOf text := by
  rw [patternsOf_eq, patternsOf_eq, Text.nonblankLines_withReturns]

theorem patternsOf_intercalate (text : String) :
    patternsOf ("\n".intercalate (patternsOf text)) = patternsOf text := by
  simp only [patternsOf_eq, Text.filter_nonblankLines_intercalate]

theorem of_mem_patternsOf {text p : String} (hp : p ∈ patternsOf text) :
    Text.IsTrimmedLine p ∧ p.toList.head? ≠ some '#' := by
  rw [patternsOf_eq] at hp
  obtain ⟨hline, hpattern⟩ := List.mem_filter.mp hp
  refine ⟨Text.isTrimmedLine_of_mem hline, ?_⟩
  unfold isPattern at hpattern
  exact of_decide_eq_true (Bool.and_eq_true_iff.mp hpattern).2

/-! ## Removals -/

/-- The command removes ignored sources. -/
def Removes (x : Exchange) : Prop := x.command.verb = some "--remove"

instance : DecidablePred Removes := fun _ => inferInstanceAs (Decidable (_ = _))

/-- Between the raw tracefile and the output a removal has the patterns, in order. -/
theorem args_filterCommand (lcov : String) (p : Project) (raw : Path) (patterns : List String) :
    (filterCommand lcov p raw patterns).args =
      ["--remove", raw.text] ++ patterns ++
        ["--output-file", (filteredTracefile p).text, "--quiet"] := by
  simp [filterCommand, Command.new, Command.arg, Command.pathArg, Command.addArgs]

/-- The removals among the exchanges for a project: one if it was captured and there are patterns,
and none else. It names the patterns in order, and without patterns the raw tracefile is what
counts. -/
structure NamesPatterns (lcov : String) (p : Project) (patterns : List String)
    (xs : List Exchange) (effective : Option Path) : Prop where
  sent : (xs.filter Removes).map Exchange.command =
    if effective.isSome ∧ patterns ≠ [] then [filterCommand lcov p (rawTracefile p) patterns]
    else []
  args : ∀ x ∈ xs, Removes x → x.command.args =
    ["--remove", (rawTracefile p).text] ++ patterns ++
      ["--output-file", (filteredTracefile p).text, "--quiet"]
  unfiltered : patterns = [] → ∀ e ∈ effective, e = rawTracefile p

section

variable {base : Place} {lcov : String} {patterns : List String} {t : Tree} {p : Project}
  {xs ys zs : List Exchange} {got : Bool} {e : Path}

theorem CaptureWord.filter_removes (hc : CaptureWord lcov p xs got) : xs.filter Removes = [] := by
  rw [List.filter_eq_nil_iff]
  intro x hx
  simp [Removes, hc.verbs x hx]

theorem FilterWord.filter_removes (hf : FilterWord lcov p patterns ys e) :
    ys.filter Removes = ys := by
  rw [List.filter_eq_self]
  intro y hy
  simp [Removes, hf.verbs y hy]

/-- Only what was sent decides on the arguments. -/
theorem NamesPatterns.of_sent {effective : Option Path}
    (hsent : (xs.filter Removes).map Exchange.command = if effective.isSome ∧ patterns ≠ []
      then [filterCommand lcov p (rawTracefile p) patterns] else [])
    (hraw : patterns = [] → ∀ e ∈ effective, e = rawTracefile p) :
    NamesPatterns lcov p patterns xs effective := by
  refine ⟨hsent, ?_, hraw⟩
  intro x hx hr
  have hmem : x.command ∈ (xs.filter Removes).map Exchange.command :=
    List.mem_map_of_mem (List.mem_filter.mpr ⟨hx, decide_eq_true hr⟩)
  rw [hsent] at hmem
  split at hmem
  · rw [List.mem_singleton.mp hmem, args_filterCommand]
  · cases hmem

theorem CaptureWord.namesPatterns (hc : CaptureWord lcov p xs false) :
    NamesPatterns lcov p patterns xs none := by
  apply NamesPatterns.of_sent
  · rw [hc.filter_removes]
    simp
  · simp

/-- A project that was captured, with what is sent for it after its removal. -/
theorem FilterWord.namesPatterns (hf : FilterWord lcov p patterns ys e)
    (hc : CaptureWord lcov p xs true) (hz : zs.filter Removes = []) :
    NamesPatterns lcov p patterns (xs ++ ys ++ zs) (some e) := by
  have hown : (xs ++ ys ++ zs).filter Removes = ys := by
    rw [List.filter_append, List.filter_append, hc.filter_removes, hf.filter_removes, hz,
      List.append_nil, List.nil_append]
  apply NamesPatterns.of_sent
  · rw [hown]
    cases hf with
    | unfiltered hp => simp [hp]
    | tried hp hx => simp [hp, hx]
  · intro hp d hd
    obtain rfl := Option.some.inj hd
    cases hf with
    | unfiltered _ => rfl
    | tried hp' _ => exact absurd hp hp'

theorem TurnWord.namesPatterns {d : Option Dataset}
    (hw : TurnWord base lcov patterns t p xs d) :
    NamesPatterns lcov p patterns xs (d.map Dataset.tracefile) := by
  cases hw with
  | unbuilt hb => exact .of_sent (by simp) (by simp)
  | uncaptured hb hc => exact hc.namesPatterns
  | captured hb hc hf hz =>
    apply hf.namesPatterns hc
    simp [Removes, hz]

/-- The tracefile that a turn adds, if it counts. -/
def Turn.counted (base : Place) (lcov : String) (patterns : List String) (u : Turn) :
    Option Path :=
  if u.counts base lcov then some (u.effective patterns) else none

theorem TurnWord.names_counted {u : Turn} {d : Option Dataset}
    (hw : TurnWord base lcov patterns u.found u.project u.exchanges d) :
    NamesPatterns lcov u.project patterns u.exchanges (u.counted base lcov patterns) := by
  have hnames := hw.namesPatterns
  unfold Turn.counted
  obtain ⟨rfl, hno⟩ | ⟨q, rfl, hyes, -⟩ := hw.counted
  · rw [if_neg (Bool.eq_false_iff.mp hno)]
    exact hnames
  · rw [if_pos hyes]
    exact hnames

end

theorem collect_namesPatterns (h : Host) (m : Machine) (lcov : String) (p : Project)
    (patterns : List String) :
    ∃ m' xs k, Runs h (collect h lcov p patterns) m k m' xs [] [] ∧
      NamesPatterns lcov p patterns xs (k.map Captured.effective) := by
  obtain ⟨m', xs, hm, hc⟩ | ⟨m', xs, ys, k, hm, hc, hf⟩ := collect_runs h m lcov p patterns
  · exact ⟨m', xs, none, hm, hc.namesPatterns⟩
  · have hnone : ([] : List Exchange).filter Removes = [] := rfl
    have hnames := hf.namesPatterns hc hnone
    rw [List.append_nil] at hnames
    exact ⟨m', xs ++ ys, some k, hm, hnames⟩

end Coverage

namespace Suite

open Coverage

/-! ## The patterns of a phase -/

section

variable {h : Host} {m : Machine} {s : Session} {selected : List String} {o : CoverageOptions}
  {tr : CoverageTrace} {r : Except Failure Unit}

/-- Whatever the end of a phase, its turns are turns of projects with the patterns of the phase. -/
theorem CoverageEnd.own (he : CoverageEnd h m s selected o tr r) :
    ∀ u ∈ tr.turns, ∃ d, TurnWord h.workingDir s.config.tools.lcov (patternsOn h m s) u.found
      u.project u.exchanges d := by
  cases he with
  | refused hn => simp
  | unchosen hn hps => simp
  | unready hn hps hr hf => simp
  | unmade hn hps hr hc hf => exact hc.own
  | made hn hps hr hc hf hl => exact hc.own

theorem patternsOn_eq {text : String} (ht : (chosenOn h m s).readText h.workingDir
    (s.config.ignoreFile s.root) = .ok text) : patternsOn h m s = patternsOf text := by
  unfold patternsOn patternsIn
  rw [ht]

end

/-- Texts with a line feed between them have the patterns of the one and then those of the other;
carriage returns in front of line feeds change none; a pattern is a trimmed line with something on
it that does not begin with `#`; and patterns that are written one below the other are read as they
are. For every project that is captured the patterns are the arguments between the raw tracefile
and the output of the one removal that is sent for it, in order; without patterns none is sent, and
the raw tracefile is what counts. In a coverage phase they are those of the text of its pattern
file. -/
theorem patterns_in_file_order :
    (∀ a b, patternsOf (a ++ "\n" ++ b) = patternsOf a ++ patternsOf b) ∧
    (∀ text, patternsOf (Text.withReturns text) = patternsOf text) ∧
    (∀ text, ∀ p ∈ patternsOf text, Text.IsTrimmedLine p ∧ p.toList.head? ≠ some '#') ∧
    (∀ text, patternsOf ("\n".intercalate (patternsOf text)) = patternsOf text) ∧
    (∀ (h : Host) (m : Machine) (lcov : String) (p : Project) (patterns : List String),
      ∃ m' xs k, Runs h (collect h lcov p patterns) m k m' xs [] [] ∧
        NamesPatterns lcov p patterns xs (k.map Captured.effective)) ∧
    ∀ (h : Host) (m : Machine) (s : Session) (selected : List String) (o : CoverageOptions),
      ∃ m' r tr cs ts, Runs h (coveragePhase h s selected o).run m r m' tr.exchanges cs ts ∧
        CoverageEnd h m s selected o tr r ∧
        ∀ text, (chosenOn h m s).readText h.workingDir (s.config.ignoreFile s.root) = .ok text →
          ∀ u ∈ tr.turns,
            NamesPatterns s.config.tools.lcov u.project (patternsOf text) u.exchanges
              (u.counted h.workingDir s.config.tools.lcov (patternsOf text)) := by
  refine ⟨patternsOf_append, patternsOf_withReturns, fun text p hp => of_mem_patternsOf hp,
    patternsOf_intercalate, collect_namesPatterns, ?_⟩
  intro h m s selected o
  obtain ⟨m', r, tr, cs, ts, hrun, hend⟩ := coveragePhase_runs h m s selected o
  refine ⟨m', r, tr, cs, ts, hrun, hend, ?_⟩
  intro text ht u hu
  obtain ⟨d, hd⟩ := hend.own u hu
  rw [patternsOn_eq ht] at hd
  exact hd.names_counted

/-- Comments, a pattern that is moved in, and no line feed at the end. -/
def mixedText : String := "# own\n*/esp-idf/*\n\n   */mocks/*\n\t# more\n/usr/include/*"

theorem patterns_in_file_order_mixed :
    patternsOf (Text.withReturns mixedText) = ["*/esp-idf/*", "*/mocks/*", "/usr/include/*"] ∧
      ∃ m' xs k, Runs sampleHost (collect sampleHost "lcov" (.inDir ⟨"/a"⟩ "build")
          (patternsOf mixedText)) ⟨sampleTree, [], 0⟩ k m' xs [] [] ∧
        k.isSome = true ∧ (xs.filter Removes).map Exchange.command =
          [⟨"lcov", ["--remove", "/a/build/coverage.info", "*/esp-idf/*", "*/mocks/*",
            "/usr/include/*", "--output-file", "/a/build/coverage_filtered.info", "--quiet"],
            ⟨"/a"⟩, false⟩] := by
  obtain ⟨-, hreturns, -, -, hcollect, -⟩ := patterns_in_file_order
  have hpatterns : patternsOf mixedText = ["*/esp-idf/*", "*/mocks/*", "/usr/include/*"] := by
    decide +kernel
  refine ⟨by rw [hreturns, hpatterns], ?_⟩
  obtain ⟨m', xs, k, hm, hk⟩ := hcollect sampleHost ⟨sampleTree, [], 0⟩ "lcov"
    (.inDir ⟨"/a"⟩ "build") (patternsOf mixedText)
  have hsome : k.isSome = true := by
    show (k, m').1.isSome = true
    rw [← hm.1]
    decide +kernel
  refine ⟨m', xs, k, hm, hsome, ?_⟩
  rw [hk.sent, Option.isSome_map, if_pos ⟨hsome, by rw [hpatterns]; decide⟩, hpatterns]
  decide +kernel

end Suite

end HostSuite
