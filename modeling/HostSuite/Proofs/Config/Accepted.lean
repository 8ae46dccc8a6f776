import HostSuite.Config.Decode
import HostSuite.Proofs.Config.Rules
import HostSuite.Proofs.Config.Settings
import HostSuite.Proofs.Project.BuildDir

/-
  Which documents are configurations. A record is read entry by entry (`Shape.Reads`): since no key
  occurs twice, an entry says what its field is in the end, and a field without an entry is what it
  was before. With that for each section and for the sections themselves, a document whose sections
  are tables is accepted exactly if it is well shaped and the completed settings keep the rules
  (`parse_accepts`).
-/

namespace HostSuite

open Toml

namespace Config

/-! ## Reading one value -/

section

variable {v : Value}

theorem textOf_eq_ok_iff {s : String} : textOf v = .ok s ↔ v.text? = some s := by
  cases v <;> simp [textOf, Value.text?]

theorem textsOf_eq_ok_iff {ss : List String} : textsOf v = .ok ss ↔ v.texts? = some ss := by
  have hitems (items : List Value) (ss : List String) :
      items.mapM textOf = .ok ss ↔ items.mapM Value.text? = some ss := by
    induction items generalizing ss with
    | nil => simp [pure, Except.pure]
    | cons v items ih =>
      rw [List.mapM_cons, List.mapM_cons, Except.bind_eq_ok_iff, Option.bind_eq_bind,
        Option.bind_eq_some_iff]
      simp only [textOf_eq_ok_iff, Except.bind_eq_ok_iff, Option.bind_eq_bind,
        Option.bind_eq_some_iff, ih]
      simp [pure, Except.pure]
  unfold textsOf Value.texts?
  cases v with
  | array items => exact hitems items ss
  | tables items => exact hitems _ ss
  | _ => simp [Value.items?]

theorem percent?_eq_some_iff {x : Number.Binary64} :
    percent? v = some (some x) ↔ v.number? = some x := by
  simp [percent?]

theorem numberOf_eq_ok_iff {x : Number.Binary64} : numberOf v = .ok x ↔ v.number? = some x := by
  cases v <;> simp [numberOf, Value.number?]

end

end Config

/-! ## Reading a record -/

namespace Shape

open Config

variable {σ : Type} {r : Shape σ} {s s' : σ}

/-- Reading entries that fulfil `P`: the record takes exactly those that fulfil `A`, and what `of`
makes of some entries is what it makes of all but the first, over what the first one has set. -/
structure Reads (r : Shape σ) (P A : String × Value → Prop) (of : Entries → σ → σ) : Prop where
  takes : ∀ e, P e → ∀ s, (∃ s', r.setEntry s e = .ok s') ↔ A e
  none : ∀ s, of [] s = s
  first : ∀ e, P e → ∀ es s s', e.1 ∉ es.map Prod.fst → r.setEntry s e = .ok s' →
    of es s' = of (e :: es) s

theorem setEntry_eq_ok_iff {e : String × Value} :
    r.setEntry s e = .ok s' ↔
      ∃ f, r.fields.find? (·.name = e.1) = some f ∧ f.set e.2 s = .ok s' := by
  unfold setEntry
  cases r.fields.find? (·.name = e.1) <;> simp

/-- By the entries: each one is taken for itself, and none is overwritten. -/
theorem Reads.foldlM_eq_ok_iff {P A : String × Value → Prop} {of : Entries → σ → σ}
    (hr : r.Reads P A of) {es : Entries} (hd : (es.map Prod.fst).Nodup) (hp : ∀ e ∈ es, P e) :
    es.foldlM r.setEntry s = .ok s' ↔ (∀ e ∈ es, A e) ∧ s' = of es s := by
  induction es generalizing s with
  | nil => simp [pure, Except.pure, hr.none, eq_comm]
  | cons e es ih =>
    obtain ⟨hfresh, hd⟩ := List.nodup_cons.mp hd
    obtain ⟨hpe, hp⟩ := List.forall_mem_cons.mp hp
    rw [List.foldlM_cons, Except.bind_eq_ok_iff, List.forall_mem_cons, ← hr.takes e hpe s]
    constructor
    · rintro ⟨s₁, hs₁, hs'⟩
      obtain ⟨hall, rfl⟩ := (ih hd hp).mp hs'
      exact ⟨⟨⟨s₁, hs₁⟩, hall⟩, hr.first e hpe es s s₁ hfresh hs₁⟩
    · rintro ⟨⟨⟨s₁, hs₁⟩, hall⟩, rfl⟩
      exact ⟨s₁, hs₁, (ih hd hp).mpr ⟨hall, (hr.first e hpe es s s₁ hfresh hs₁).symm⟩⟩

end Shape

namespace Config

open Shape

section

variable {α δ σ : Type}

/-- A field is set to what its value gives. -/
theorem set_eq_ok_iff {x : Except ShapeFault α} {put : α → σ} {s' : σ} :
    (do return put (← x)) = .ok s' ↔ ∃ a, x = .ok a ∧ put a = s' := by
  cases x <;> simp [bind, Except.bind, pure, Except.pure]

/-- An entry that a record takes sets the field of its name. -/
theorem set_of_setEntry {r : Shape σ} {s s' : σ} {e : String × Value}
    (hs : r.setEntry s e = .ok s') : ∃ f ∈ r.fields, f.name = e.1 ∧ f.set e.2 s = .ok s' := by
  obtain ⟨f, hf, hset⟩ := setEntry_eq_ok_iff.mp hs
  exact ⟨f, List.mem_of_find?_eq_some hf, by simpa using List.find?_some hf, hset⟩

/-- The field belongs to a declaration; if the entry has its name, it takes the value where the
declaration admits it. -/
def Takes (admits : δ → Value → Prop) (e : String × Value) (f : Field σ) (d : String × δ) : Prop :=
  f.name = d.1 ∧ (f.name = e.1 → ∀ s, (∃ s', f.set e.2 s = .ok s') ↔ admits d.2 e.2)

theorem takes_put {admits : δ → Value → Prop} {e : String × Value} {name : String} {d : δ}
    {conv : Value → Except ShapeFault α} {put : α → σ → σ}
    (hconv : name = e.1 → ((∃ x, conv e.2 = .ok x) ↔ admits d e.2)) :
    Takes admits e ⟨name, fun v s => do return put (← conv v) s⟩ (name, d) := by
  refine ⟨rfl, fun hname s => ?_⟩
  rw [← hconv hname]
  constructor
  · rintro ⟨s', hs'⟩
    obtain ⟨x, hx, -⟩ := set_eq_ok_iff.mp hs'
    exact ⟨x, hx⟩
  · rintro ⟨x, hx⟩
    exact ⟨put x s, set_eq_ok_iff.mpr ⟨x, hx, rfl⟩⟩

/-- A record with one field for each declaration takes what they admit. By the fields: the first one
with the name of the entry is the only one. -/
theorem takes_iff {r : Shape σ} {admits : δ → Value → Prop} {ds : List (String × δ)}
    {e : String × Value} (ht : List.Forall₂ (Takes admits e) r.fields ds)
    (hd : (ds.map Prod.fst).Nodup) (s : σ) :
    (∃ s', r.setEntry s e = .ok s') ↔ ∃ d, (e.1, d) ∈ ds ∧ admits d e.2 := by
  simp only [setEntry_eq_ok_iff]
  generalize r.fields = fields at ht
  induction ht with
  | nil => simp
  | @cons f d fields ds hfd _ ih =>
    obtain ⟨hname, hset⟩ := hfd
    obtain ⟨hfresh, hd⟩ := List.nodup_cons.mp hd
    by_cases hk : f.name = e.1
    · rw [List.find?_cons_of_pos (by simpa using hk)]
      simp only [Option.some.injEq, exists_eq_left', hset hk]
      constructor
      · exact fun hv => ⟨d.2, by simp [← hk, hname], hv⟩
      · rintro ⟨d', hmem, hv⟩
        obtain hmem | hmem := List.mem_cons.mp hmem
        · rw [← hmem]
          exact hv
        · exact absurd (List.mem_map.mpr ⟨_, hmem, by simp [← hk, hname]⟩) hfresh
    · rw [List.find?_cons_of_neg (by simpa using hk), ih hd]
      refine exists_congr fun d' => and_congr_left fun _ => ?_
      rw [List.mem_cons, or_iff_right]
      rintro rfl
      exact hk hname

end

/-! ## Sections -/

section

variable {σ : Type} {name : String} {e : String × Value}

theorem takes_text {put : String → σ → σ} : Takes (fun (k : Kind) v => k.admits v = true) e
    ⟨name, fun v s => do return put (← textOf v) s⟩ (name, .text) :=
  takes_put fun _ => by simp only [textOf_eq_ok_iff, Kind.admits, Option.isSome_iff_exists]

theorem takes_texts {put : List String → σ → σ} : Takes (fun (k : Kind) v => k.admits v = true) e
    ⟨name, fun v s => do return put (← textsOf v) s⟩ (name, .texts) :=
  takes_put fun _ => by simp only [textsOf_eq_ok_iff, Kind.admits, Option.isSome_iff_exists]

theorem takes_number {put : Number.Binary64 → σ → σ} :
    Takes (fun (k : Kind) v => k.admits v = true) e
      ⟨name, fun v s => do return put (← numberOf v) s⟩ (name, .number) :=
  takes_put fun _ => by simp only [numberOf_eq_ok_iff, Kind.admits, Option.isSome_iff_exists]

end

theorem discovery_reads :
    discoveryShape.Reads (fun _ => True) (IsSetting discoveryKinds) discoveryOf where
  takes e _ s := by
    have hkinds : List.Forall₂ (Takes (fun k v => k.admits v = true) e) discoveryShape.fields
        discoveryKinds := .cons takes_text (.cons takes_text (.cons takes_texts .nil))
    exact takes_iff hkinds (by decide) s
  none s := rfl
  first := by
    rintro ⟨k, v⟩ - es s s' hfresh hs
    obtain ⟨f, hf, rfl, hset⟩ := set_of_setEntry hs
    simp only [discoveryShape, List.mem_cons, List.not_mem_nil, or_false] at hf
    obtain rfl | rfl | rfl := hf
    all_goals
      obtain ⟨x, hx, rfl⟩ := set_eq_ok_iff.mp hset
      simp only [textOf_eq_ok_iff, textsOf_eq_ok_iff] at hx
      simp [discoveryOf, settingOr_cons_self hx, settingOr_cons_ne, settingOr_fresh hfresh]

theorem tools_reads : toolsShape.Reads (fun _ => True) (IsSetting toolKinds) toolsOf where
  takes e _ s := by
    have hkinds : List.Forall₂ (Takes (fun k v => k.admits v = true) e) toolsShape.fields
        toolKinds :=
      .cons takes_text (.cons takes_text (.cons takes_text (.cons takes_text .nil)))
    exact takes_iff hkinds (by decide) s
  none s := rfl
  first := by
    rintro ⟨k, v⟩ - es s s' hfresh hs
    obtain ⟨f, hf, rfl, hset⟩ := set_of_setEntry hs
    simp only [toolsShape, List.mem_cons, List.not_mem_nil, or_false] at hf
    obtain rfl | rfl | rfl | rfl := hf
    all_goals
      obtain ⟨x, hx, rfl⟩ := set_eq_ok_iff.mp hset
      rw [textOf_eq_ok_iff] at hx
      simp [toolsOf, settingOr_cons_self hx, settingOr_cons_ne, settingOr_fresh hfresh]

theorem coverage_reads :
    coverageShape.Reads (fun _ => True) (IsSetting coverageKinds) coverageOf where
  takes e _ s := by
    have hpercent := @takes_number _ "fail_under" e
      fun x (s : CoverageSettings) => { s with failUnder := some x }
    have hkinds : List.Forall₂ (Takes (fun k v => k.admits v = true) e) coverageShape.fields
        coverageKinds :=
      .cons takes_text (.cons takes_text (.cons takes_text (.cons hpercent .nil)))
    exact takes_iff hkinds (by decide) s
  none s := rfl
  first := by
    rintro ⟨k, v⟩ - es s s' hfresh hs
    obtain ⟨f, hf, rfl, hset⟩ := set_of_setEntry hs
    simp only [coverageShape, List.mem_cons, List.not_mem_nil, or_false] at hf
    obtain rfl | rfl | rfl | rfl := hf
    all_goals
      obtain ⟨x, hx, rfl⟩ := set_eq_ok_iff.mp hset
      simp only [textOf_eq_ok_iff, numberOf_eq_ok_iff, ← percent?_eq_some_iff] at hx
      simp [coverageOf, settingOr_cons_self hx, settingOr_cons_ne, settingOr_fresh hfresh]

/-! ## Documents -/

/-- No key is there twice further in, and what stands under the name of a section is a table. -/
structure Readable (e : String × Value) : Prop where
  keyed : e.2.Keyed
  table : e.1 ∈ declared.map Prod.fst → e.2.entries?.isSome = true

/-- A section is read over its own defaults. -/
theorem read_eq_ok_iff {σ : Type} {r : Shape σ} {kinds : List (String × Kind)}
    {of : Entries → σ → σ} (hr : r.Reads (fun _ => True) (IsSetting kinds) of) {v : Value}
    (hv : v.Keyed) {inner : Entries} (hinner : v.entries? = some inner) {s s' : σ} :
    r.read v s = .ok s' ↔ (∀ e ∈ inner, IsSetting kinds e) ∧ s' = of inner s := by
  cases v with
  | table o es =>
    obtain rfl : es = inner := Option.some.inj hinner
    exact hr.foldlM_eq_ok_iff (Entries.keyed_table_iff.mp hv).distinct fun _ _ => trivial
  | _ => cases hinner

/-- What a section sets is what its settings give over the defaults. -/
theorem view_of_read {σ : Type} {r : Shape σ} {kinds : List (String × Kind)}
    {of : Entries → σ → σ} (hr : r.Reads (fun _ => True) (IsSetting kinds) of)
    {e : String × Value} (he : Readable e) (hname : e.1 ∈ declared.map Prod.fst) {s s' : σ}
    (hs : r.read e.2 s = .ok s') : sectionOf of s e.2 = some s' := by
  obtain ⟨inner, hinner⟩ := Option.isSome_iff_exists.mp (he.table hname)
  rw [sectionOf, hinner, ((read_eq_ok_iff hr he.keyed hinner).mp hs).2]
  rfl

theorem takes_section {σ : Type} {r : Shape σ} {kinds : List (String × Kind)}
    {of : Entries → σ → σ} (hr : r.Reads (fun _ => True) (IsSetting kinds) of)
    {e : String × Value} (he : Readable e) {name : String} (hname : name ∈ declared.map Prod.fst)
    {s : σ} {put : σ → Config → Config} :
    Takes HasOnly e ⟨name, fun v c => do return put (← r.read v s) c⟩ (name, kinds) := by
  refine takes_put fun hk => ?_
  obtain ⟨inner, hinner⟩ := Option.isSome_iff_exists.mp (he.table (hk ▸ hname))
  simp only [read_eq_ok_iff hr he.keyed hinner, HasOnly, hinner, Option.some.injEq,
    exists_eq_left']
  simp

theorem shape_reads : shape.Reads Readable IsSection sectionsOf where
  takes e he c := by
    have hsections : List.Forall₂ (Takes HasOnly e) shape.fields declared :=
      .cons (takes_section discovery_reads he (by decide))
        (.cons (takes_section tools_reads he (by decide))
          (.cons (takes_section coverage_reads he (by decide)) .nil))
    exact takes_iff hsections (by decide) c
  none c := rfl
  first := by
    rintro ⟨k, v⟩ he es c c' hfresh hs
    obtain ⟨f, hf, rfl, hset⟩ := set_of_setEntry hs
    simp only [shape, List.mem_cons, List.not_mem_nil, or_false] at hf
    obtain rfl | rfl | rfl := hf
    all_goals obtain ⟨x, hx, rfl⟩ := set_eq_ok_iff.mp hset
    · have hview := view_of_read discovery_reads he (by simp [declared]) hx
      simp [sectionsOf, settingOr_cons_self hview, settingOr_cons_ne,
        settingOr_fresh hfresh]
    · have hview := view_of_read tools_reads he (by simp [declared]) hx
      simp [sectionsOf, settingOr_cons_self hview, settingOr_cons_ne, settingOr_fresh hfresh]
    · have hview := view_of_read coverage_reads he (by simp [declared]) hx
      simp [sectionsOf, settingOr_cons_self hview, settingOr_cons_ne, settingOr_fresh hfresh]

section

variable {es : Entries} {c : Config}

/-- A document is a configuration exactly if each entry is one that the sections declare. -/
theorem ofDocument_eq_ok_iff (hes : es.Keyed) (hsec : SectionsAreTables es) :
    ofDocument es = .ok c ↔ WellShaped es ∧ c = completed es :=
  shape_reads.foldlM_eq_ok_iff hes.distinct fun e he => ⟨hes.values e he, hsec e he⟩

end

end Config

/-! ## Texts -/

theorem ConfigFault.toFault_config (f : ConfigFault) :
    ∃ message hint, f.toFault = .config message hint := by
  cases f with
  | malformed => exact ⟨_, _, rfl⟩
  | shape f => exact ⟨_, _, rfl⟩
  | rule f => cases f <;> exact ⟨_, _, rfl⟩

namespace Config

/-- A text with a document is accepted exactly if the document has only declared sections and
settings, each of its type, and what it gives over the defaults keeps the rules; the configuration
is that. Neither the order of the sections nor that of their settings matters, and what is refused
is refused as a fault of the configuration. -/
theorem parse_accepts {text : String} {es : Entries} (hdoc : Toml.document? text = some es)
    (hsec : SectionsAreTables es) :
    (∀ c, parse text = .ok c ↔ WellShaped es ∧ c = completed es ∧ c.Sound) ∧
      (∀ f, parse text = .error f → ∃ message hint, f.toFault = .config message hint) ∧
      ∀ text' es', Toml.document? text' = some es' → Reordered es es' →
        ∀ c, parse text' = .ok c ↔ parse text = .ok c := by
  have hes := keyed_of_document? hdoc
  have haccepts {text : String} {es : Entries} (hdoc : Toml.document? text = some es)
      (hsec : SectionsAreTables es) (c : Config) :
      parse text = .ok c ↔ WellShaped es ∧ c = completed es ∧ c.Sound := by
    simp only [parse_eq_ok_iff, hdoc, Option.some.injEq, exists_eq_left', check_eq_ok_iff,
      ofDocument_eq_ok_iff (keyed_of_document? hdoc) hsec, and_assoc]
  refine ⟨haccepts hdoc hsec, fun f _ => f.toFault_config, fun text' es' hdoc' hr c => ?_⟩
  have hsec' : SectionsAreTables es' := (hr.forall_mem_iff SameButOrder.table_iff).mp hsec
  have hshape : WellShaped es ↔ WellShaped es' := hr.forall_mem_iff SameButOrder.isSection_iff
  rw [haccepts hdoc' hsec', haccepts hdoc hsec, hshape, completed_reordered hes hr]

/-- A text that gives two sections in part. -/
def partialText : String := "[tools]\nidf = \"sim.py\"\n\n[coverage]\nfail_under = 80\n"

/-- What it gives. -/
def partialConfig : Config where
  tools := { idf := "sim.py" }
  coverage := { failUnder := some (.ofInt 80) }

theorem parse_accepts_partial :
    ∃ es, Toml.document? partialText = some es ∧ SectionsAreTables es ∧ WellShaped es ∧
      partialConfig = completed es ∧ partialConfig.Sound := by
  have htables : ((Toml.document? partialText).any fun es =>
      es.all fun e => e.2.entries?.isSome) = true := by decide +kernel
  obtain ⟨es, hdoc, hall⟩ := (Option.any_eq_true _ _).mp htables
  have hsec : SectionsAreTables es := fun e he _ => List.all_eq_true.mp hall e he
  have hparse : parse partialText = .ok partialConfig :=
    Except.eq_ok_of_toOption (by decide +kernel)
  exact ⟨es, hdoc, hsec, ((parse_accepts hdoc hsec).1 partialConfig).mp hparse⟩

end Config

end HostSuite
