import HostSuite.Config.Basic
import HostSuite.Proofs.Toml.DistinctKeys

/-
  What a document says about the settings. The sections and their settings are declared here with
  their types (`declared`), and a document that has nothing else is `WellShaped`. What it gives is
  looked up name by name, over the defaults (`completed`), so it is the same for every order of the
  entries (`completed_reordered`).
-/

namespace HostSuite

open Toml

/-! ## Values by their type -/

namespace Toml.Value

def text? : Value → Option String
  | .string s => some s
  | _ => none

/-- The items of an array; an array of tables is one too. -/
def items? : Value → Option (List Value)
  | .array items => some items
  | .tables items => some (items.map (.table .header))
  | _ => none

/-- The texts in an array of texts. -/
def texts? (v : Value) : Option (List String) := v.items?.bind (·.mapM text?)

/-- A float, or the float nearest to an integer. -/
def number? : Value → Option Number.Binary64
  | .float x => some x
  | .integer i => some (.ofInt i)
  | _ => none

/-- The entries of a table. -/
def entries? : Value → Option Entries
  | .table _ es => some es
  | _ => none

end Toml.Value

namespace Config

/-- The types of settings. -/
inductive Kind
  | text
  | texts
  | number
  deriving DecidableEq, Repr

def Kind.admits : Kind → Value → Bool
  | text, v => v.text?.isSome
  | texts, v => v.texts?.isSome
  | number, v => v.number?.isSome

def discoveryKinds : List (String × Kind) :=
  [("descriptor", .text), ("build_dir", .text), ("exclude", .texts)]

def toolKinds : List (String × Kind) :=
  [("idf", .text), ("target", .text), ("lcov", .text), ("genhtml", .text)]

def coverageKinds : List (String × Kind) :=
  [("output_dir", .text), ("ignore_file", .text), ("title", .text), ("fail_under", .number)]

/-- The sections with the types of their settings. -/
def declared : List (String × List (String × Kind)) :=
  [("discovery", discoveryKinds), ("tools", toolKinds), ("coverage", coverageKinds)]

/-- The entry is one of these settings, with a value of its type. -/
def IsSetting (kinds : List (String × Kind)) (e : String × Value) : Prop :=
  ∃ kind, (e.1, kind) ∈ kinds ∧ kind.admits e.2 = true

/-- A table with nothing but these settings. -/
def HasOnly (kinds : List (String × Kind)) (v : Value) : Prop :=
  ∃ inner, v.entries? = some inner ∧ ∀ e ∈ inner, IsSetting kinds e

/-- The entry is one of the sections, with nothing but its own settings. -/
def IsSection (e : String × Value) : Prop :=
  ∃ kinds, (e.1, kinds) ∈ declared ∧ HasOnly kinds e.2

/-- There are only sections with their settings. -/
def WellShaped (es : Entries) : Prop := ∀ e ∈ es, IsSection e

/-- What stands under the name of a section is a table. -/
def SectionsAreTables (es : Entries) : Prop :=
  ∀ e ∈ es, e.1 ∈ declared.map Prod.fst → e.2.entries?.isSome = true

/-! ## What a document gives -/

/-- What an entry of this name gives, or else a default. -/
def settingOr {α : Type} (es : Entries) (name : String) (view : Value → Option α) (default : α) :
    α :=
  ((es.get? name).bind view).getD default

def discoveryOf (es : Entries) (d : DiscoverySettings) : DiscoverySettings where
  descriptor := settingOr es "descriptor" Value.text? d.descriptor
  buildDir := settingOr es "build_dir" Value.text? d.buildDir
  exclude := settingOr es "exclude" Value.texts? d.exclude

def toolsOf (es : Entries) (d : ToolSettings) : ToolSettings where
  idf := settingOr es "idf" Value.text? d.idf
  target := settingOr es "target" Value.text? d.target
  lcov := settingOr es "lcov" Value.text? d.lcov
  genhtml := settingOr es "genhtml" Value.text? d.genhtml

/-- A number as a threshold that is there. -/
def percent? (v : Value) : Option (Option Number.Binary64) := v.number?.map some

def coverageOf (es : Entries) (d : CoverageSettings) : CoverageSettings where
  outputDir := settingOr es "output_dir" Value.text? d.outputDir
  ignoreFile := settingOr es "ignore_file" Value.text? d.ignoreFile
  title := settingOr es "title" Value.text? d.title
  failUnder := settingOr es "fail_under" percent? d.failUnder

/-- A table as a section over its defaults. -/
def sectionOf {σ : Type} (of : Entries → σ → σ) (defaults : σ) (v : Value) : Option σ :=
  v.entries?.map (of · defaults)

/-- The sections of a document, each over its own defaults; a section that is not there is as in
`d`. -/
def sectionsOf (es : Entries) (d : Config) : Config where
  discovery := settingOr es "discovery" (sectionOf discoveryOf {}) d.discovery
  tools := settingOr es "tools" (sectionOf toolsOf {}) d.tools
  coverage := settingOr es "coverage" (sectionOf coverageOf {}) d.coverage

/-- The settings of a document, completed with the defaults. -/
def completed (es : Entries) : Config := sectionsOf es {}

section

variable {α : Type} {es : Entries} {name k : String} {v : Value} {view : Value → Option α} {d x : α}

theorem settingOr_cons_self (hx : view v = some x) : settingOr ((k, v) :: es) k view d = x := by
  simp [settingOr, Entries.get?, hx]

theorem settingOr_cons_ne (hk : name ≠ k) :
    settingOr ((k, v) :: es) name view d = settingOr es name view d := by
  unfold settingOr Entries.get?
  rw [List.lookup_cons, beq_eq_false_iff_ne.mpr hk]

theorem settingOr_fresh (hk : k ∉ es.map Prod.fst) : settingOr es k view d = d := by
  unfold settingOr
  rw [Entries.get?_eq_none_iff.mpr hk]
  rfl

end

/-! ## The order of the entries -/

section

variable {es es' : Entries}

/-- The two entries have one key, and one value or tables with the same entries in another order. -/
inductive SameButOrder : String × Value → String × Value → Prop
  | same (e : String × Value) : SameButOrder e e
  | table (k : String) (o o' : Origin) {inner inner' : Entries} (hp : inner.Perm inner') :
      SameButOrder (k, .table o inner) (k, .table o' inner')

/-- The same sections in another order, with the same settings in another order. -/
def Reordered (es es' : Entries) : Prop :=
  ∃ mid, es.Perm mid ∧ List.Forall₂ SameButOrder mid es'

theorem settingOr_perm {α : Type} {name : String} {view : Value → Option α} {d : α}
    (hd : (es.map Prod.fst).Nodup) (hp : es.Perm es') :
    settingOr es name view d = settingOr es' name view d := by
  unfold settingOr
  rw [Entries.get?_perm hd hp]

theorem discoveryOf_perm (hd : (es.map Prod.fst).Nodup) (hp : es.Perm es') (s : DiscoverySettings) :
    discoveryOf es s = discoveryOf es' s := by
  simp only [discoveryOf, settingOr_perm hd hp]

theorem toolsOf_perm (hd : (es.map Prod.fst).Nodup) (hp : es.Perm es') (s : ToolSettings) :
    toolsOf es s = toolsOf es' s := by
  simp only [toolsOf, settingOr_perm hd hp]

theorem coverageOf_perm (hd : (es.map Prod.fst).Nodup) (hp : es.Perm es') (s : CoverageSettings) :
    coverageOf es s = coverageOf es' s := by
  simp only [coverageOf, settingOr_perm hd hp]

/-- A section is the same in both documents. By the entries: where the names meet, the section is
read from the same settings. -/
theorem settingOr_sameButOrder {σ : Type} {of : Entries → σ → σ} {defaults d : σ} {name : String}
    (hof : ∀ inner inner' : Entries, (inner.map Prod.fst).Nodup → inner.Perm inner' →
      of inner defaults = of inner' defaults)
    (hv : ∀ e ∈ es, e.2.Keyed) (hs : List.Forall₂ SameButOrder es es') :
    settingOr es name (sectionOf of defaults) d = settingOr es' name (sectionOf of defaults) d := by
  induction hs with
  | nil => rfl
  | @cons e e' es es' he _ ih =>
    have hve := hv e List.mem_cons_self
    have ih := ih fun e he => hv e (List.mem_cons_of_mem _ he)
    obtain ⟨k, v⟩ := e
    have hview : e'.1 = k ∧ sectionOf of defaults e'.2 = sectionOf of defaults v := by
      cases he with
      | same => exact ⟨rfl, rfl⟩
      | table _ o o' hp =>
        exact ⟨rfl, congrArg some (hof _ _ (Entries.keyed_table_iff.mp hve).distinct hp).symm⟩
    obtain ⟨k', v'⟩ := e'
    obtain ⟨rfl, hview⟩ := hview
    by_cases hk : name = k'
    · subst hk
      simp only [settingOr, Entries.get?, List.lookup_cons_self, Option.bind_some, hview]
    · rw [settingOr_cons_ne hk, settingOr_cons_ne hk, ih]

theorem completed_reordered (hes : es.Keyed) (hr : Reordered es es') :
    completed es = completed es' := by
  obtain ⟨mid, hp, hs⟩ := hr
  have hv : ∀ e ∈ mid, e.2.Keyed := fun e he => hes.values e (hp.symm.subset he)
  unfold completed sectionsOf
  simp only [settingOr_perm hes.distinct hp,
    settingOr_sameButOrder (fun _ _ hd hp => discoveryOf_perm hd hp {}) hv hs,
    settingOr_sameButOrder (fun _ _ hd hp => toolsOf_perm hd hp {}) hv hs,
    settingOr_sameButOrder (fun _ _ hd hp => coverageOf_perm hd hp {}) hv hs]

theorem SameButOrder.isSection_iff {e e' : String × Value} (h : SameButOrder e e') :
    IsSection e ↔ IsSection e' := by
  cases h with
  | same => rfl
  | table k o o' hp =>
    simp only [IsSection, HasOnly, Value.entries?, Option.some.injEq, exists_eq_left', hp.mem_iff]

theorem SameButOrder.table_iff {e e' : String × Value} (h : SameButOrder e e') :
    (e.1 ∈ declared.map Prod.fst → e.2.entries?.isSome = true) ↔
      (e'.1 ∈ declared.map Prod.fst → e'.2.entries?.isSome = true) := by
  cases h with
  | same => rfl
  | table k o o' hp => simp [Value.entries?]

/-- What holds of each entry of a document holds of each entry of a reordered one. -/
theorem Reordered.forall_mem_iff {P : String × Value → Prop}
    (hP : ∀ {e e'}, SameButOrder e e' → (P e ↔ P e')) (hr : Reordered es es') :
    (∀ e ∈ es, P e) ↔ ∀ e ∈ es', P e := by
  obtain ⟨mid, hp, hs⟩ := hr
  have hmid : (∀ e ∈ mid, P e) ↔ ∀ e ∈ es', P e := by
    clear hp
    induction hs with
    | nil => simp
    | cons he _ ih => rw [List.forall_mem_cons, List.forall_mem_cons, hP he, ih]
  rw [← hmid]
  simp only [hp.mem_iff]

end

end Config

end HostSuite
