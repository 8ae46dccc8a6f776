import Mathlib.Data.List.Nodup
import HostSuite.Toml.Document

/-
  Documents have no key twice. Entries are `Keyed` when their keys are distinct and what stands
  under them is a value in which the keys of every table are distinct. Each edit of a draft keeps
  its entries so, because a key is only added where there is none (`Entries.Keyed.alter`), and so
  does each reader of values; hence every document that is read is keyed (`keyed_of_document?`).
-/

namespace HostSuite.Toml

/-- In no table of the value, at any depth, is there a key twice. -/
inductive Value.Keyed : Value → Prop
  | string (s : String) : Keyed (.string s)
  | integer (i : Int) : Keyed (.integer i)
  | float (x : Number.Binary64) : Keyed (.float x)
  | boolean (b : Bool) : Keyed (.boolean b)
  | moment : Keyed .moment
  | array {items : List Value} (hv : ∀ v ∈ items, Keyed v) : Keyed (.array items)
  | table {origin : Origin} {es : Entries} (hd : (es.map Prod.fst).Nodup)
      (hv : ∀ e ∈ es, Keyed e.2) : Keyed (.table origin es)
  | tables {items : List Entries} (hv : ∀ es ∈ items, Keyed (.table .header es)) :
      Keyed (.tables items)

/-- The keys are distinct, and so are those in every table further in. -/
structure Entries.Keyed (es : Entries) : Prop where
  distinct : (es.map Prod.fst).Nodup
  values : ∀ e ∈ es, e.2.Keyed

namespace Entries

variable {α : Type} {es es' : Entries} {key : String} {v : Value} {origin : Origin}

theorem keyed_table_iff : (Value.table origin es).Keyed ↔ es.Keyed :=
  ⟨fun h => by cases h with | table hd hv => exact ⟨hd, hv⟩, fun h => .table h.distinct h.values⟩

theorem get?_eq_none_iff : es.get? key = none ↔ key ∉ es.map Prod.fst := by
  unfold get?
  rw [List.lookup_eq_none_iff]
  simp only [bne_iff_ne, List.mem_map, not_exists, not_and]
  exact ⟨fun h e he hk => h e he hk.symm, fun h e he hk => h e he hk.symm⟩

theorem mem_of_get? (hg : es.get? key = some v) : (key, v) ∈ es := by
  obtain ⟨front, back, rfl, -⟩ := List.lookup_eq_some_iff.mp hg
  simp

/-- With distinct keys an entry is what its key gives. -/
theorem get?_of_mem (hd : (es.map Prod.fst).Nodup) (hm : (key, v) ∈ es) :
    es.get? key = some v := by
  obtain ⟨front, back, rfl⟩ := List.append_of_mem hm
  refine List.lookup_eq_some_iff.mpr ⟨front, back, rfl, fun p hp => ?_⟩
  rw [List.map_append, List.map_cons] at hd
  have hfresh := (List.nodup_middle.mp hd).notMem
  simp only [bne_iff_ne, ne_eq]
  rintro rfl
  exact hfresh (List.mem_append_left _ (List.mem_map.mpr ⟨p, hp, rfl⟩))

/-- With distinct keys the order of the entries does not matter. -/
theorem get?_perm (hd : (es.map Prod.fst).Nodup) (hp : es.Perm es') :
    es.get? key = es'.get? key := by
  have hd' : (es'.map Prod.fst).Nodup := (hp.map Prod.fst).nodup_iff.mp hd
  refine Option.ext fun v => ⟨fun hv => ?_, fun hv => ?_⟩
  · exact get?_of_mem hd' (hp.subset (mem_of_get? hv))
  · exact get?_of_mem hd (hp.symm.subset (mem_of_get? hv))

theorem keyed_nil : Keyed [] := ⟨List.nodup_nil, by simp⟩

namespace Keyed

theorem of_get? (hes : es.Keyed) (hg : es.get? key = some v) : v.Keyed :=
  hes.values _ (mem_of_get? hg)

/-- A key is added only where there is none. -/
theorem concat (hes : es.Keyed) (hnone : es.get? key = none) (hv : v.Keyed) :
    Keyed (es ++ [(key, v)]) := by
  refine ⟨?_, ?_⟩
  · rw [List.map_append]
    refine List.nodup_append.mpr ⟨hes.distinct, List.nodup_singleton _, ?_⟩
    rintro k hk _ hk' rfl
    obtain rfl : k = key := List.mem_singleton.mp hk'
    exact get?_eq_none_iff.mp hnone hk
  · intro e he
    obtain he | he := List.mem_append.mp he
    · exact hes.values e he
    · rw [List.mem_singleton.mp he]
      exact hv

theorem replace (hes : es.Keyed) (hv : v.Keyed) : Keyed (es.replace key v) := by
  refine ⟨?_, ?_⟩
  · have hkeys : (es.replace key v).map Prod.fst = es.map Prod.fst := by
      unfold Entries.replace
      rw [List.map_map]
      refine List.map_congr_left fun e _ => ?_
      show Prod.fst (if e.1 = key then _ else _) = _
      split <;> simp_all
    rw [hkeys]
    exact hes.distinct
  · intro e he
    obtain ⟨f, hf, rfl⟩ := List.mem_map.mp he
    split
    · exact hv
    · exact hes.values f hf

theorem erase (hes : es.Keyed) : Keyed (es.erase key) :=
  ⟨hes.distinct.sublist (List.filter_sublist.map _),
    fun e he => hes.values e (List.mem_of_mem_filter he)⟩

theorem add (hes : es.Keyed) (hv : v.Keyed) {u : Unit} (ha : Entries.add key v es = some (es', u)) :
    es'.Keyed := by
  unfold Entries.add at ha
  cases hg : es.get? key with
  | none =>
    rw [hg] at ha
    obtain ⟨rfl, -⟩ := Prod.mk.inj (Option.some.inj ha)
    exact hes.concat hg hv
  | some w =>
    rw [hg] at ha
    cases ha

/-- A change of a table further in keeps the keys distinct if the change itself does; `Q` is what is
known of its answer. By induction on the path to that table. -/
theorem alter {maker : Origin} {change : Origin → Entries → Option (Entries × α)} {Q : α → Prop}
    (hchange : ∀ o es es' a, Keyed es → change o es = some (es', a) → Keyed es' ∧ Q a)
    {self : Origin} {path : List String} {a : α} (hes : es.Keyed)
    (ha : Entries.alter maker change self path es = some (es', a)) : es'.Keyed ∧ Q a := by
  induction path generalizing self es es' with
  | nil => exact hchange _ _ _ _ hes ha
  | cons k path ih =>
    unfold Entries.alter at ha
    cases hg : es.get? k with
    | none =>
      rw [hg] at ha
      obtain ⟨⟨made, b⟩, hmade, heq⟩ := Option.map_eq_some_iff.mp ha
      obtain ⟨rfl, rfl⟩ := Prod.mk.inj heq
      obtain ⟨hkeyed, hq⟩ := ih keyed_nil hmade
      exact ⟨hes.concat hg (keyed_table_iff.mpr hkeyed), hq⟩
    | some v =>
      rw [hg] at ha
      have hv := hes.of_get? hg
      cases v with
      | table o inner =>
        dsimp only at ha
        split at ha
        · obtain ⟨⟨made, b⟩, hmade, heq⟩ := Option.map_eq_some_iff.mp ha
          obtain ⟨rfl, rfl⟩ := Prod.mk.inj heq
          obtain ⟨hkeyed, hq⟩ := ih (keyed_table_iff.mp hv) hmade
          exact ⟨hes.replace (keyed_table_iff.mpr hkeyed), hq⟩
        · cases ha
      | tables items =>
        cases hv with
        | tables hitems =>
          dsimp only at ha
          cases hlast : items.getLast? with
          | none =>
            rw [hlast] at ha
            cases ha
          | some last =>
            rw [hlast] at ha
            obtain ⟨⟨made, b⟩, hmade, heq⟩ := Option.map_eq_some_iff.mp ha
            obtain ⟨rfl, rfl⟩ := Prod.mk.inj heq
            have hmem := List.mem_of_getLast? hlast
            obtain ⟨hkeyed, hq⟩ := ih (keyed_table_iff.mp (hitems last hmem)) hmade
            refine ⟨hes.replace (.tables fun t ht => ?_), hq⟩
            obtain ht | ht := List.mem_append.mp ht
            · exact hitems t (List.dropLast_subset _ ht)
            · rw [List.mem_singleton.mp ht]
              exact keyed_table_iff.mpr hkeyed
      | string s => cases ha
      | integer i => cases ha
      | float x => cases ha
      | boolean b => cases ha
      | moment => cases ha
      | array items => cases ha

theorem addDotted (hes : es.Keyed) (hv : v.Keyed) {self : Origin} {path : List String}
    (ha : es.addDotted self path key v = some es') : es'.Keyed := by
  obtain ⟨⟨made, u⟩, hmade, rfl⟩ := Option.map_eq_some_iff.mp ha
  refine (hes.alter (Q := fun _ => True) (fun o inner inner' u hinner hchange => ?_) hmade).1
  split at hchange
  · cases hchange
  · exact ⟨hinner.add hv hchange, trivial⟩

end Keyed

end Entries

/-! ## Values -/

/-- What a reader of values reads is keyed. -/
def ReadsKeyed (read : ValueReader) : Prop := ∀ cs v rest, read cs = some (v, rest) → v.Keyed

theorem readsKeyed_number : ReadsKeyed number := by
  have hinteger {i : Int} {cs rest : List Char} {v : Value}
      (h : integerOf? i cs = some (v, rest)) : v.Keyed := by
    unfold integerOf? at h
    split at h
    · cases h
      exact .integer _
    · cases h
  have hfloat {ds cs rest : List Char} {v : Value} (h : floatOf? ds cs = some (v, rest)) :
      v.Keyed := by
    unfold floatOf? at h
    split at h
    · cases h
    · cases h
      exact .float _
    · cases h
  have hbased {base : Nat} {cs rest : List Char} {v : Value}
      (h : basedInteger base cs = some (v, rest)) : v.Keyed := by
    obtain ⟨r, -, hr⟩ := Option.bind_eq_some_iff.mp h
    exact hinteger hr
  have hdecimal {cs rest : List Char} {v : Value} (h : decimalNumber cs = some (v, rest)) :
      v.Keyed := by
    unfold decimalNumber at h
    simp only [Option.bind_eq_bind, Option.bind_eq_some_iff] at h
    obtain ⟨whole, -, fraction, -, exponent, -, h⟩ := h
    split at h
    · exact hinteger h
    · exact hfloat h
  intro cs v rest h
  unfold number at h
  split at h
  · exact hbased h
  · exact hbased h
  · exact hbased h
  · dsimp only at h
    split at h
    · cases h
      exact .float _
    · cases h
      exact .float _
    · exact hdecimal h

theorem readsKeyed_scalar : ReadsKeyed scalar := by
  have hstring {cs rest : List Char} {v : Value}
      (h : (stringValue cs).map (fun r => (Value.string r.1, r.2)) = some (v, rest)) : v.Keyed := by
    obtain ⟨r, -, hr⟩ := Option.map_eq_some_iff.mp h
    cases hr
    exact .string _
  have hmoment {rest : List Char} {r : Option (List Char)} {v : Value}
      (h : r.map (Value.moment, ·) = some (v, rest)) : v.Keyed := by
    obtain ⟨r, -, hr⟩ := Option.map_eq_some_iff.mp h
    cases hr
    exact .moment
  intro cs v rest h
  unfold scalar at h
  split at h
  · cases h
    exact .boolean _
  · cases h
    exact .boolean _
  · exact hstring h
  · exact hstring h
  · unfold numberOrMoment at h
    split at h
    · exact hmoment h
    · split at h
      · exact hmoment h
      · exact readsKeyed_number cs v rest h

section

variable {read : ValueReader} (hread : ReadsKeyed read)

include hread

theorem keyed_of_arrayItems {fuel : Nat} {cs rest : List Char} {items : List Value}
    (h : arrayItems read fuel cs = some (items, rest)) : ∀ v ∈ items, v.Keyed := by
  induction fuel generalizing cs items with
  | zero => cases h
  | succ fuel ih =>
    unfold arrayItems at h
    split at h
    · cases h
    · cases h
      simp
    · split at h
      · cases h
      · rename_i v rest' hv
        split at h
        · obtain ⟨⟨more, r⟩, hmore, heq⟩ := Option.map_eq_some_iff.mp h
          cases heq
          exact List.forall_mem_cons.mpr ⟨hread _ _ _ hv, ih hmore⟩
        · cases h
          simpa using hread _ _ _ hv
        · cases h

theorem keyed_of_keyValue {cs rest : List Char} {k : List String × String} {v : Value}
    (h : keyValue read cs = some ((k, v), rest)) : v.Keyed := by
  unfold keyValue at h
  split at h
  · obtain ⟨⟨w, r⟩, hw, heq⟩ := Option.map_eq_some_iff.mp h
    cases heq
    exact hread _ _ _ hw
  · cases h

theorem keyed_of_braceEntries {fuel : Nat} {cs rest : List Char} {es es' : Entries}
    (hes : es.Keyed) (h : braceEntries read fuel es cs = some (es', rest)) : es'.Keyed := by
  induction fuel generalizing cs es with
  | zero => cases h
  | succ fuel ih =>
    unfold braceEntries at h
    split at h
    · cases h
    · rename_i path last v rest' hkv
      have hv := keyed_of_keyValue hread hkv
      split at h
      · rename_i es₁ rest₁ hadd _
        exact ih (hes.addDotted hv hadd) h
      · rename_i es₁ rest₁ hadd _
        cases h
        exact hes.addDotted hv hadd
      · cases h

theorem keyed_of_braceTable {cs rest : List Char} {es : Entries}
    (h : braceTable read cs = some (es, rest)) : es.Keyed := by
  unfold braceTable at h
  split at h
  · cases h
    exact Entries.keyed_nil
  · exact keyed_of_braceEntries hread Entries.keyed_nil h

end

/-- By induction on the depth: the values in an array or in a table in braces are one level down. -/
theorem readsKeyed_value (depth : Nat) : ReadsKeyed (value depth) := by
  induction depth with
  | zero => exact readsKeyed_scalar
  | succ depth ih =>
    intro cs v rest h
    unfold value at h
    split at h
    · obtain ⟨⟨items, r⟩, hitems, heq⟩ := Option.map_eq_some_iff.mp h
      cases heq
      exact .array (keyed_of_arrayItems ih hitems)
    · obtain ⟨⟨es, r⟩, hes, heq⟩ := Option.map_eq_some_iff.mp h
      cases heq
      exact Entries.keyed_table_iff.mpr (keyed_of_braceTable ih hes)
    · exact readsKeyed_scalar _ _ _ h

/-! ## Documents -/

namespace Draft

/-- The finished tables and the one that is being written are keyed. -/
structure Keyed (d : Draft) : Prop where
  done : d.done.Keyed
  current : d.current.Keyed

variable {d d' : Draft} {es es' : Entries} {k : String}

theorem keyed_of_pushItem {item : Entries} {u : Unit} (hes : es.Keyed) (hitem : item.Keyed)
    (h : pushItem k item es = some (es', u)) : es'.Keyed := by
  unfold pushItem at h
  split at h
  · rename_i hg
    cases h
    exact hes.concat hg (.tables (by simpa using Entries.keyed_table_iff.mpr hitem))
  · rename_i items hg
    cases h
    cases hes.of_get? hg with
    | tables hitems =>
      refine hes.replace (.tables fun t ht => ?_)
      obtain ht | ht := List.mem_append.mp ht
      · exact hitems t ht
      · rw [List.mem_singleton.mp ht]
        exact Entries.keyed_table_iff.mpr hitem
  · cases h

theorem Keyed.settle (hd : d.Keyed) (h : d.settle = some es) : es.Keyed := by
  unfold Draft.settle at h
  split at h
  · cases h
    exact hd.current
  · obtain ⟨⟨made, u⟩, hmade, rfl⟩ := Option.map_eq_some_iff.mp h
    exact (hd.done.alter (Q := fun _ => True) (fun _ _ _ _ hin hadd =>
      ⟨hin.add (Entries.keyed_table_iff.mpr hd.current) hadd, trivial⟩) hmade).1
  · obtain ⟨⟨made, u⟩, hmade, rfl⟩ := Option.map_eq_some_iff.mp h
    exact (hd.done.alter (Q := fun _ => True) (fun _ _ _ _ hin hpush =>
      ⟨keyed_of_pushItem hin hd.current hpush, trivial⟩) hmade).1

theorem keyed_of_takeImplied {inner : Entries} (hes : es.Keyed)
    (h : takeImplied k es = some (es', inner)) : es'.Keyed ∧ inner.Keyed := by
  unfold takeImplied at h
  split at h
  · cases h
    exact ⟨hes, Entries.keyed_nil⟩
  · rename_i hg
    cases h
    exact ⟨hes.erase, Entries.keyed_table_iff.mp (hes.of_get? hg)⟩
  · cases h

theorem keyed_of_openItems {u : Unit} (hes : es.Keyed) (h : openItems k es = some (es', u)) :
    es'.Keyed := by
  unfold openItems at h
  split at h
  · rename_i hg
    cases h
    exact hes.concat hg (.tables (by simp))
  · cases h
    exact hes
  · cases h

theorem Keyed.openTable {path : List String} (hd : d.Keyed)
    (h : d.openTable path k = some d') : d'.Keyed := by
  obtain ⟨done, hdone, h⟩ := Option.bind_eq_some_iff.mp h
  obtain ⟨⟨made, inner⟩, hmade, rfl⟩ := Option.map_eq_some_iff.mp h
  obtain ⟨hkeyed, hinner⟩ := (hd.settle hdone).alter (Q := Entries.Keyed)
    (fun _ _ _ _ hin htake => keyed_of_takeImplied hin htake) hmade
  exact ⟨hkeyed, hinner⟩

theorem Keyed.openItem {path : List String} (hd : d.Keyed)
    (h : d.openItem path k = some d') : d'.Keyed := by
  obtain ⟨done, hdone, h⟩ := Option.bind_eq_some_iff.mp h
  obtain ⟨⟨made, u⟩, hmade, rfl⟩ := Option.map_eq_some_iff.mp h
  exact ⟨((hd.settle hdone).alter (Q := fun _ => True) (fun _ _ _ _ hin hopen =>
    ⟨keyed_of_openItems hin hopen, trivial⟩) hmade).1, Entries.keyed_nil⟩

theorem Keyed.addKeyValue {path : List String} {v : Value} (hd : d.Keyed) (hv : v.Keyed)
    (h : d.addKeyValue path k v = some d') : d'.Keyed := by
  obtain ⟨es, hes, rfl⟩ := Option.map_eq_some_iff.mp h
  exact ⟨hd.done, hd.current.addDotted hv hes⟩

theorem Keyed.readLine {cs rest : List Char} (hd : d.Keyed)
    (h : d.readLine cs = some (d', rest)) : d'.Keyed := by
  have hkept {r : Option (List Char)} (h : r.map (d, ·) = some (d', rest)) : d'.Keyed := by
    obtain ⟨r, -, heq⟩ := Option.map_eq_some_iff.mp h
    cases heq
    exact hd
  have hnext {r : Option (List Char)} {next : Option Draft}
      (h : (r.bind fun rest => next.map (·, rest)) = some (d', rest)) : next = some d' := by
    obtain ⟨r, -, h⟩ := Option.bind_eq_some_iff.mp h
    obtain ⟨d₁, rfl, heq⟩ := Option.map_eq_some_iff.mp h
    cases heq
    rfl
  unfold Draft.readLine at h
  split at h
  · split at h
    · exact hd.openItem (hnext h)
    · cases h
  · split at h
    · exact hd.openTable (hnext h)
    · cases h
  · exact hkept h
  · exact hkept h
  · exact hkept h
  · split at h
    · rename_i hkv
      exact hd.addKeyValue (keyed_of_keyValue (readsKeyed_value maxDepth) hkv) (hnext h)
    · cases h

/-- Each line keeps the draft keyed, so what all lines leave is keyed. -/
theorem Keyed.readLines {fuel : Nat} {cs : List Char} (hd : d.Keyed)
    (h : readLines fuel d cs = some es) : es.Keyed := by
  induction fuel generalizing d cs with
  | zero => cases h
  | succ fuel ih =>
    unfold Draft.readLines at h
    split at h
    · exact hd.settle h
    · split at h
      · rename_i hline
        exact ih (hd.readLine hline) h
      · cases h

end Draft

/-- A document that is read has no key twice, at any depth. -/
theorem keyed_of_document? {text : String} {es : Entries} (h : document? text = some es) :
    es.Keyed :=
  Draft.Keyed.readLines ⟨Entries.keyed_nil, Entries.keyed_nil⟩ h

end HostSuite.Toml
