import Mathlib.Data.String.Basic
import Mathlib.Tactic.SplitIfs
import HostSuite.Text.Utf8

/-
  The order of texts is the order of their bytes. The first byte of a character tells how many
  follow, and the longer forms begin with the larger bytes; so two characters are told apart by the
  bytes they have, whatever comes after them (`encodeChar_append_lt`), and two texts by the first
  character in which they differ (`encode_lt_encode`). So names in ascending order are what sorting
  by bytes makes of them in any order (`inByteOrder_of_perm`).
-/

namespace HostSuite.Text

theorem toUInt8_lt_iff {a b : Nat} (ha : a < 256) (hb : b < 256) :
    a.toUInt8 < b.toUInt8 ↔ a < b := by
  rw [UInt8.lt_iff_toNat_lt]
  show a % 256 < b % 256 ↔ a < b
  omega

theorem toUInt8_eq_iff {a b : Nat} (ha : a < 256) (hb : b < 256) :
    a.toUInt8 = b.toUInt8 ↔ a = b := by
  rw [← UInt8.toNat_inj]
  show a % 256 = b % 256 ↔ a = b
  omega

theorem toNat_lt_of_char (c : Char) : c.toNat < 0x110000 := by
  have hc := c.valid
  unfold UInt32.isValidChar Nat.isValidChar at hc
  show c.val.toNat < 0x110000
  omega

/-- One case for each pair of lengths; in each of them the bytes are compared digit by digit. -/
theorem encodeChar_append_lt {c d : Char} (h : c < d) (xs ys : Bytes) :
    encodeChar c ++ xs < encodeChar d ++ ys := by
  have hlt : c.toNat < d.toNat := h
  have hd := toNat_lt_of_char d
  unfold encodeChar
  generalize c.toNat = m at hlt
  generalize d.toNat = n at hlt hd
  dsimp only
  split_ifs <;>
    simp (disch := omega) only [List.cons_append, List.nil_append, List.cons_lt_cons_iff,
      toUInt8_lt_iff, toUInt8_eq_iff] <;>
    omega

theorem encodeChar_ne_nil (c : Char) : encodeChar c ≠ [] := by
  unfold encodeChar
  dsimp only
  split_ifs <;> simp

theorem append_lt_append {xs ys : Bytes} (zs : Bytes) (h : xs < ys) : zs ++ xs < zs ++ ys := by
  induction zs with
  | nil => exact h
  | cons z zs ih => exact List.cons_lt_cons_iff.mpr (.inr ⟨rfl, ih⟩)

theorem flatMap_encodeChar_lt {cs ds : List Char} (h : cs < ds) :
    cs.flatMap encodeChar < ds.flatMap encodeChar := by
  induction cs generalizing ds with
  | nil =>
    cases ds with
    | nil => exact absurd h (List.lt_irrefl [])
    | cons d ds =>
      obtain ⟨b, bs, hb⟩ := List.exists_cons_of_ne_nil (encodeChar_ne_nil d)
      rw [List.flatMap_cons, hb]
      exact List.nil_lt_cons _ _
  | cons c cs ih =>
    cases ds with
    | nil => exact absurd h (List.not_lt_nil _)
    | cons d ds =>
      rw [List.flatMap_cons, List.flatMap_cons]
      obtain hc | ⟨rfl, hcs⟩ := List.cons_lt_cons_iff.mp h
      · exact encodeChar_append_lt hc _ _
      · exact append_lt_append _ (ih hcs)

theorem encode_lt_encode {s t : String} (h : s < t) : encode s < encode t :=
  flatMap_encodeChar_lt h

theorem encode_injective : Function.Injective encode := by
  intro s t he
  obtain h | h | h := lt_trichotomy s t
  · exact absurd (he ▸ encode_lt_encode h) (List.lt_irrefl _)
  · exact h
  · exact absurd (he ▸ encode_lt_encode h) (List.lt_irrefl _)

/-- Names sorted by their bytes. -/
def inByteOrder (names : List String) : List String :=
  names.mergeSort fun a b => encode a ≤ encode b

/-- Sorting gives ascending names back in whatever order they come. -/
theorem inByteOrder_of_perm {names listed : List String} (hp : listed.Perm names)
    (hs : names.Pairwise (· < ·)) : inByteOrder listed = names := by
  have hsorted : (inByteOrder listed).Pairwise fun a b => encode a ≤ encode b := by
    have := @List.pairwise_mergeSort _ (fun a b => decide (encode a ≤ encode b))
      (fun a b c hab hbc => by simpa using List.le_trans (by simpa using hab) (by simpa using hbc))
      (fun a b => by simpa using List.le_total (encode a) (encode b)) listed
    simpa [inByteOrder] using this
  refine List.Perm.eq_of_pairwise (fun a b _ _ hab hba => ?_) hsorted
    (hs.imp fun h => List.le_of_lt (encode_lt_encode h)) ((List.mergeSort_perm _ _).trans hp)
  exact encode_injective (List.le_antisymm hab hba)

end HostSuite.Text
