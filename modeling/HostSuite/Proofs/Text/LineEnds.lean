import HostSuite.Terminal
import HostSuite.Text.Utf8

/-
  Lines with their ends. Bytes that end in a line feed split off as lines: what comes after them
  begins a line of its own (`LineEnded.lines_append`). Texts that are made of lines are of this
  kind.
-/

namespace HostSuite

/-- Nothing, or lines that all have their ends. -/
def LineEnded (bs : Text.Bytes) : Prop := bs = [] ∨ ∃ front, bs = front ++ [10]

/-- The pieces between the line feeds. -/
def byteLines (bs : Text.Bytes) : List Text.Bytes := bs.splitOn 10

theorem Text.encode_append (s s' : String) :
    Text.encode (s ++ s') = Text.encode s ++ Text.encode s' := by
  unfold Text.encode
  rw [String.toList_append, List.flatMap_append]

theorem LineEnded.nil : LineEnded [] := .inl rfl

theorem LineEnded.append {bs bs' : Text.Bytes} (hb : LineEnded bs) (hb' : LineEnded bs') :
    LineEnded (bs ++ bs') := by
  obtain rfl | ⟨front, rfl⟩ := hb'
  · rw [List.append_nil]
    exact hb
  · exact .inr ⟨bs ++ front, (List.append_assoc ..).symm⟩

/-- A text whose last part ends a line. -/
theorem lineEnded_append (text : String) {last : String} {bs : Text.Bytes}
    (hl : Text.encode last = bs ++ [10]) : LineEnded (Text.encode (text ++ last)) :=
  .inr ⟨Text.encode text ++ bs, by rw [Text.encode_append, hl, List.append_assoc]⟩

theorem lineEnded_line (text : String) : LineEnded (Text.encode (text ++ "\n")) :=
  @lineEnded_append text "\n" [] rfl

theorem lineEnded_join {texts : List String} (ht : ∀ s ∈ texts, LineEnded (Text.encode s)) :
    LineEnded (Text.encode (String.join texts)) := by
  induction texts with
  | nil => exact .nil
  | cons s texts ih =>
    rw [String.join_cons, Text.encode_append]
    exact .append (ht s List.mem_cons_self) (ih fun s' hs' => ht s' (List.mem_cons_of_mem _ hs'))

/-- What comes after ended lines begins a line of its own. -/
theorem LineEnded.lines_append {bs : Text.Bytes} (hb : LineEnded bs) :
    ∃ ls, ∀ bs', byteLines (bs ++ bs') = ls ++ byteLines bs' := by
  obtain rfl | ⟨front, rfl⟩ := hb
  · exact ⟨[], fun bs' => rfl⟩
  · refine ⟨byteLines front, fun bs' => ?_⟩
    rw [List.append_assoc]
    exact List.splitOn_append_cons_self front bs'

theorem lineEnded_notice (n : Notice) (s : Style) (message : String) :
    LineEnded (Text.encode (n.line s message)) :=
  lineEnded_line _

theorem lineEnded_indented (text : String) : LineEnded (Text.encode (indented text)) := by
  refine lineEnded_join fun s hs => ?_
  obtain ⟨l, -, rfl⟩ := List.mem_map.mp hs
  exact lineEnded_line _

end HostSuite
