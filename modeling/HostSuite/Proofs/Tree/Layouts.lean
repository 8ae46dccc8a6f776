import HostSuite.Tree.Layout

/-
  What all laid out trees have in common. An entry is brought about by making directories, putting
  a link, writing a file and changing its mode, or removing what is there; a property of trees that
  each of these keeps (`LayoutInvariant`) is kept by every list of entries
  (`LayoutInvariant.putAll`).
-/

namespace HostSuite.Tree

/-- Each change that an entry asks for keeps a property of trees. -/
structure LayoutInvariant (base : Place) (P : Tree → Prop) : Prop where
  makeDirs : ∀ {t : Tree} (p : Path), P t → P (t.makeDirs base p).1
  link : ∀ {t : Tree} {p : Path} {place : Place} (target : String), P t →
    t.resolve base p false = .ok place → t.lookup place = none → P (t.set place (.link target))
  write : ∀ {t t' : Tree} {p : Path} {content : Text.Bytes}, P t →
    t.write base p content = .ok t' → P t'
  setMode : ∀ {t t' : Tree} {p : Path} {mode : Nat}, P t → t.setMode base p mode = .ok t' → P t'
  removeDirs : ∀ {t : Tree} (p : Path), P t → P (t.removeDirs base p).1
  removeFile : ∀ {t t' : Tree} {p : Path}, P t → t.removeFile base p = .ok t' → P t'

namespace LayoutInvariant

variable {base : Place} {P : Tree → Prop} {t : Tree} (hP : LayoutInvariant base P)

include hP

theorem withParents (ht : P t) (p : Path) : P (t.withParents base p) := by
  unfold Tree.withParents
  split
  · exact hP.makeDirs _ ht
  · exact ht

theorem putEntry (ht : P t) (e : LayoutEntry) : P (t.putEntry base e) := by
  cases e with
  | dir p => exact hP.makeDirs p ht
  | link p target =>
    have hpar := hP.withParents ht p
    simp only [Tree.putEntry]
    split
    · rename_i place hp
      split
      · exact hpar
      · rename_i hnone
        exact hP.link target hpar hp (by simpa using hnone)
    · exact hpar
  | file p content mode =>
    have hpar := hP.withParents ht p
    simp only [Tree.putEntry]
    split
    · rename_i written hw
      have hwritten := hP.write hpar hw
      cases hm : written.setMode base p mode with
      | error e => exact hwritten
      | ok t' => exact hP.setMode hwritten hm
    · exact hpar
  | absent p =>
    simp only [Tree.putEntry]
    split
    · exact hP.removeDirs p ht
    · cases hr : t.removeFile base p with
      | error e => exact ht
      | ok t' => exact hP.removeFile ht hr
    · exact ht

/-- Entry by entry. -/
theorem putAll (ht : P t) (entries : List LayoutEntry) : P (t.putAll base entries) := by
  unfold Tree.putAll
  induction entries generalizing t with
  | nil => exact ht
  | cons e entries ih => exact ih (hP.putEntry ht e)

end LayoutInvariant

end HostSuite.Tree
