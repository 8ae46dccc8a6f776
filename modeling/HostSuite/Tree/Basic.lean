import Std.Data.ExtTreeMap
import HostSuite.Text.Utf8

/-
  A tree of files. A place is the list of names from the top; a tree says which node is at
  which place. The top itself is always a directory. Two trees with the same node at every
  place are equal, and the names in a directory come in ascending order.
-/

namespace HostSuite

/-- The names from the top down. -/
abbrev Place := List String

/-- What is at a place. The mode holds the permission bits of the owner, the group and others. -/
inductive Node
  | file (content : Text.Bytes) (mode : Nat)
  | dir (mode : Nat)
  | link (target : String)
  deriving DecidableEq, Repr

structure Tree where
  nodes : Std.ExtTreeMap Place Node compare

/-- Permission bits of the owner. -/
def readBit : Nat := 0o400
def writeBit : Nat := 0o200
def searchBit : Nat := 0o100

def hasBit (mode bit : Nat) : Bool := mode &&& bit != 0

namespace Tree

def empty : Tree := ⟨∅⟩

instance : Inhabited Tree := ⟨empty⟩

/-- The node at a place. -/
def lookup (t : Tree) (p : Place) : Option Node :=
  if p = [] then some (.dir 0o755) else t.nodes[p]?

/-- Puts a node at a place. -/
def set (t : Tree) (p : Place) (n : Node) : Tree := ⟨t.nodes.insert p n⟩

/-- Leaves nothing at a place. -/
def clear (t : Tree) (p : Place) : Tree := ⟨t.nodes.erase p⟩

/-- The nodes at and below a place, with their places in ascending order. -/
def under (t : Tree) (p : Place) : List (Place × Node) :=
  t.nodes.toList.filter fun (q, _) => p.isPrefixOf q

/-- `q` is a name directly in `p`; that name. -/
def childName? (p q : Place) : Option String :=
  if p.isPrefixOf q && q.length = p.length + 1 then q.getLast? else none

/-- The names in a directory, ascending. -/
def namesIn (t : Tree) (p : Place) : List String := t.nodes.keys.filterMap (childName? p)

theorem lookup_set_self (t : Tree) (p : Place) (n : Node) (h : p ≠ []) :
    (t.set p n).lookup p = some n := by
  simp [lookup, set, h]

theorem lookup_set_ne (t : Tree) {p q : Place} (n : Node) (h : p ≠ q) :
    (t.set p n).lookup q = t.lookup q := by
  simp only [lookup, set, Std.ExtTreeMap.getElem?_insert]
  split
  · rfl
  · rw [if_neg (by simpa using h)]

theorem lookup_clear_self (t : Tree) (p : Place) (h : p ≠ []) : (t.clear p).lookup p = none := by
  simp [lookup, clear, h]

theorem lookup_clear_ne (t : Tree) {p q : Place} (h : p ≠ q) :
    (t.clear p).lookup q = t.lookup q := by
  simp only [lookup, clear, Std.ExtTreeMap.getElem?_erase]
  split
  · rfl
  · rw [if_neg (by simpa using h)]

end Tree

end HostSuite
