import HostSuite.Tree.Edit

/-
  Coverage counters: regular files with the extension `gcda`. A sweep removes all of them in a
  directory and below it and counts them. Links below the directory are neither entered nor
  removed; what cannot be read or removed is left, and the sweep goes on elsewhere.
-/

namespace HostSuite.Tree

def counterExtension : String := "gcda"

/-- A name that a coverage counter has. -/
def isCounterName (name : String) : Bool := (⟨name⟩ : Path).extension = some counterExtension

/-- Sweeps the given names of the directory at `here`, entering directories with `enter`. -/
def sweepNames (enter : Tree → Place → Tree × Nat) (mode : Nat) (here : Place) :
    List String → Tree → Tree × Nat
  | [], t => (t, 0)
  | name :: names, t =>
    let place := here ++ [name]
    let (t, count) :=
      match t.lookup place with
      | some (.file _ _) =>
        if isCounterName name && mayChange mode then (t.clear place, 1) else (t, 0)
      | some (.dir _) => if hasBit mode searchBit then enter t place else (t, 0)
      | _ => (t, 0)
    let (t, more) := sweepNames enter mode here names t
    (t, count + more)

/-- Sweeps the directory at a place, to a depth. -/
def sweep : Nat → Tree → Place → Tree × Nat
  | 0, t, _ => (t, 0)
  | depth + 1, t, here =>
    match t.lookup here with
    | some (.dir mode) =>
      if hasBit mode readBit then sweepNames (sweep depth) mode here (t.namesIn here) t else (t, 0)
    | _ => (t, 0)

/-- Removes the coverage counters at a path and below it; the path itself may be a link to a
directory. -/
def dropCounters (t : Tree) (base : Place) (p : Path) : Tree × Nat :=
  match t.find base p false with
  | .ok (_, .file _ _) =>
    if p.extension = some counterExtension then
      match t.removeFile base p with
      | .ok t => (t, 1)
      | .error _ => (t, 0)
    else (t, 0)
  | _ =>
    match t.find base p with
    | .ok (place, .dir _) => t.sweep t.depthBound place
    | _ => (t, 0)

end HostSuite.Tree
