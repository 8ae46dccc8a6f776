import HostSuite.Proofs.Machine.Abreast

/-
  Deeds. What a run does to the world are the changes that it makes itself and its exchanges with
  the host; all else in its log is only shown. The deeds among some events stand in the order in
  which they happened (`Machine.deedsIn`), so they alone tell what became of the tree
  (`Machine.tree_after`), and each exchange found the tree that the deeds before it left
  (`Machine.found_deedsIn`). `Does h a m r es ds` says that an action gave `r` by the events `es`
  with the deeds `ds`; such courses are joined where actions are.
-/

namespace HostSuite

/-- A change that a run made itself, or an exchange with the host. -/
inductive Deed
  | change (c : Change)
  | exchange (x : Exchange)

namespace Deed

/-- The event that the log keeps of it. -/
def event : Deed → Event
  | change c => .changed c
  | exchange x => .ran x.command

/-- What it makes of a tree. -/
def on (h : Host) : Deed → Tree → Tree
  | change c, t => c.on h t
  | exchange x, _ => x.reply.tree

/-- What some deeds make of a tree, one after the other. -/
def allOn (h : Host) (ds : List Deed) (t : Tree) : Tree := ds.foldl (fun t d => d.on h t) t

@[simp] theorem allOn_nil (h : Host) (t : Tree) : allOn h [] t = t := rfl

end Deed

/-- The event is more than something shown. -/
def Event.isDeed : Event → Bool
  | ran _ | changed _ => true
  | printed _ _ | relayed _ _ | drawn _ => false

namespace Machine

/-- The deed that an event is. -/
def deed? (h : Host) (m : Machine) : Event → Option Deed
  | .ran c => some (.exchange (m.exchange h c))
  | .changed c => some (.change c)
  | .printed _ _ | .relayed _ _ | .drawn _ => none

/-- The deeds among some events. -/
def deedsIn (h : Host) : Machine → List Event → List Deed
  | _, [] => []
  | m, e :: es => (m.deed? h e).toList ++ deedsIn h (m.next h e) es

variable (h : Host) (m : Machine)

theorem deedsIn_append (es fs : List Event) :
    m.deedsIn h (es ++ fs) = m.deedsIn h es ++ (m.after h es).deedsIn h fs := by
  induction es generalizing m with
  | nil => rfl
  | cons e es ih =>
    simp only [List.cons_append, deedsIn, ih, List.append_assoc]
    rfl

/-- No change and no command is left out. -/
theorem deedsIn_event (es : List Event) :
    (m.deedsIn h es).map Deed.event = es.filter Event.isDeed := by
  induction es generalizing m with
  | nil => rfl
  | cons e es ih =>
    rw [deedsIn, List.map_append, ih]
    cases e <;> rfl

/-- Only deeds change the tree. -/
theorem tree_after (es : List Event) :
    (m.after h es).tree = Deed.allOn h (m.deedsIn h es) m.tree := by
  induction es generalizing m with
  | nil => rfl
  | cons e es ih =>
    show ((m.next h e).after h es).tree = _
    rw [ih]
    cases e <;> rfl

end Machine

/-- What an action did, by its events and the deeds among them. -/
def Does {α : Type} (h : Host) (a : Action α) (m : Machine) (r : α) (es : List Event)
    (ds : List Deed) : Prop :=
  a m = (r, m.after h es) ∧ m.deedsIn h es = ds

namespace Does

variable {α β ε : Type} {h : Host} {m : Machine} {es fs : List Event} {ds bs : List Deed}

/-- The deeds of an action tell what became of the tree. -/
theorem tree {a : Action α} {r : α} (ha : Does h a m r es ds) :
    (m.after h es).tree = Deed.allOn h ds m.tree := by
  rw [Machine.tree_after, ha.2]

theorem pure (m : Machine) (r : α) : Does h (Pure.pure r : Action α) m r [] [] := ⟨rfl, rfl⟩

theorem say (m : Machine) (s : Stream) (text : String) :
    Does h (Action.say s text) m () [.printed s text] [] :=
  ⟨rfl, rfl⟩

/-- Whatever is said is no deed. -/
theorem shown (h : Host) (m : Machine) (s : Stream) (text : String) :
    ∃ es, Does h (Action.say s text) m () es [] :=
  ⟨_, say m s text⟩

theorem change {c : Change} {edit : Tree → Tree × α} (m : Machine)
    (hc : ∀ t, c.on h t = (edit t).1) :
    Does h (Action.change c edit) m (edit m.tree).2 [.changed c] [.change c] :=
  ⟨Action.change_eq hc, rfl⟩

theorem bind {a : Action α} {f : α → Action β} {r : α} {s : β} (ha : Does h a m r es ds)
    (hf : Does h (f r) (m.after h es) s fs bs) :
    Does h (a >>= f) m s (es ++ fs) (ds ++ bs) := by
  obtain ⟨hra, rfl⟩ := ha
  obtain ⟨hrf, rfl⟩ := hf
  refine ⟨?_, Machine.deedsIn_append h m es fs⟩
  rw [Action.run_bind hra, hrf, Machine.after_append]

/-- After a success the attempt goes on. -/
theorem bind_ok {x : Attempt ε α} {f : α → Attempt ε β} {r : α} {s : Except ε β}
    (hx : Does h x.run m (.ok r) es ds) (hf : Does h (f r).run (m.after h es) s fs bs) :
    Does h (x >>= f).run m s (es ++ fs) (ds ++ bs) :=
  bind (f := ExceptT.bindCont f) hx hf

/-- A failure ends the attempt. -/
theorem bind_error {x : Attempt ε α} {f : α → Attempt ε β} {e : ε}
    (hx : Does h x.run m (.error e) es ds) : Does h (x >>= f).run m (.error e) es ds :=
  ⟨Attempt.run_bind_error hx.1, hx.2⟩

/-- An action cannot fail. -/
theorem lift {a : Action α} {r : α} (ha : Does h a m r es ds) :
    Does h (liftM a : Attempt ε α).run m (.ok r) es ds :=
  ⟨Attempt.run_lift ha.1, ha.2⟩

end Does

end HostSuite
