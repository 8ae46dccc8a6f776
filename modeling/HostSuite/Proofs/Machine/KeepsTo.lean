import HostSuite.Proofs.Machine.Abreast

/-
  What actions may send and change. An event is within some commands and changes when it is one of
  them or only shows something, and an action keeps to them when from every machine all its events
  are within (`KeepsTo`). What is made of actions that keep to them keeps to them; so a whole phase
  is judged step by step.
-/

namespace HostSuite

/-- A command or change is one of these; what is shown does not matter. -/
def Event.Within (C : Command → Prop) (D : Change → Prop) : Event → Prop
  | ran c => C c
  | changed d => D d
  | printed _ _ | relayed _ _ | drawn _ => True

/-- From every machine the events of the action are within. -/
def KeepsTo {α : Type} (h : Host) (C : Command → Prop) (D : Change → Prop) (a : Action α) : Prop :=
  ∀ m, ∃ es, (a m).2 = m.after h es ∧ ∀ e ∈ es, e.Within C D

theorem Event.Within.mono {C C' : Command → Prop} {D D' : Change → Prop} {e : Event}
    (hC : ∀ c, C c → C' c) (hD : ∀ d, D d → D' d) (he : e.Within C D) : e.Within C' D' := by
  cases e with
  | ran c => exact hC c he
  | changed d => exact hD d he
  | printed | relayed | drawn => trivial

/-- The events of a course are within when its commands and changes are. -/
theorem Runs.within {α : Type} {h : Host} {C : Command → Prop} {D : Change → Prop} {a : Action α}
    {m m' : Machine} {r : α} {xs : List Exchange} {cs : List Change} {ts : List String}
    (ha : Runs h a m r m' xs cs ts) (hC : ∀ x ∈ xs, C x.command) (hD : ∀ c ∈ cs, D c) :
    ∃ es, m' = m.after h es ∧ ∀ e ∈ es, e.Within C D := by
  obtain ⟨-, es, rfl, rfl, rfl, -⟩ := ha
  refine ⟨es, rfl, fun e he => ?_⟩
  cases e with
  | ran c =>
    have hc : c ∈ (Machine.exchangesIn h m es).map Exchange.command := by
      rw [Machine.commands_exchangesIn]
      exact List.mem_filterMap.mpr ⟨_, he, rfl⟩
    obtain ⟨x, hx, rfl⟩ := List.mem_map.mp hc
    exact hC x hx
  | changed d => exact hD d (List.mem_filterMap.mpr ⟨_, he, rfl⟩)
  | printed | relayed | drawn => trivial

namespace KeepsTo

variable {α β ε : Type} {h : Host} {C : Command → Prop} {D : Change → Prop}

theorem pure (r : α) : KeepsTo h C D (Pure.pure r : Action α) := fun _ => ⟨[], rfl, by simp⟩

theorem get : KeepsTo h C D (MonadState.get : Action Machine) := fun _ => ⟨[], rfl, by simp⟩

theorem bind {a : Action α} {f : α → Action β} (ha : KeepsTo h C D a)
    (hf : ∀ r, KeepsTo h C D (f r)) : KeepsTo h C D (a >>= f) := by
  intro m
  obtain ⟨es, hes, he⟩ := ha m
  obtain ⟨fs, hfs, hf⟩ := hf (a m).1 (a m).2
  refine ⟨es ++ fs, ?_, List.forall_mem_append.mpr ⟨he, hf⟩⟩
  rw [Machine.after_append, ← hes, ← hfs]
  rfl

theorem lift {a : Action α} (ha : KeepsTo h C D a) :
    KeepsTo h C D (liftM a : Attempt ε α).run :=
  bind (f := fun r => Pure.pure (Except.ok r)) ha fun r => pure (Except.ok r)

/-- Attempts that fail leave the rest out. -/
theorem andThen {x : Attempt ε α} {f : α → Attempt ε β} (hx : KeepsTo h C D x.run)
    (hf : ∀ r, KeepsTo h C D (f r).run) : KeepsTo h C D (x >>= f).run := by
  refine bind (f := ExceptT.bindCont f) hx fun r => ?_
  cases r with
  | ok r => exact hf r
  | error e => exact pure (Except.error e)

theorem say (s : Stream) (text : String) : KeepsTo h C D (Action.say s text) :=
  fun _ => ⟨[.printed s text], rfl, by simp [Event.Within]⟩

theorem change {c : Change} {edit : Tree → Tree × α} (hc : ∀ t, c.on h t = (edit t).1) (hD : D c) :
    KeepsTo h C D (Action.change c edit) := by
  intro m
  rw [Action.change_eq hc]
  exact ⟨[.changed c], rfl, by simpa [Event.Within] using hD⟩

theorem send {c : Command} (hC : C c) : KeepsTo h C D (Action.send h c) := by
  intro m
  obtain ⟨m', hm⟩ := Action.send_runs h m c
  rw [hm.1]
  exact hm.within (fun x hx => List.mem_singleton.mp hx ▸ hC) (by simp)

/-- Echoes only show something. -/
theorem invoke {c : Command} (hC : C c) : KeepsTo h C D (Action.invoke h c) := by
  intro m
  obtain ⟨m', hm⟩ := Action.invoke_runs h m c
  rw [hm.1]
  exact hm.within (fun x hx => List.mem_singleton.mp hx ▸ hC) (by simp)

/-- A spinner only shows something. -/
theorem behind (s : Spinner) {a : Action α} (ha : KeepsTo h C D a) :
    KeepsTo h C D (Action.behind h s a) := by
  intro m
  obtain ⟨es, hes, he⟩ := ha m
  rw [Action.behind_eq h s (show a m = ((a m).1, (a m).2) from rfl), hes]
  refine ⟨es ++ h.drawing s _, (Machine.after_append ..).symm,
    List.forall_mem_append.mpr ⟨he, fun e hd => ?_⟩⟩
  obtain ⟨bytes, rfl⟩ := Host.eq_drawn_of_mem_drawing hd
  trivial

/-- An action that neither sends nor changes anything keeps to everything. -/
theorem of_silent {a : Action α} (ha : ∀ m, ∃ m' r ts, Runs h a m r m' [] [] ts) :
    KeepsTo h C D a := by
  intro m
  obtain ⟨m', r, ts, hm⟩ := ha m
  rw [hm.1]
  exact hm.within (by simp) (by simp)

/-- An action that sends nothing has a course without exchanges. -/
theorem unsent {a : Action α} (ha : KeepsTo h (fun _ => False) D a) (m : Machine) :
    ∃ cs ts, Runs h a m (a m).1 (a m).2 [] cs ts := by
  obtain ⟨es, hes, he⟩ := ha m
  refine ⟨_, _, rfl, es, hes, Machine.exchangesIn_eq_nil h m fun e hem => ?_, rfl, rfl⟩
  cases e with
  | ran c => exact (he _ hem).elim
  | changed | printed | relayed | drawn => rfl

end KeepsTo

end HostSuite
