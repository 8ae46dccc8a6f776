import HostSuite.Proofs.Machine.Course
import HostSuite.Proofs.Machine.Twofold

/-
  Two runs side by side. What can be heard of a run are its commands and what it puts on the
  streams, in order; the changes that it makes itself cannot be heard. Two runs are in step when the
  same is heard of both, they take the same time, and the trees they leave are related (`InStep`).
  Two actions go abreast when from any related trees they give the same result and are in step
  (`Abreast`); they may also leave trees that are related in another way than before
  (`AbreastTo`). Commands that are answered alike on related trees go abreast, and so do changes
  that keep the trees related; and what is made of actions that go abreast goes abreast.
-/

namespace HostSuite

/-- The event, unless it is a change. -/
def Event.heard? : Event → Option Event
  | .changed _ => none
  | e => some e

/-- What can be heard of some events. -/
def heard (es : List Event) : List Event := es.filterMap Event.heard?

/-- From `m` and `m'` two runs got to `w` and `w'`, and the same was heard of both. -/
def InStep (h h' : Host) (T : Tree → Tree → Prop) (m m' w w' : Machine) : Prop :=
  ∃ es es' d, w = m.after h es ∧ w' = m'.after h' es' ∧ heard es' = heard es ∧
    w.clock = m.clock + d ∧ w'.clock = m'.clock + d ∧ T w.tree w'.tree

/-- The same result, in step. -/
def Abreast {α : Type} (h h' : Host) (T : Tree → Tree → Prop) (a b : Action α) : Prop :=
  ∀ m m', T m.tree m'.tree → (b m').1 = (a m).1 ∧ InStep h h' T m m' (a m).2 (b m').2

/-- The same result, in step, from trees that `T` relates to trees that `U` relates. -/
def AbreastTo {α : Type} (h h' : Host) (T U : Tree → Tree → Prop) (a b : Action α) : Prop :=
  ∀ m m', T m.tree m'.tree → (b m').1 = (a m).1 ∧ InStep h h' U m m' (a m).2 (b m').2

/-- The answers to a command are the same, and the trees they leave are related. -/
structure Reply.Like (T : Tree → Tree → Prop) (r r' : Reply) : Prop where
  outcome : r'.outcome = r.outcome
  relayed : r'.relayed = r.relayed
  tree : T r.tree r'.tree

/-- On related trees the command is answered alike, whatever was sent before. -/
def AnsweredAlike (h h' : Host) (T : Tree → Tree → Prop) (c : Command) : Prop :=
  ∀ cs cs' t t', T t t' → Reply.Like T (h.runner cs c t) (h'.runner cs' c t')

/-! ## What is heard -/

theorem heard_append (es fs : List Event) : heard (es ++ fs) = heard es ++ heard fs :=
  List.filterMap_append

/-- Commands can be heard. -/
theorem commands_eq_of_heard {es es' : List Event} (hh : heard es' = heard es) :
    es'.filterMap Event.command? = es.filterMap Event.command? := by
  have hcommands (es : List Event) :
      es.filterMap Event.command? = (heard es).filterMap Event.command? := by
    unfold heard
    rw [List.filterMap_filterMap]
    congr
    funext e
    cases e <;> rfl
  rw [hcommands, hcommands es, hh]

/-- What is on a stream can be heard. -/
theorem bytesOn_eq_of_heard {es es' : List Event} (hh : heard es' = heard es) (s : Stream) :
    es'.flatMap (Event.bytesOn s) = es.flatMap (Event.bytesOn s) := by
  have hbytes (es : List Event) :
      es.flatMap (Event.bytesOn s) = (heard es).flatMap (Event.bytesOn s) := by
    induction es with
    | nil => rfl
    | cons e es ih => cases e <;> simp [heard, Event.heard?, Event.bytesOn] at ih ⊢ <;> exact ih
  rw [hbytes, hbytes es, hh]

/-! ## Steps -/

section

variable {h h' : Host} {T U : Tree → Tree → Prop} {m m' w w' v v' : Machine}

theorem InStep.refl (ht : T m.tree m'.tree) : InStep h h' T m m' m m' :=
  ⟨[], [], 0, rfl, rfl, rfl, rfl, rfl, ht⟩

/-- How the trees are related in between does not matter in the end. -/
theorem InStep.trans (hw : InStep h h' T m m' w w') (hv : InStep h h' U w w' v v') :
    InStep h h' U m m' v v' := by
  obtain ⟨es, es', d, rfl, rfl, hes, hd, hd', -⟩ := hw
  obtain ⟨fs, fs', k, rfl, rfl, hfs, hk, hk', ht⟩ := hv
  refine ⟨es ++ fs, es' ++ fs', d + k, (Machine.after_append ..).symm,
    (Machine.after_append ..).symm, ?_, ?_, ?_, ht⟩
  · rw [heard_append, heard_append, hes, hfs]
  · rw [hk, hd, Nat.add_assoc]
  · rw [hk', hd', Nat.add_assoc]

/-- Changes cannot be heard. -/
theorem InStep.ofChange {c c' : Change} (ht : T (c.on h m.tree) (c'.on h' m'.tree)) :
    InStep h h' T m m' (m.after h [.changed c]) (m'.after h' [.changed c']) :=
  ⟨[.changed c], [.changed c'], 0, rfl, rfl, rfl, rfl, rfl, ht⟩

theorem InStep.mono (hw : InStep h h' T m m' w w')
    (htu : ∀ t t', T t t' → U t t') : InStep h h' U m m' w w' := by
  obtain ⟨es, es', d, hes, hes', hh, hd, hd', ht⟩ := hw
  exact ⟨es, es', d, hes, hes', hh, hd, hd', htu _ _ ht⟩

theorem InStep.tree (hw : InStep h h' T m m' w w') : T w.tree w'.tree := by
  obtain ⟨-, -, -, -, -, -, -, -, ht⟩ := hw
  exact ht

end

/-- Runs that are in step send the same commands. -/
theorem InStep.commands {h h' : Host} {T : Tree → Tree → Prop} {m m' w w' : Machine}
    (hw : InStep h h' T m m' w w') :
    ∃ cs, w.commands = m.commands ++ cs ∧ w'.commands = m'.commands ++ cs := by
  obtain ⟨es, es', d, rfl, rfl, hes, -⟩ := hw
  refine ⟨es.filterMap Event.command?, ?_, ?_⟩
  · unfold Machine.commands
    rw [Machine.after_log, List.filterMap_append]
  · unfold Machine.commands
    rw [Machine.after_log, List.filterMap_append, commands_eq_of_heard hes]

/-- They put the same on each stream. -/
theorem InStep.bytesOn {h h' : Host} {T : Tree → Tree → Prop} {m m' w w' : Machine}
    (hw : InStep h h' T m m' w w') (s : Stream) :
    ∃ bs, w.bytesOn s = m.bytesOn s ++ bs ∧ w'.bytesOn s = m'.bytesOn s ++ bs := by
  obtain ⟨es, es', d, rfl, rfl, hes, -⟩ := hw
  refine ⟨es.flatMap (Event.bytesOn s), ?_, ?_⟩
  · unfold Machine.bytesOn
    rw [Machine.after_log, List.flatMap_append]
  · unfold Machine.bytesOn
    rw [Machine.after_log, List.flatMap_append, bytesOn_eq_of_heard hes]

theorem Action.change_fst {α : Type} (c : Change) (edit : Tree → Tree × α) (m : Machine) :
    (Action.change c edit m).1 = (edit m.tree).2 := rfl

/-- A change as an event. -/
theorem Action.change_eq {α : Type} {h : Host} {m : Machine} {c : Change} {edit : Tree → Tree × α}
    (hc : ∀ t, c.on h t = (edit t).1) :
    Action.change c edit m = ((edit m.tree).2, m.after h [.changed c]) := by
  refine Prod.ext rfl ?_
  show Machine.mk (edit m.tree).1 (m.log ++ [.changed c]) m.clock =
    Machine.mk (c.on h m.tree) (m.log ++ [.changed c]) m.clock
  rw [hc]

/-- A command and what its answer relays as events. -/
theorem Action.send_eq (h : Host) (m : Machine) (c : Command) :
    Action.send h c m = ((m.exchange h c).outcome, m.after h (.ran c ::
      (m.exchange h c).reply.relayed.map fun (s, bytes) => .relayed s bytes)) := by
  refine Prod.ext rfl ?_
  show _ = (m.next h (.ran c)).after h _
  rw [Machine.after_relayed]
  simp only [Machine.next, List.append_assoc]
  rfl

namespace AbreastTo

variable {α β ε : Type} {h h' : Host} {T U V : Tree → Tree → Prop}

theorem bind {a b : Action α} {f g : α → Action β} (hab : AbreastTo h h' T U a b)
    (hfg : ∀ r, AbreastTo h h' U V (f r) (g r)) : AbreastTo h h' T V (a >>= f) (b >>= g) := by
  intro m m' ht
  obtain ⟨hr, hw⟩ := hab m m' ht
  obtain ⟨hs, hv⟩ := hfg (a m).1 (a m).2 (b m').2 hw.tree
  show (g (b m').1 (b m').2).1 = (f (a m).1 (a m).2).1 ∧
    InStep h h' V m m' (f (a m).1 (a m).2).2 (g (b m').1 (b m').2).2
  rw [hr]
  exact ⟨hs, hw.trans hv⟩

/-- After an action the attempt goes on in any case. -/
theorem liftThen {a b : Action α} {f g : α → Attempt ε β} (hab : AbreastTo h h' T U a b)
    (hfg : ∀ r, AbreastTo h h' U V (f r).run (g r).run) :
    AbreastTo h h' T V (liftM a >>= f : Attempt ε β).run (liftM b >>= g : Attempt ε β).run :=
  bind (f := fun r => (f r).run) (g := fun r => (g r).run) hab hfg

/-- After an attempt that fails nothing is done. -/
theorem andThen {x y : Attempt ε α} {f g : α → Attempt ε β} (hxy : AbreastTo h h' T U x.run y.run)
    (hfg : ∀ r, Abreast h h' U (f r).run (g r).run) :
    AbreastTo h h' T U (x >>= f).run (y >>= g).run := by
  refine bind (f := ExceptT.bindCont f) (g := ExceptT.bindCont g) hxy fun r => ?_
  cases r with
  | ok r => exact hfg r
  | error e => exact fun _ _ ht => ⟨rfl, .refl ht⟩

theorem change {c c' : Change} {edit edit' : Tree → Tree × α} (hc : ∀ t, c.on h t = (edit t).1)
    (hc' : ∀ t, c'.on h' t = (edit' t).1)
    (he : ∀ t t', T t t' → (edit' t').2 = (edit t).2 ∧ U (edit t).1 (edit' t').1) :
    AbreastTo h h' T U (Action.change c edit) (Action.change c' edit') := by
  intro m m' ht
  obtain ⟨hr, hu⟩ := he _ _ ht
  rw [Action.change_eq hc, Action.change_eq hc']
  refine ⟨hr, .ofChange ?_⟩
  rw [hc, hc']
  exact hu

end AbreastTo

namespace Abreast

variable {α β : Type} {h h' : Host} {T : Tree → Tree → Prop}

theorem pure (r : α) : Abreast h h' T (Pure.pure r) (Pure.pure r) :=
  fun _ _ ht => ⟨rfl, .refl ht⟩

theorem bind {a b : Action α} {f g : α → Action β} (hab : Abreast h h' T a b)
    (hfg : ∀ r, Abreast h h' T (f r) (g r)) : Abreast h h' T (a >>= f) (b >>= g) :=
  AbreastTo.bind hab hfg

/-- Where the tree decides what to do, it decides the same. -/
theorem bind_get {f g : Machine → Action α}
    (hfg : ∀ m m', T m.tree m'.tree → Abreast h h' T (f m) (g m')) :
    Abreast h h' T (MonadState.get >>= f) (MonadState.get >>= g) :=
  fun m m' ht => hfg m m' ht m m' ht

theorem say (s : Stream) (text : String) :
    Abreast h h' T (Action.say s text) (Action.say s text) :=
  fun _ _ ht => ⟨rfl, [.printed s text], [.printed s text], 0, rfl, rfl, rfl, rfl, rfl, ht⟩

theorem sayLine (text : String) :
    Abreast h h' T (Action.sayLine text) (Action.sayLine text) :=
  say _ _

theorem notify (hstyle : h'.style = h.style) (n : Notice) (message : String) :
    Abreast h h' T (Action.notify h n message) (Action.notify h' n message) := by
  unfold Action.notify
  rw [hstyle]
  exact say _ _

theorem announce (hstyle : h'.style = h.style) (title : String) :
    Abreast h h' T (Action.announce h title) (Action.announce h' title) := by
  unfold Action.announce
  rw [hstyle]
  exact say _ _

theorem change {c c' : Change} {edit edit' : Tree → Tree × α} (hc : ∀ t, c.on h t = (edit t).1)
    (hc' : ∀ t, c'.on h' t = (edit' t).1)
    (he : ∀ t t', T t t' → (edit' t').2 = (edit t).2 ∧ T (edit t).1 (edit' t').1) :
    Abreast h h' T (Action.change c edit) (Action.change c' edit') :=
  AbreastTo.change hc hc' he

theorem send {c : Command} (hc : AnsweredAlike h h' T c) :
    Abreast h h' T (Action.send h c) (Action.send h' c) := by
  intro m m' ht
  obtain ⟨houtcome, hrelayed, htree⟩ := hc m.commands m'.commands _ _ ht
  refine ⟨houtcome, _, _, Action.elapsedOf (m.exchange h c).outcome, congrArg Prod.snd
    (Action.send_eq h m c), congrArg Prod.snd (Action.send_eq h' m' c), ?_, rfl, ?_, htree⟩
  · show heard (.ran c :: (h'.runner m'.commands c m'.tree).relayed.map _) =
      heard (.ran c :: (h.runner m.commands c m.tree).relayed.map _)
    rw [hrelayed]
  · show m'.clock + Action.elapsedOf (h'.runner m'.commands c m'.tree).outcome = _
    rw [houtcome]
    rfl

/-- The echoes of a command are the same where its outcome is. -/
theorem invoke (hstyle : h'.style = h.style) (hechoes : h'.echoes = h.echoes) {c : Command}
    (hc : AnsweredAlike h h' T c) : Abreast h h' T (Action.invoke h c) (Action.invoke h' c) := by
  unfold Action.invoke
  rw [hstyle, hechoes]
  split
  · refine bind (say _ _) fun _ => bind (send hc) fun o => ?_
    cases o with
    | ok r => exact bind (say _ _) fun _ => pure _
    | error e => exact pure _
  · refine bind (send hc) fun o => ?_
    cases o with
    | ok r => exact pure _
    | error e => exact pure _

/-- Where the same time goes by, the same spinner is drawn. -/
theorem behind (hechoes : h'.echoes = h.echoes) (hspinner : h'.spinner = h.spinner) (s : Spinner)
    {a b : Action α} (hab : Abreast h h' T a b) :
    Abreast h h' T (Action.behind h s a) (Action.behind h' s b) := by
  intro m m' ht
  obtain ⟨hr, hw⟩ := hab m m' ht
  obtain ⟨-, -, d, -, -, -, hd, hd', -⟩ := id hw
  have hdrawing : h'.drawing s d = h.drawing s d := by
    unfold Host.drawing
    rw [hspinner, hechoes]
  rw [Action.behind_eq h s (show a m = ((a m).1, (a m).2) from rfl),
    Action.behind_eq h' s (show b m' = ((b m').1, (b m').2) from rfl), hd, hd',
    Nat.add_sub_cancel_left, Nat.add_sub_cancel_left, hdrawing]
  refine ⟨hr, hw.trans ⟨_, h.drawing s d, 0, rfl, rfl, rfl, ?_, ?_, ?_⟩⟩
  · rw [Machine.after_drawing]
    rfl
  · rw [← hdrawing, Machine.after_drawing]
    rfl
  · rw [Machine.after_drawing, ← hdrawing, Machine.after_drawing]
    exact hw.tree

/-- Going abreast keeps the rules, for commands that are answered alike. -/
theorem twofold (hstyle : h'.style = h.style) (hechoes : h'.echoes = h.echoes)
    (hspinner : h'.spinner = h.spinner) (hdir : h'.workingDir = h.workingDir) {C : Command → Prop}
    (hC : ∀ c, C c → AnsweredAlike h h' T c) :
    Twofold h h' T C fun α => Abreast (α := α) h h' T where
  style := hstyle
  workingDir := hdir
  pure := pure
  bind := bind
  get := bind_get
  say := fun _ => say _ _
  invoke := fun hc => invoke hstyle hechoes (hC _ hc)
  behind := behind hechoes hspinner

end Abreast

end HostSuite
