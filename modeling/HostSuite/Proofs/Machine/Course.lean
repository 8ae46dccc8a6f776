import HostSuite.Project.Counters
import HostSuite.Machine

/-
  Courses of actions. The log of a machine tells everything that happened to it: played forward
  from where it stood, the events give the tree, the log and the clock it has afterwards
  (`Machine.after`). An exchange is a command with the tree it found and the reply it got.
  `Runs h a m r m' xs cs ts` says what an action did: started on `m` it gave `r` and left `m'`,
  and the events in between hold the exchanges `xs`, the changes `cs` that were asked for, and the
  texts `ts` that were put on the output. Each action of the machine has such a course, and
  courses are joined where actions are (`Runs.bind`, `Runs.bind_ok`, `Runs.bind_error`). An action
  is `Recorded` when it has a course on every machine; then its log only grows.
-/

namespace HostSuite

/-- A command with the tree it found and the reply it got. -/
structure Exchange where
  found : Tree
  command : Command
  reply : Reply

namespace Exchange

def outcome (x : Exchange) : Outcome := x.reply.outcome

/-- The command could be launched. -/
def launched (x : Exchange) : Bool := x.outcome.isOk

/-- The command ran and exited with success. -/
def succeeded (x : Exchange) : Bool :=
  match x.outcome with
  | .ok r => r.success
  | .error _ => false

theorem launched_of_succeeded {x : Exchange} (hx : x.succeeded = true) : x.launched = true := by
  unfold succeeded at hx
  unfold launched
  split at hx
  · rename_i r h
    rw [h]; rfl
  · cases hx

theorem not_succeeded_of_not_launched {x : Exchange} (hx : x.launched = false) :
    x.succeeded = false := by
  cases hs : x.succeeded with
  | false => rfl
  | true => rw [launched_of_succeeded hs] at hx; cases hx

end Exchange

/-- The tree after some exchanges, when nothing else changes it. -/
def treeAfter (t : Tree) (xs : List Exchange) : Tree := xs.foldl (fun _ x => x.reply.tree) t

@[simp] theorem treeAfter_nil (t : Tree) : treeAfter t [] = t := rfl

@[simp] theorem treeAfter_cons (t : Tree) (x : Exchange) (xs : List Exchange) :
    treeAfter t (x :: xs) = treeAfter x.reply.tree xs := rfl

/-- What a change makes of a tree. -/
def Change.on (h : Host) : Change → Tree → Tree
  | .readyDir p, t => (t.ensureDir h.workingDir p).1
  | .removeDir p, t => (t.removeDirsIfThere h.workingDir p).1
  | .removeFile p, t => (t.removeFileIfThere h.workingDir p).1
  | .writeText p text, t => (t.write h.workingDir p (Text.encode text)).toOption.getD t
  | .dropCounters p, t => (t.dropCounters h.workingDir p).1

/-- What is left of a spinner that was there for a time. -/
def Host.drawing (h : Host) (s : Spinner) (d : Number.Duration) : List Event :=
  match h.spinner with
  | some draw => if h.echoes then [] else [.drawn (draw s.message d)]
  | none => []

theorem Host.drawing_cases (h : Host) (s : Spinner) (d : Number.Duration) :
    h.drawing s d = [] ∨ h.echoes = false ∧ ∃ draw, h.spinner = some draw ∧
      h.drawing s d = [.drawn (draw s.message d)] := by
  unfold drawing
  cases h.spinner with
  | none => exact .inl rfl
  | some draw => cases h.echoes <;> simp

theorem Host.eq_drawn_of_mem_drawing {h : Host} {s : Spinner} {d : Number.Duration} {e : Event}
    (he : e ∈ h.drawing s d) : ∃ bytes, e = .drawn bytes := by
  obtain hd | ⟨-, draw, -, hd⟩ := h.drawing_cases s d
  · rw [hd] at he
    cases he
  · rw [hd] at he
    exact ⟨_, List.mem_singleton.mp he⟩

/-- The text that an event puts on the output itself. -/
def Event.shown? : Event → Option String
  | .printed .out text => some text
  | _ => none

namespace Machine

/-- The exchange that sending a command to the host is. -/
def exchange (h : Host) (m : Machine) (c : Command) : Exchange :=
  ⟨m.tree, c, h.runner m.commands c m.tree⟩

theorem exchange_congr {h : Host} {m m' : Machine} {c : Command} (ht : m'.tree = m.tree)
    (hc : m'.commands = m.commands) : m'.exchange h c = m.exchange h c := by
  unfold exchange
  rw [ht, hc]

/-- The machine after one more event. -/
def next (h : Host) (m : Machine) (e : Event) : Machine :=
  match e with
  | .ran c =>
    { tree := (m.exchange h c).reply.tree
      log := m.log ++ [e]
      clock := m.clock + Action.elapsedOf (m.exchange h c).outcome }
  | .changed c => { m with tree := c.on h m.tree, log := m.log ++ [e] }
  | .printed _ _ | .relayed _ _ | .drawn _ => { m with log := m.log ++ [e] }

/-- The machine after some events. -/
def after (h : Host) (m : Machine) (es : List Event) : Machine := es.foldl (next h) m

theorem after_append (h : Host) (m : Machine) (es fs : List Event) :
    m.after h (es ++ fs) = (m.after h es).after h fs := by
  unfold after
  rw [List.foldl_append]

theorem next_log (h : Host) (m : Machine) (e : Event) : (m.next h e).log = m.log ++ [e] := by
  cases e <;> rfl

theorem after_log (h : Host) (m : Machine) (es : List Event) :
    (m.after h es).log = m.log ++ es := by
  induction es generalizing m with
  | nil => simp [after]
  | cons e es ih =>
    have := ih (m.next h e)
    rw [next_log] at this
    simpa [after] using this

theorem after_relayed (h : Host) (m : Machine) (rs : List (Stream × Text.Bytes)) :
    m.after h (rs.map fun (s, bytes) => Event.relayed s bytes) =
      { m with log := m.log ++ rs.map fun (s, bytes) => Event.relayed s bytes } := by
  induction rs generalizing m with
  | nil => simp [after]
  | cons r rs ih =>
    have := ih (m.next h (.relayed r.1 r.2))
    simpa [after, next] using this

/-- The exchanges among some events. -/
def exchangesIn (h : Host) : Machine → List Event → List Exchange
  | _, [] => []
  | m, e :: es => (e.command?.map (m.exchange h)).toList ++ exchangesIn h (m.next h e) es

theorem exchangesIn_append (h : Host) (m : Machine) (es fs : List Event) :
    exchangesIn h m (es ++ fs) = exchangesIn h m es ++ exchangesIn h (m.after h es) fs := by
  induction es generalizing m with
  | nil => rfl
  | cons e es ih =>
    simp only [List.cons_append, exchangesIn, ih, List.append_assoc]
    rfl

theorem exchangesIn_eq_nil (h : Host) (m : Machine) {es : List Event}
    (hes : ∀ e ∈ es, e.command? = none) : exchangesIn h m es = [] := by
  induction es generalizing m with
  | nil => rfl
  | cons e es ih =>
    rw [exchangesIn, hes e List.mem_cons_self, ih _ fun f hf => hes f (List.mem_cons_of_mem e hf)]
    rfl

theorem commands_exchangesIn (h : Host) (m : Machine) (es : List Event) :
    (exchangesIn h m es).map Exchange.command = es.filterMap Event.command? := by
  induction es generalizing m with
  | nil => rfl
  | cons e es ih =>
    rw [exchangesIn, List.map_append, ih]
    cases e <;> rfl

/-- They were all answered by the host. -/
theorem answered_exchangesIn (h : Host) (m : Machine) (es : List Event) :
    ∀ x ∈ exchangesIn h m es, ∃ m' c, x = exchange h m' c := by
  induction es generalizing m with
  | nil => simp [exchangesIn]
  | cons e es ih =>
    intro x hx
    rcases List.mem_append.mp hx with hx | hx
    · cases e with
      | ran c => exact ⟨m, c, List.mem_singleton.mp hx⟩
      | printed _ _ | relayed _ _ | drawn _ | changed _ => cases hx
    · exact ih _ x hx

/-- Without changes of a run itself, what is at a place is there from the beginning or was put there
by a command. -/
theorem lookup_after {h : Host} {m : Machine} {es : List Event} {p : Place} {n : Node}
    (hes : es.filterMap Event.change? = []) (hn : (m.after h es).tree.lookup p = some n) :
    m.tree.lookup p = some n ∨ ∃ x ∈ exchangesIn h m es,
      x.found.lookup p ≠ some n ∧ x.reply.tree.lookup p = some n := by
  induction es generalizing m with
  | nil => exact .inl hn
  | cons e es ih =>
    have hrest : es.filterMap Event.change? = [] ∧ ∀ c, e ≠ .changed c := by
      cases e <;> simp_all [Event.change?]
    have hfound := ih hrest.1 hn
    cases e with
    | changed c => exact absurd rfl (hrest.2 c)
    | printed _ _ | relayed _ _ | drawn _ => exact hfound
    | ran c =>
      obtain hnext | ⟨x, hx, hput⟩ := hfound
      · by_cases hm : m.tree.lookup p = some n
        · exact .inl hm
        · exact .inr ⟨m.exchange h c, List.mem_append_left _ (List.mem_singleton_self _), hm, hnext⟩
      · exact .inr ⟨x, List.mem_append_right _ hx, hput⟩

end Machine

open Machine

theorem Action.run_bind {α β : Type} {m m' : Machine} {a : Action α} {f : α → Action β} {r : α}
    (ha : a m = (r, m')) : (a >>= f) m = f r m' := by
  show f (a m).1 (a m).2 = _
  rw [ha]

namespace Attempt

variable {α β ε : Type} {m m' : Machine}

theorem run_lift {a : Action α} {r : α} (ha : a m = (r, m')) :
    (liftM a : Attempt ε α).run m = (.ok r, m') := by
  show (Except.ok (a m).1, (a m).2) = _
  rw [ha]

theorem run_bind_lift {a : Action α} {f : α → Attempt ε β} :
    ((liftM a : Attempt ε α) >>= f).run m = (f (a m).1).run (a m).2 := rfl

theorem run_bind_ok {x : Attempt ε α} {f : α → Attempt ε β} {r : α}
    (hx : x.run m = (.ok r, m')) : (x >>= f).run m = (f r).run m' := by
  show ExceptT.bindCont f (x.run m).1 (x.run m).2 = _
  rw [hx]
  rfl

theorem run_bind_error {x : Attempt ε α} {f : α → Attempt ε β} {e : ε}
    (hx : x.run m = (.error e, m')) : (x >>= f).run m = (.error e, m') := by
  show ExceptT.bindCont f (x.run m).1 (x.run m).2 = _
  rw [hx]
  rfl

end Attempt

theorem Machine.after_drawing (h : Host) (m : Machine) (s : Spinner) (d : Number.Duration) :
    m.after h (h.drawing s d) = { m with log := m.log ++ h.drawing s d } := by
  obtain hd | ⟨-, draw, -, hd⟩ := h.drawing_cases s d
  · simp [hd, after]
  · rw [hd]
    rfl

/-- A spinner leaves nothing but its drawing. -/
theorem Action.spin_eq (h : Host) (m : Machine) (s : Spinner) (d : Number.Duration) :
    spin h s d m = ((), m.after h (h.drawing s d)) := by
  unfold spin Host.drawing
  cases h.spinner with
  | none => rfl
  | some draw =>
    dsimp only
    split <;> rfl

/-- It is drawn after what is done behind it. -/
theorem Action.behind_eq {α : Type} {m m' : Machine} {a : Action α} {r : α} (h : Host)
    (s : Spinner) (ha : a m = (r, m')) :
    behind h s a m = (r, m'.after h (h.drawing s (m'.clock - m.clock))) := by
  unfold behind
  rw [Action.run_bind (show (get : Action Machine) m = (m, m) from rfl), Action.run_bind ha,
    Action.run_bind (show (get : Action Machine) m' = (m', m') from rfl),
    Action.run_bind (spin_eq h m' s _)]
  rfl

/-- The commands of a machine are among those of one with more in its log. -/
theorem Machine.commands_prefix {m m' : Machine} (hl : m.log <+: m'.log) :
    m.commands <+: m'.commands :=
  hl.filterMap _

/-- What an action did to a machine; see the head of the file. -/
def Runs {α : Type} (h : Host) (a : Action α) (m : Machine) (r : α) (m' : Machine)
    (xs : List Exchange) (cs : List Change) (ts : List String) : Prop :=
  a m = (r, m') ∧ ∃ es, m' = m.after h es ∧ exchangesIn h m es = xs ∧
    es.filterMap Event.change? = cs ∧ es.filterMap Event.shown? = ts

namespace Runs

variable {α β ε : Type} {h : Host} {m m' m'' : Machine} {xs xs' : List Exchange}
  {cs cs' : List Change} {ts ts' : List String}

/-- The log tells which commands were sent. -/
theorem commands {a : Action α} {r : α} (ha : Runs h a m r m' xs cs ts) :
    m'.commands = m.commands ++ xs.map Exchange.command := by
  obtain ⟨-, es, rfl, rfl, -, -⟩ := ha
  rw [commands_exchangesIn]
  unfold Machine.commands
  rw [after_log, List.filterMap_append]

/-- The log tells which changes were asked for. -/
theorem changes {a : Action α} {r : α} (ha : Runs h a m r m' xs cs ts) :
    m'.changes = m.changes ++ cs := by
  obtain ⟨-, es, rfl, -, rfl, -⟩ := ha
  unfold Machine.changes
  rw [after_log, List.filterMap_append]

/-- The exchanges are with the host. -/
theorem answered {a : Action α} {r : α} (ha : Runs h a m r m' xs cs ts) :
    ∀ x ∈ xs, ∃ m₁ c, x = exchange h m₁ c := by
  obtain ⟨-, es, -, rfl, -, -⟩ := ha
  exact answered_exchangesIn h m es

/-- The log only grows. -/
theorem log_prefix {a : Action α} {r : α} (ha : Runs h a m r m' xs cs ts) : m.log <+: m'.log := by
  obtain ⟨-, es, rfl, -⟩ := ha
  rw [after_log]
  exact List.prefix_append _ _

/-- Without changes of its own an action leaves the tree that the last command left. -/
theorem tree {a : Action α} {r : α} (ha : Runs h a m r m' xs [] ts) :
    m'.tree = treeAfter m.tree xs := by
  obtain ⟨-, es, rfl, rfl, hcs, -⟩ := ha
  induction es generalizing m with
  | nil => rfl
  | cons e es ih =>
    cases e with
    | changed c => simp [Event.change?] at hcs
    | ran c => exact ih hcs
    | printed s text => exact ih hcs
    | relayed s bytes => exact ih hcs
    | drawn bytes => exact ih hcs

theorem pure (h : Host) (m : Machine) (r : α) :
    Runs h (Pure.pure r : Action α) m r m [] [] [] :=
  ⟨rfl, [], rfl, rfl, rfl, rfl⟩

theorem get (h : Host) (m : Machine) :
    Runs h (MonadState.get : Action Machine) m m m [] [] [] :=
  ⟨rfl, [], rfl, rfl, rfl, rfl⟩

theorem bind {a : Action α} {f : α → Action β} {r : α} {s : β}
    (ha : Runs h a m r m' xs cs ts) (hf : Runs h (f r) m' s m'' xs' cs' ts') :
    Runs h (a >>= f) m s m'' (xs ++ xs') (cs ++ cs') (ts ++ ts') := by
  obtain ⟨hra, es, rfl, rfl, rfl, rfl⟩ := ha
  obtain ⟨hrf, fs, rfl, rfl, rfl, rfl⟩ := hf
  refine ⟨?_, es ++ fs, (after_append h m es fs).symm, exchangesIn_append h m es fs,
    List.filterMap_append, List.filterMap_append⟩
  show f (a m).1 (a m).2 = _
  rw [hra, ← hrf]

/-- An action that is followed by a silent one. -/
theorem bind_silent {a : Action α} {f : α → Action β} {r : α} {s : β}
    (ha : Runs h a m r m' xs cs ts) (hf : Runs h (f r) m' s m'' [] [] []) :
    Runs h (a >>= f) m s m'' xs cs ts := by
  have := bind ha hf
  rw [List.append_nil, List.append_nil, List.append_nil] at this
  exact this

/-- Courses of attempts: after a success the attempt goes on. -/
theorem bind_ok {x : Attempt ε α} {f : α → Attempt ε β} {r : α} {s : Except ε β}
    (hx : Runs h x.run m (.ok r) m' xs cs ts) (hf : Runs h (f r).run m' s m'' xs' cs' ts') :
    Runs h (x >>= f).run m s m'' (xs ++ xs') (cs ++ cs') (ts ++ ts') :=
  bind (f := ExceptT.bindCont f) hx hf

/-- Courses of attempts: a failure ends the attempt. -/
theorem bind_error {x : Attempt ε α} {f : α → Attempt ε β} {e : ε}
    (hx : Runs h x.run m (.error e) m' xs cs ts) :
    Runs h (x >>= f).run m (.error e) m' xs cs ts :=
  bind_silent (f := ExceptT.bindCont f) hx (pure h m' (Except.error e))

/-- Courses of attempts: an action cannot fail. -/
theorem lift {a : Action α} {r : α} (ha : Runs h a m r m' xs cs ts) :
    Runs h (liftM a : Attempt ε α).run m (.ok r) m' xs cs ts :=
  bind_silent (f := fun r => Pure.pure (Except.ok r)) ha (pure h m' (Except.ok r : Except ε α))

theorem throw (h : Host) (m : Machine) (e : ε) :
    Runs h (MonadExcept.throw e : Attempt ε α).run m (.error e) m [] [] [] :=
  pure h m (Except.error e)

theorem ok (h : Host) (m : Machine) (r : α) :
    Runs h (Pure.pure r : Attempt ε α).run m (.ok r) m [] [] [] :=
  pure h m (Except.ok r)

/-- What an action does depends on nothing but the machine. -/
theorem unique {a : Action α} {r s : α} (ha : Runs h a m r m' xs cs ts)
    (hb : Runs h a m s m'' xs' cs' ts') :
    r = s ∧ m' = m'' ∧ xs = xs' ∧ cs = cs' ∧ ts = ts' := by
  obtain ⟨hra, es, he, rfl, rfl, rfl⟩ := ha
  obtain ⟨hrb, fs, hf, rfl, rfl, rfl⟩ := hb
  have heq := hra.symm.trans hrb
  obtain ⟨rfl, rfl⟩ := Prod.mk.inj heq
  have hlog : m.log ++ es = m.log ++ fs := by
    rw [← after_log h m es, ← he, hf, after_log]
  obtain rfl := List.append_cancel_left hlog
  exact ⟨rfl, rfl, rfl, rfl, rfl⟩

end Runs

/-- The action has a course on every machine. -/
def Recorded {α : Type} (h : Host) (a : Action α) : Prop :=
  ∀ m, ∃ m' r xs cs ts, Runs h a m r m' xs cs ts

namespace Recorded

variable {α β ε : Type} {h : Host}

theorem pure (r : α) : Recorded h (Pure.pure r : Action α) :=
  fun m => ⟨m, r, [], [], [], Runs.pure h m r⟩

theorem get : Recorded h (MonadState.get : Action Machine) :=
  fun m => ⟨m, m, [], [], [], Runs.get h m⟩

theorem bind {a : Action α} {f : α → Action β} (ha : Recorded h a)
    (hf : ∀ r, Recorded h (f r)) : Recorded h (a >>= f) := by
  intro m
  obtain ⟨m₁, r, _, _, _, hm₁⟩ := ha m
  obtain ⟨m₂, s, _, _, _, hm₂⟩ := hf r m₁
  exact ⟨m₂, s, _, _, _, hm₁.bind hm₂⟩

theorem lift {a : Action α} (ha : Recorded h a) : Recorded h (liftM a : Attempt ε α).run := by
  intro m
  obtain ⟨m₁, r, _, _, _, hm₁⟩ := ha m
  exact ⟨m₁, _, _, _, _, hm₁.lift⟩

/-- An attempt goes on only where the part before succeeded. -/
theorem andThen {x : Attempt ε α} {f : α → Attempt ε β} (hx : Recorded h x.run)
    (hf : ∀ r, Recorded h (f r).run) : Recorded h (x >>= f).run := by
  intro m
  obtain ⟨m₁, r, _, _, _, hm₁⟩ := hx m
  cases r with
  | error e => exact ⟨m₁, _, _, _, _, hm₁.bind_error⟩
  | ok r =>
    obtain ⟨m₂, s, _, _, _, hm₂⟩ := hf r m₁
    exact ⟨m₂, s, _, _, _, hm₁.bind_ok hm₂⟩

end Recorded

namespace Action

variable (h : Host) (m : Machine)

/-- The texts of a stream that are on the output. -/
def onOutput (s : Stream) (text : String) : List String := if s = .out then [text] else []

theorem say_runs (s : Stream) (text : String) :
    ∃ m', Runs h (say s text) m () m' [] [] (onOutput s text) := by
  refine ⟨(say s text m).2, rfl, [.printed s text], rfl, rfl, rfl, ?_⟩
  cases s <;> rfl

theorem sayLine_runs (text : String) :
    ∃ m', Runs h (sayLine text) m () m' [] [] [text ++ "\n"] :=
  say_runs h m .out (text ++ "\n")

/-- Labelled lines of trouble do not go to the output. -/
theorem warn_runs (message : String) :
    ∃ m', Runs h (notify h .warning message) m () m' [] [] [] :=
  say_runs h m .err (Notice.warning.line h.style message)

theorem recorded_say (s : Stream) (text : String) : Recorded h (say s text) :=
  fun m => (say_runs h m s text).elim fun m' hm => ⟨m', _, _, _, _, hm⟩

theorem announce_runs (title : String) :
    ∃ m', Runs h (announce h title) m () m' [] [] [h.style.bold (banner title) ++ "\n"] :=
  sayLine_runs h m _

theorem change_runs {α : Type} (c : Change) (edit : Tree → Tree × α)
    (hc : c.on h m.tree = (edit m.tree).1) :
    ∃ m', Runs h (change c edit) m (edit m.tree).2 m' [] [c] [] ∧ m'.tree = (edit m.tree).1 := by
  refine ⟨(change c edit m).2, ⟨rfl, [.changed c], ?_, rfl, rfl, rfl⟩, rfl⟩
  show Machine.mk (edit m.tree).1 (m.log ++ [.changed c]) m.clock =
    Machine.mk (c.on h m.tree) (m.log ++ [.changed c]) m.clock
  rw [hc]

theorem readyDir_runs (p : Path) :
    ∃ m', Runs h (readyDir h p) m (m.tree.ensureDir h.workingDir p).2 m' [] [.readyDir p] [] ∧
      m'.tree = (Change.readyDir p).on h m.tree :=
  change_runs h m (.readyDir p) _ rfl

theorem removeDir_runs (p : Path) :
    ∃ m', Runs h (removeDir h p) m (m.tree.removeDirsIfThere h.workingDir p).2 m' []
        [.removeDir p] [] ∧
      m'.tree = (Change.removeDir p).on h m.tree :=
  change_runs h m (.removeDir p) _ rfl

theorem removeFile_runs (p : Path) :
    ∃ m', Runs h (removeFile h p) m (m.tree.removeFileIfThere h.workingDir p).2 m' []
        [.removeFile p] [] ∧
      m'.tree = (Change.removeFile p).on h m.tree :=
  change_runs h m (.removeFile p) _ rfl

/-- Writing a text fails exactly with the error of the tree. -/
theorem writeText_runs (p : Path) (text : String) :
    ∃ m' e, Runs h (writeText h p text) m e m' [] [.writeText p text] [] ∧
      m'.tree = (Change.writeText p text).on h m.tree ∧
      ∀ err, e = some err ↔ m.tree.write h.workingDir p (Text.encode text) = .error err := by
  obtain ⟨m', hm, ht⟩ : ∃ m', Runs h (writeText h p text) m _ m' [] [.writeText p text] [] ∧
      m'.tree = _ := change_runs h m (.writeText p text) _ (by
    simp only [Change.on]
    split <;> simp_all [Except.toOption])
  refine ⟨m', _, hm, ?_, ?_⟩
  · rw [ht]
    simp only [Change.on]
    split <;> simp_all [Except.toOption]
  · intro err
    split <;> simp_all

theorem send_runs (c : Command) :
    ∃ m', Runs h (send h c) m (m.exchange h c).outcome m' [m.exchange h c] [] [] := by
  refine ⟨(send h c m).2, rfl, .ran c :: (m.exchange h c).reply.relayed.map
    fun (s, bytes) => Event.relayed s bytes, ?_, ?_, ?_, ?_⟩
  · show _ = (m.next h (.ran c)).after h _
    rw [after_relayed]
    simp only [next, List.append_assoc]
    rfl
  · rw [exchangesIn, exchangesIn_eq_nil]
    · rfl
    · intro e he
      obtain ⟨p, -, rfl⟩ := List.mem_map.mp he
      rfl
  · simp [Event.change?, List.filterMap_cons]
  · simp [Event.shown?, List.filterMap_cons]

/-- The echo after a command leaves its outcome. -/
theorem echoOutcome_runs (o : Outcome) :
    ∃ m', Runs h (match o with
      | .ok r =>
        if h.echoes then do
          say .err (h.style.dim "$" ++ " exit " ++ toString r.exitCode ++ " after " ++
            elapsedText r.elapsed ++ "s\n")
          return o
        else return o
      | .error _ => return o) m o m' [] [] [] := by
  cases o with
  | error e => exact ⟨m, Runs.pure h m _⟩
  | ok r =>
    by_cases he : h.echoes
    · simp only [if_pos he]
      obtain ⟨m', hm⟩ := say_runs h m .err (h.style.dim "$" ++ " exit " ++ toString r.exitCode ++
        " after " ++ elapsedText r.elapsed ++ "s\n")
      exact ⟨m', hm.bind (Runs.pure h m' _)⟩
    · simp only [if_neg he]
      exact ⟨m, Runs.pure h m _⟩

/-- Sending with echoes is sending: the echoes go to the error output. -/
theorem invoke_runs (c : Command) :
    ∃ m', Runs h (invoke h c) m (m.exchange h c).outcome m' [m.exchange h c] [] [] := by
  unfold invoke
  by_cases he : h.echoes
  · rw [if_pos he]
    obtain ⟨m₁, hm₁⟩ := say_runs h m .err
      (h.style.dim "$" ++ " " ++ c.echo ++ " (in " ++ c.cwd.text ++ ")\n")
    obtain ⟨m₂, hm₂⟩ := send_runs h m₁ c
    rw [exchange_congr hm₁.tree (by simpa using hm₁.commands)] at hm₂
    obtain ⟨m₃, hm₃⟩ := echoOutcome_runs h m₂ (m.exchange h c).outcome
    exact ⟨m₃, hm₁.bind (hm₂.bind hm₃)⟩
  · rw [if_neg he]
    obtain ⟨m₂, hm₂⟩ := send_runs h m c
    obtain ⟨m₃, hm₃⟩ := echoOutcome_runs h m₂ (m.exchange h c).outcome
    exact ⟨m₃, hm₂.bind hm₃⟩

/-- Behind a spinner the same is done. -/
theorem behind_runs {α : Type} {m' : Machine} {a : Action α} {r : α} {xs : List Exchange}
    {cs : List Change} {ts : List String} (s : Spinner) (ha : Runs h a m r m' xs cs ts) :
    ∃ m'', Runs h (behind h s a) m r m'' xs cs ts := by
  obtain ⟨hr, es, rfl, rfl, rfl, rfl⟩ := ha
  have hnone (d : Number.Duration) : ∀ e ∈ h.drawing s d,
      e.command? = none ∧ e.change? = none ∧ e.shown? = none := by
    intro e he
    obtain ⟨bytes, rfl⟩ := Host.eq_drawn_of_mem_drawing he
    exact ⟨rfl, rfl, rfl⟩
  refine ⟨_, behind_eq h s hr, es ++ h.drawing s _, (after_append ..).symm, ?_, ?_, ?_⟩
  · rw [exchangesIn_append, exchangesIn_eq_nil h _ fun e he => (hnone _ e he).1, List.append_nil]
  · rw [List.filterMap_append,
      List.filterMap_eq_nil_iff.mpr fun e he => (hnone _ e he).2.1, List.append_nil]
  · rw [List.filterMap_append,
      List.filterMap_eq_nil_iff.mpr fun e he => (hnone _ e he).2.2, List.append_nil]

end Action

end HostSuite
