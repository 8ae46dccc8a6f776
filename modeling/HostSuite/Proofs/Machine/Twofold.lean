import HostSuite.Machine
import HostSuite.Proofs.Text.LineEnds

/-
  The rules for two runs of one program. A judgement on pairs of actions, the first on one host and
  the second on another, is `Twofold` when it holds of actions that do nothing, of texts that are
  shown and of the commands it is about, and when it holds of actions that are put together or done
  behind a spinner if it holds of their parts. What a program does by these rules alone is judged
  once for all of them.
-/

namespace HostSuite

/-- The judgement `R` keeps the rules, for trees that `T` relates and for the commands in `C`. -/
structure Twofold (h h' : Host) (T : Tree → Tree → Prop) (C : Command → Prop)
    (R : (α : Type) → Action α → Action α → Prop) : Prop where
  style : h'.style = h.style
  workingDir : h'.workingDir = h.workingDir
  pure : ∀ {α : Type} (r : α), R α (Pure.pure r) (Pure.pure r)
  bind : ∀ {α β : Type} {a b : Action α} {f g : α → Action β}, R α a b →
    (∀ r, R β (f r) (g r)) → R β (a >>= f) (b >>= g)
  get : ∀ {α : Type} {f g : Machine → Action α},
    (∀ m m', T m.tree m'.tree → R α (f m) (g m')) →
      R α (MonadState.get >>= f) (MonadState.get >>= g)
  say : ∀ {s : Stream} {text : String}, (s = .err → LineEnded (Text.encode text)) →
    R Unit (Action.say s text) (Action.say s text)
  invoke : ∀ {c : Command}, C c → R Outcome (Action.invoke h c) (Action.invoke h' c)
  behind : ∀ {α : Type} (s : Spinner) {a b : Action α}, R α a b →
    R α (Action.behind h s a) (Action.behind h' s b)

namespace Twofold

variable {α β ε : Type} {h h' : Host} {T : Tree → Tree → Prop} {C : Command → Prop}
  {R : (α : Type) → Action α → Action α → Prop} (hR : Twofold h h' T C R)

include hR

theorem lift {a b : Action α} (hab : R α a b) :
    R (Except ε α) (liftM a : Attempt ε α).run (liftM b : Attempt ε α).run :=
  hR.bind (f := fun r => Pure.pure (Except.ok r)) hab fun r => hR.pure (Except.ok r)

/-- Attempts go on only where the parts before gave a result. -/
theorem andThen {x y : Attempt ε α} {f g : α → Attempt ε β} (hxy : R (Except ε α) x.run y.run)
    (hfg : ∀ r, R (Except ε β) (f r).run (g r).run) :
    R (Except ε β) (x >>= f).run (y >>= g).run := by
  refine hR.bind (f := ExceptT.bindCont f) (g := ExceptT.bindCont g) hxy fun r => ?_
  cases r with
  | ok r => exact hfg r
  | error e => exact hR.pure (Except.error e)

theorem andThen_get {f g : Machine → Attempt ε α}
    (hfg : ∀ m m', T m.tree m'.tree → R (Except ε α) (f m).run (g m').run) :
    R (Except ε α) (MonadState.get >>= f : Attempt ε α).run (MonadState.get >>= g).run := by
  show R (Except ε α) (MonadState.get >>= fun m => (f m).run)
    (MonadState.get >>= fun m => (g m).run)
  exact hR.get hfg

/-- The output takes any text. -/
theorem sayOut (text : String) : R Unit (Action.say .out text) (Action.say .out text) :=
  hR.say nofun

theorem notify (n : Notice) (message : String) :
    R Unit (Action.notify h n message) (Action.notify h' n message) := by
  unfold Action.notify
  rw [hR.style]
  exact hR.say fun _ => lineEnded_notice n h.style message

theorem announce (title : String) :
    R Unit (Action.announce h title) (Action.announce h' title) := by
  unfold Action.announce
  rw [hR.style]
  exact hR.sayOut _

end Twofold

end HostSuite
