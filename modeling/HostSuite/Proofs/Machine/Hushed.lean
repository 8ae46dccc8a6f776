import HostSuite.Proofs.Machine.Abreast

/-
  A loud run beside a quiet one. A host that echoes shows each command before it is sent and its
  exit code after; a verbose run makes remarks, and it asks tools for their versions. All of this
  has no place in the log of a quiet run, and nothing else is missing there (`Louder`): the output
  is the same, the commands are the same but for the probes, and what is on the error output of the
  quiet run is on that of the loud one in the same order, but for the spinners: these are drawn, and
  cleared again, in a quiet run alone (`Event.keptOn`). Line by line this holds where nobody
  leaves a line unfinished there, for an echo would go on with that line. Two actions go hushed
  when from machines with the same commands but for the probes, and trees that are related, they
  give the same result and the log of the first is louder in this way (`Hushed`). Time that only
  probes take is counted in the loud run alone, so an action with probes is not `timed`.
-/

namespace HostSuite

/-- The command asks a program for its version and keeps the answer from the terminal. -/
def Command.isProbe (c : Command) : Bool := c.args = ["--version"] && !c.inheritsOutput

/-- The commands that do not ask for a version. -/
def unprobed (cs : List Command) : List Command := cs.filter fun c => !c.isProbe

/-- Asking for a version leaves the tree and the terminal as they are, and no later reply depends
on it. What is answered does not matter. -/
structure Host.ProbesHarmless (h : Host) : Prop where
  tree : ∀ cs c t, c.isProbe = true → (h.runner cs c t).tree = t
  silent : ∀ cs c t, c.isProbe = true → (h.runner cs c t).relayed = []
  later : ∀ cs p cs' c t, p.isProbe = true →
    h.runner (cs ++ p :: cs') c t = h.runner (cs ++ cs') c t

/-- On related trees every command is answered alike. -/
def Host.Respects (h : Host) (T : Tree → Tree → Prop) : Prop :=
  ∀ cs c t t', T t t' → Reply.Like T (h.runner cs c t) (h.runner cs c t')

/-- The host without echoes, at another time. -/
def Host.hushed (h : Host) (stamp : String) : Host := { h with echoes := false, timestamp := stamp }

/-- What a reply puts on the terminal. -/
def Reply.events (r : Reply) : List Event := r.relayed.map fun x => .relayed x.1 x.2

/-- What the event leaves on a stream. A spinner is cleared, so it leaves nothing. -/
def Event.keptOn (s : Stream) : Event → Text.Bytes
  | drawn _ => []
  | e => e.bytesOn s

/-- What is left on a stream. -/
def Machine.keptOn (m : Machine) (s : Stream) : Text.Bytes := m.log.flatMap (Event.keptOn s)

/-- What a spinner of the host can look like. -/
def Host.Draws (h : Host) (bytes : Text.Bytes) : Prop :=
  ∃ draw s d, h.spinner = some draw ∧ bytes = draw (Spinner.message s) d

/-- No command leaves a line on the error output unfinished. -/
def Host.EndsLines (h : Host) : Prop :=
  ∀ cs c t, LineEnded ((h.runner cs c t).events.flatMap (Event.bytesOn .err))

/-- The first log is that of a loud run, the second that of a quiet one. -/
inductive Louder (h : Host) : List Event → List Event → Prop
  | nil : Louder h [] []
  | printed {es es' : List Event} (s : Stream) (text : String)
      (hline : s = .err → LineEnded (Text.encode text)) (rest : Louder h es es') :
      Louder h (.printed s text :: es) (.printed s text :: es')
  | changed {es es' : List Event} (c c' : Change) (rest : Louder h es es') :
      Louder h (.changed c :: es) (.changed c' :: es')
  | answered {es es' : List Event} (cs : List Command) (c : Command) (t : Tree)
      (hc : c.isProbe = false) (rest : Louder h es es') :
      Louder h (.ran c :: ((h.runner cs c t).events ++ es))
        (.ran c :: ((h.runner cs c t).events ++ es'))
  | remark {es es' : List Event} (text : String) (hline : LineEnded (Text.encode text))
      (rest : Louder h es es') : Louder h (.printed .err text :: es) es'
  | probe {es es' : List Event} (c : Command) (hc : c.isProbe = true) (rest : Louder h es es') :
      Louder h (.ran c :: es) es'
  | drawn {es es' : List Event} (bytes : Text.Bytes) (hdraws : h.Draws bytes)
      (rest : Louder h es es') : Louder h es (.drawn bytes :: es')

/-! ## Probes -/

theorem Command.isProbe_of_length {c : Command} (hl : c.args.length ≠ 1) : c.isProbe = false := by
  unfold isProbe
  rw [decide_eq_false, Bool.false_and]
  intro ha
  rw [ha] at hl
  exact hl rfl

theorem Command.isProbe_inheriting (c : Command) : c.inheriting.isProbe = false := Bool.and_false _

theorem unprobed_append (cs cs' : List Command) :
    unprobed (cs ++ cs') = unprobed cs ++ unprobed cs' := List.filter_append ..

/-- A reply is the same whether versions were asked for or not. -/
theorem Host.ProbesHarmless.runner_unprobed {h : Host} (hp : h.ProbesHarmless) (cs : List Command)
    (c : Command) (t : Tree) : h.runner (unprobed cs) c t = h.runner cs c t := by
  -- a reply is asked for after all the commands, so those already looked at stand in front
  have hafter (front : List Command) :
      h.runner (front ++ unprobed cs) c t = h.runner (front ++ cs) c t := by
    induction cs generalizing front with
    | nil => rfl
    | cons p cs ih =>
      unfold unprobed
      cases hprobe : p.isProbe with
      | true =>
        rw [List.filter_cons_of_neg (by simp [hprobe]), hp.later front p cs c t hprobe]
        exact ih front
      | false =>
        rw [List.filter_cons_of_pos (by simp [hprobe])]
        have := ih (front ++ [p])
        rw [List.append_assoc, List.append_assoc] at this
        exact this
  exact hafter []

theorem Host.respects_eq (h : Host) : h.Respects Eq := by
  rintro cs c t _ rfl
  exact ⟨rfl, rfl, rfl⟩

/-! ## What a louder log has in common with a quiet one -/

/-- What a reply puts on the terminal holds no command. -/
theorem Reply.events_commands (r : Reply) : r.events.filterMap Event.command? = [] := by
  unfold Reply.events
  rw [List.filterMap_map]
  exact List.filterMap_eq_nil_iff.mpr fun _ _ => rfl

theorem Reply.not_mem_events_drawn (r : Reply) (bytes : Text.Bytes) :
    Event.drawn bytes ∉ r.events := by
  intro he
  obtain ⟨_, -, hx⟩ := List.mem_map.mp he
  cases hx

/-- All of it is left there. -/
theorem Reply.events_kept (r : Reply) (s : Stream) :
    r.events.flatMap (Event.keptOn s) = r.events.flatMap (Event.bytesOn s) := by
  unfold Reply.events
  rw [List.flatMap_map, List.flatMap_map]
  rfl

/-- Where nothing was drawn, everything is left. -/
theorem Machine.keptOn_eq {m : Machine} {s : Stream} (hm : ∀ bytes, Event.drawn bytes ∉ m.log) :
    m.keptOn s = m.bytesOn s := by
  have hsame : ∀ e ∈ m.log, e.keptOn s = e.bytesOn s := by
    intro e he
    cases e with
    | drawn bytes => exact absurd he (hm bytes)
    | _ => rfl
  unfold keptOn bytesOn
  rw [List.flatMap_def, List.flatMap_def, List.map_congr_left hsame]

namespace Louder

variable {h : Host} {es es' fs fs' : List Event}

theorem append (he : Louder h es es') (hf : Louder h fs fs') :
    Louder h (es ++ fs) (es' ++ fs') := by
  induction he with
  | nil => exact hf
  | printed s text hline _ ih => exact .printed s text hline ih
  | changed c c' _ ih => exact .changed c c' ih
  | answered cs c t hc _ ih =>
    rw [List.cons_append, List.cons_append, List.append_assoc, List.append_assoc]
    exact .answered cs c t hc ih
  | remark text hline _ ih => exact .remark text hline ih
  | probe c hc _ ih => exact .probe c hc ih
  | drawn bytes hdraws _ ih => exact .drawn bytes hdraws ih

/-- The quiet run sends the same commands but for the probes. -/
theorem commands (he : Louder h es es') :
    es'.filterMap Event.command? = unprobed (es.filterMap Event.command?) := by
  induction he with
  | nil => rfl
  | printed _ _ _ _ ih | changed _ _ _ ih | remark _ _ _ ih | drawn _ _ _ ih => exact ih
  | @answered es es' cs c t hc _ ih =>
    have hsame (fs : List Event) :
        (Event.ran c :: ((h.runner cs c t).events ++ fs)).filterMap Event.command? =
          [c] ++ fs.filterMap Event.command? := by
      show c :: ((h.runner cs c t).events ++ fs).filterMap Event.command? = _
      rw [List.filterMap_append, Reply.events_commands]
      rfl
    have hkept : unprobed [c] = [c] := List.filter_cons_of_pos (by simp [hc])
    rw [hsame, hsame, ih, unprobed_append, hkept]
  | @probe es es' c hc _ ih =>
    have hdropped : unprobed [c] = [] := List.filter_cons_of_neg (by simp [hc])
    show _ = unprobed ([c] ++ es.filterMap Event.command?)
    rw [ih, unprobed_append, hdropped]
    rfl

/-- The output is the same. -/
theorem out (he : Louder h es es') :
    es'.flatMap (Event.bytesOn .out) = es.flatMap (Event.bytesOn .out) := by
  induction he with
  | nil => rfl
  | printed s text _ _ ih => rw [List.flatMap_cons, List.flatMap_cons, ih]
  | changed _ _ _ ih | remark _ _ _ ih | probe _ _ _ ih | drawn _ _ _ ih => exact ih
  | answered cs c t _ _ ih =>
    rw [List.flatMap_cons, List.flatMap_cons, List.flatMap_append, List.flatMap_append, ih]

/-- What the quiet run leaves on the error output does not get lost or change its order. -/
theorem err (he : Louder h es es') :
    (es'.flatMap (Event.keptOn .err)).Sublist (es.flatMap (Event.bytesOn .err)) := by
  induction he with
  | nil => exact .slnil
  | printed s text _ _ ih =>
    rw [List.flatMap_cons, List.flatMap_cons]
    exact .append (.refl _) ih
  | changed _ _ _ ih | probe _ _ _ ih | drawn _ _ _ ih => exact ih
  | answered cs c t _ _ ih =>
    rw [List.flatMap_cons, List.flatMap_cons, List.flatMap_append, List.flatMap_append,
      Reply.events_kept]
    exact .append (.refl _) (.append (.refl _) ih)
  | remark text _ _ ih =>
    rw [List.flatMap_cons]
    exact ih.trans (List.sublist_append_right ..)

/-- Where commands end their lines, this holds line by line: each event begins a line. -/
theorem err_lines (hl : h.EndsLines) (he : Louder h es es') :
    (byteLines (es'.flatMap (Event.keptOn .err))).Sublist
      (byteLines (es.flatMap (Event.bytesOn .err))) := by
  have hboth {bs a b : Text.Bytes} (hb : LineEnded bs) (hab : (byteLines a).Sublist (byteLines b)) :
      (byteLines (bs ++ a)).Sublist (byteLines (bs ++ b)) := by
    obtain ⟨ls, hls⟩ := hb.lines_append
    rw [hls, hls]
    exact .append (.refl ls) hab
  induction he with
  | nil => exact .refl _
  | printed s text hline _ ih =>
    rw [List.flatMap_cons, List.flatMap_cons]
    refine hboth ?_ ih
    -- the output is another stream
    cases s with
    | out => exact .nil
    | err => exact hline rfl
  | changed _ _ _ ih | probe _ _ _ ih | drawn _ _ _ ih => exact ih
  | answered cs c t _ _ ih =>
    show (byteLines (((h.runner cs c t).events ++ _).flatMap _)).Sublist
      (byteLines (((h.runner cs c t).events ++ _).flatMap _))
    rw [List.flatMap_append, List.flatMap_append, Reply.events_kept]
    exact hboth (hl cs c t) ih
  | remark text hline _ ih =>
    rw [List.flatMap_cons]
    obtain ⟨ls, hls⟩ := hline.lines_append
    show (byteLines _).Sublist (byteLines (Text.encode text ++ _))
    rw [hls]
    exact ih.trans (List.sublist_append_right ..)

/-- The loud run draws nothing, and the quiet one draws spinners of the host. -/
theorem drawings (he : Louder h es es') :
    (∀ bytes, Event.drawn bytes ∉ es) ∧ ∀ bytes, Event.drawn bytes ∈ es' → h.Draws bytes := by
  induction he with
  | nil => simp
  | printed _ _ _ _ ih | changed _ _ _ ih => simpa using ih
  | answered cs c t _ _ ih => simpa [Reply.not_mem_events_drawn] using ih
  | remark _ _ _ ih | probe _ _ _ ih =>
    refine ⟨fun bytes hb => ?_, ih.2⟩
    cases hb with
    | tail _ hb => exact ih.1 bytes hb
  | drawn bytes hdraws _ ih =>
    refine ⟨ih.1, fun bytes' hb => ?_⟩
    cases hb with
    | head => exact hdraws
    | tail _ hb => exact ih.2 bytes' hb

end Louder

/-! ## Actions -/

/-- From `m` and `m'` a loud run and a quiet one got to `w` and `w'`. -/
def Muffled (h : Host) (timed : Prop) (U : Tree → Tree → Prop) (m m' w w' : Machine) : Prop :=
  ∃ es es' d d', w.log = m.log ++ es ∧ w'.log = m'.log ++ es' ∧ Louder h es es' ∧
    w.clock = m.clock + d ∧ w'.clock = m'.clock + d' ∧ (timed → d' = d) ∧ U w.tree w'.tree

/-- The second action does quietly what the first does, from trees that `T` relates to trees that
`U` relates. -/
def Hushed {α : Type} (h : Host) (timed : Prop) (T U : Tree → Tree → Prop) (a b : Action α) :
    Prop :=
  ∀ m m', T m.tree m'.tree → m'.commands = unprobed m.commands →
    (b m').1 = (a m).1 ∧ Muffled h timed U m m' (a m).2 (b m').2

/-- The action leaves nothing but remarks and probes, and the tree as it is. -/
def Aside {α : Type} (h : Host) (timed : Prop) (a : Action α) : Prop :=
  ∀ m, ∃ es d, (a m).2.log = m.log ++ es ∧ Louder h es [] ∧ (a m).2.clock = m.clock + d ∧
    (timed → d = 0) ∧ (a m).2.tree = m.tree

section

variable {h : Host} {timed : Prop} {T U V : Tree → Tree → Prop} {m m' w w' v v' : Machine}

theorem Muffled.tree (hw : Muffled h timed U m m' w w') : U w.tree w'.tree := by
  obtain ⟨-, -, -, -, -, -, -, -, -, -, hu⟩ := hw
  exact hu

theorem Muffled.commands (hw : Muffled h timed U m m' w w')
    (hm : m'.commands = unprobed m.commands) : w'.commands = unprobed w.commands := by
  obtain ⟨es, es', -, -, hlog, hlog', hes, -⟩ := hw
  unfold Machine.commands at hm ⊢
  rw [hlog, hlog', List.filterMap_append, List.filterMap_append, unprobed_append, hm, hes.commands]

theorem Muffled.trans (hw : Muffled h timed U m m' w w') (hv : Muffled h timed V w w' v v') :
    Muffled h timed V m m' v v' := by
  obtain ⟨es, es', d, d', hlog, hlog', hes, hd, hd', htimed, -⟩ := hw
  obtain ⟨fs, fs', k, k', hlog₁, hlog₁', hfs, hk, hk', htimed₁, hv⟩ := hv
  refine ⟨es ++ fs, es' ++ fs', d + k, d' + k', ?_, ?_, hes.append hfs, ?_, ?_, fun ht => ?_, hv⟩
  · rw [hlog₁, hlog, List.append_assoc]
  · rw [hlog₁', hlog', List.append_assoc]
  · rw [hk, hd, Nat.add_assoc]
  · rw [hk', hd', Nat.add_assoc]
  · rw [htimed ht, htimed₁ ht]

end

namespace Aside

variable {α β : Type} {h : Host} {timed : Prop}

theorem pure (r : α) : Aside h timed (Pure.pure r : Action α) :=
  fun _ => ⟨[], 0, (List.append_nil _).symm, .nil, rfl, fun _ => rfl, rfl⟩

theorem bind {a : Action α} {f : α → Action β} (ha : Aside h timed a)
    (hf : ∀ r, Aside h timed (f r)) : Aside h timed (a >>= f) := by
  intro m
  obtain ⟨es, d, hlog, hes, hd, htimed, htree⟩ := ha m
  obtain ⟨fs, k, hlog', hfs, hk, htimed', htree'⟩ := hf (a m).1 (a m).2
  refine ⟨es ++ fs, d + k, ?_, hes.append hfs, ?_, fun ht => ?_, ?_⟩
  · show (f (a m).1 (a m).2).2.log = _
    rw [hlog', hlog, List.append_assoc]
  · show (f (a m).1 (a m).2).2.clock = _
    rw [hk, hd, Nat.add_assoc]
  · rw [htimed ht, htimed' ht]
  · show (f (a m).1 (a m).2).2.tree = _
    rw [htree', htree]

theorem say {text : String} (hline : LineEnded (Text.encode text)) :
    Aside h timed (Action.say .err text) :=
  fun _ => ⟨[.printed .err text], 0, rfl, .remark text hline .nil, rfl, fun _ => rfl, rfl⟩

theorem echo (h : Host) (c : Command) : Aside h timed (Action.say .err
    (h.style.dim "$" ++ " " ++ c.echo ++ " (in " ++ c.cwd.text ++ ")\n")) :=
  say (@lineEnded_append _ ")\n" (Text.encode ")") rfl)

theorem exitEcho (h : Host) (r : CommandResult) : Aside h timed (Action.say .err
    (h.style.dim "$" ++ " exit " ++ toString r.exitCode ++ " after " ++
      Action.elapsedText r.elapsed ++ "s\n")) :=
  say (@lineEnded_append _ "s\n" (Text.encode "s") rfl)

/-- A probe and its echoes; only the clock tells of it. -/
theorem probe (hp : h.ProbesHarmless) {c : Command} (hc : c.isProbe = true) :
    Aside h False (Action.invoke h c) := by
  have hsend : Aside h False (Action.send h c) := by
    refine fun m => ⟨[.ran c], _, ?_, .probe c hc .nil, rfl, False.elim, hp.tree _ _ _ hc⟩
    show m.log ++ .ran c :: (h.runner m.commands c m.tree).events = _
    unfold Reply.events
    rw [hp.silent _ _ _ hc]
    rfl
  unfold Action.invoke
  split
  · refine bind (echo h c) fun _ => bind hsend fun o => ?_
    cases o with
    | ok r => exact bind (exitEcho h r) fun _ => pure _
    | error e => exact pure _
  · refine bind hsend fun o => ?_
    cases o with
    | ok r => exact pure _
    | error e => exact pure _

end Aside

namespace Hushed

variable {α β ε : Type} {h : Host} {stamp : String} {timed : Prop} {T U V : Tree → Tree → Prop}

theorem pure (r : α) : Hushed h timed T T (Pure.pure r) (Pure.pure r) :=
  fun _ _ ht _ => ⟨rfl, [], [], 0, 0, (List.append_nil _).symm, (List.append_nil _).symm, .nil, rfl,
    rfl, fun _ => rfl, ht⟩

theorem bind {a b : Action α} {f g : α → Action β} (hab : Hushed h timed T U a b)
    (hfg : ∀ r, Hushed h timed U V (f r) (g r)) : Hushed h timed T V (a >>= f) (b >>= g) := by
  intro m m' ht hm
  obtain ⟨hr, hw⟩ := hab m m' ht hm
  obtain ⟨hs, hv⟩ := hfg (a m).1 (a m).2 (b m').2 hw.tree (hw.commands hm)
  show (g (b m').1 (b m').2).1 = (f (a m).1 (a m).2).1 ∧
    Muffled h timed V m m' (f (a m).1 (a m).2).2 (g (b m').1 (b m').2).2
  rw [hr]
  exact ⟨hs, hw.trans hv⟩

theorem mono {a b : Action α} (hab : Hushed h timed T U a b) (huv : ∀ t t', U t t' → V t t') :
    Hushed h timed T V a b := by
  intro m m' ht hm
  obtain ⟨hr, es, es', d, d', hlog, hlog', hes, hd, hd', htimed, hu⟩ := hab m m' ht hm
  exact ⟨hr, es, es', d, d', hlog, hlog', hes, hd, hd', htimed, huv _ _ hu⟩

/-- What only the loud run does. -/
theorem aside {a : Action Unit} (ha : Aside h timed a) : Hushed h timed T T a (Pure.pure ()) := by
  intro m m' ht _
  obtain ⟨es, d, hlog, hes, hd, htimed, htree⟩ := ha m
  refine ⟨rfl, es, [], d, 0, hlog, (List.append_nil _).symm, hes, hd, rfl,
    fun h => (htimed h).symm, ?_⟩
  rw [htree]
  exact ht

theorem after_aside {a : Action Unit} {b c : Action α} (ha : Aside h timed a)
    (hbc : Hushed h timed T U b c) : Hushed h timed T U (a >>= fun _ => b) c :=
  bind (aside ha) fun _ => hbc

theorem forM {a b : α → Action Unit} (hab : ∀ r, Hushed h timed T T (a r) (b r)) (rs : List α) :
    Hushed h timed T T (rs.forM a) (rs.forM b) := by
  induction rs with
  | nil => exact pure ()
  | cons r rs ih => exact bind (hab r) fun _ => ih

theorem lift {a b : Action α} (hab : Hushed h timed T U a b) :
    Hushed h timed T U (liftM a : Attempt ε α).run (liftM b : Attempt ε α).run :=
  bind (f := fun r => Pure.pure (Except.ok r)) hab fun r => pure (Except.ok r)

/-- An attempt that fails leaves the trees where the next part would begin. -/
theorem andThenTo {x y : Attempt ε α} {f g : α → Attempt ε β}
    (hxy : Hushed h timed T U x.run y.run) (huv : ∀ t t', U t t' → V t t')
    (hfg : ∀ r, Hushed h timed U V (f r).run (g r).run) :
    Hushed h timed T V (x >>= f).run (y >>= g).run := by
  refine bind (f := ExceptT.bindCont f) (g := ExceptT.bindCont g) hxy fun r => ?_
  cases r with
  | ok r => exact hfg r
  | error e => exact mono (pure (Except.error e)) huv

theorem andThen {x y : Attempt ε α} {f g : α → Attempt ε β}
    (hxy : Hushed h timed T U x.run y.run)
    (hfg : ∀ r, Hushed h timed U U (f r).run (g r).run) :
    Hushed h timed T U (x >>= f).run (y >>= g).run :=
  andThenTo hxy (fun _ _ => id) hfg

/-- Where the tree decides what to do, it decides the same. -/
theorem bind_get {f g : Machine → Action α}
    (hfg : ∀ m m', T m.tree m'.tree → Hushed h timed T U (f m) (g m')) :
    Hushed h timed T U (MonadState.get >>= f) (MonadState.get >>= g) :=
  fun m m' ht hm => hfg m m' ht m m' ht hm

theorem andThen_get {f g : Machine → Attempt ε α}
    (hfg : ∀ m m', T m.tree m'.tree → Hushed h timed T U (f m).run (g m').run) :
    Hushed h timed T U (MonadState.get >>= f : Attempt ε α).run (MonadState.get >>= g).run :=
  fun m m' ht hm => hfg m m' ht m m' ht hm

theorem say {s : Stream} {text : String} (hline : s = .err → LineEnded (Text.encode text)) :
    Hushed h timed T T (Action.say s text) (Action.say s text) :=
  fun _ _ ht _ => ⟨rfl, [.printed s text], [.printed s text], 0, 0, rfl, rfl,
    .printed s text hline .nil, rfl, rfl, fun _ => rfl, ht⟩

/-- The output takes any text. -/
theorem sayOut (text : String) : Hushed h timed T T (Action.say .out text) (Action.say .out text) :=
  say nofun

theorem sayLine (text : String) : Hushed h timed T T (Action.sayLine text) (Action.sayLine text) :=
  sayOut _

theorem notify (n : Notice) (message : String) :
    Hushed h timed T T (Action.notify h n message) (Action.notify (h.hushed stamp) n message) :=
  say fun _ => lineEnded_line _

theorem announce (title : String) :
    Hushed h timed T T (Action.announce h title) (Action.announce (h.hushed stamp) title) :=
  sayLine _

theorem change {c c' : Change} {edit edit' : Tree → Tree × α}
    (he : ∀ t t', T t t' → (edit' t').2 = (edit t).2 ∧ U (edit t).1 (edit' t').1) :
    Hushed h timed T U (Action.change c edit) (Action.change c' edit') := by
  intro m m' ht _
  obtain ⟨hr, hu⟩ := he _ _ ht
  exact ⟨hr, [.changed c], [.changed c'], 0, 0, rfl, rfl, .changed c c' .nil, rfl, rfl,
    fun _ => rfl, hu⟩

/-- The same change of the same tree. -/
theorem change_same (c : Change) (edit : Tree → Tree × α) :
    Hushed h timed Eq Eq (Action.change c edit) (Action.change c edit) :=
  change fun t t' ht => by rw [ht]; exact ⟨rfl, rfl⟩

theorem send (hp : h.ProbesHarmless) (ht : h.Respects T) {c : Command} (hc : c.isProbe = false) :
    Hushed h timed T T (Action.send h c) (Action.send (h.hushed stamp) c) := by
  intro m m' htree hm
  obtain ⟨houtcome, hrelayed, htree⟩ := ht m.commands c _ _ htree
  -- the quiet host has seen the same commands but for the probes
  have hreply : (h.hushed stamp).runner m'.commands c m'.tree =
      h.runner m.commands c m'.tree := by
    rw [hm]
    exact hp.runner_unprobed m.commands c m'.tree
  refine ⟨?_, .ran c :: (h.runner m.commands c m.tree).events,
    .ran c :: (h.runner m.commands c m.tree).events,
    Action.elapsedOf (h.runner m.commands c m.tree).outcome,
    Action.elapsedOf (h.runner m.commands c m.tree).outcome, rfl, ?_, ?_, rfl, ?_, fun _ => rfl, ?_⟩
  · show ((h.hushed stamp).runner m'.commands c m'.tree).outcome = _
    rw [hreply, houtcome]
    rfl
  · show m'.log ++ .ran c :: ((h.hushed stamp).runner m'.commands c m'.tree).events =
      m'.log ++ .ran c :: (h.runner m.commands c m.tree).events
    unfold Reply.events
    rw [hreply, hrelayed]
  · have := Louder.answered m.commands c m.tree hc (Louder.nil (h := h))
    rw [List.append_nil] at this
    exact this
  · show m'.clock + Action.elapsedOf ((h.hushed stamp).runner m'.commands c m'.tree).outcome = _
    rw [hreply, houtcome]
  · show T _ ((h.hushed stamp).runner m'.commands c m'.tree).tree
    rw [hreply]
    exact htree

/-- The echoes are only in the loud run. -/
theorem invoke (hp : h.ProbesHarmless) (hloud : h.echoes = true) (ht : h.Respects T) {c : Command}
    (hc : c.isProbe = false) :
    Hushed h timed T T (Action.invoke h c) (Action.invoke (h.hushed stamp) c) := by
  have hquiet : (h.hushed stamp).echoes = false := rfl
  unfold Action.invoke
  rw [hloud, hquiet, if_pos rfl, if_neg nofun]
  refine after_aside (.echo h c) (bind (send hp ht hc) fun o => ?_)
  cases o with
  | ok r => exact after_aside (.exitEcho h r) (pure _)
  | error e => exact pure _

/-- The spinner is only in the quiet run. -/
theorem behind (hloud : h.echoes = true) (s : Spinner) {a b : Action α}
    (hab : Hushed h timed T U a b) :
    Hushed h timed T U (Action.behind h s a) (Action.behind (h.hushed stamp) s b) := by
  intro m m' ht hm
  obtain ⟨hr, hw⟩ := hab m m' ht hm
  have hnone (d : Number.Duration) : h.drawing s d = [] := by
    obtain hd | ⟨hquiet, -⟩ := h.drawing_cases s d
    · exact hd
    · rw [hloud] at hquiet
      cases hquiet
  have hdrawn (d : Number.Duration) : Louder h [] ((h.hushed stamp).drawing s d) := by
    obtain hd | ⟨-, draw, hdraw, hd⟩ := (h.hushed stamp).drawing_cases s d
    · rw [hd]
      exact .nil
    · rw [hd]
      exact .drawn _ ⟨draw, s, d, hdraw, rfl⟩ .nil
  rw [Action.behind_eq h s (show a m = ((a m).1, (a m).2) from rfl),
    Action.behind_eq _ s (show b m' = ((b m').1, (b m').2) from rfl), hnone,
    Machine.after_drawing]
  exact ⟨hr, hw.trans ⟨[], _, 0, 0, (List.append_nil _).symm, rfl, hdrawn _, rfl, rfl,
    fun _ => rfl, hw.tree⟩⟩

/-- Going hushed keeps the rules, under tools that respect how the trees are related. -/
theorem twofold (hp : h.ProbesHarmless) (hloud : h.echoes = true) (ht : h.Respects T) :
    Twofold h (h.hushed stamp) T (fun c => c.isProbe = false) fun α =>
      Hushed (α := α) h timed T T where
  style := rfl
  workingDir := rfl
  pure := pure
  bind := bind
  get := bind_get
  say := say
  invoke := invoke hp hloud ht
  behind := behind hloud

end Hushed

end HostSuite
