import HostSuite.Proofs.Machine.Abreast
import HostSuite.Suite.ProjectRun

/-
  The stages of a project on two hosts, by the rules that all judgements on two runs keep. A project
  sends commands in its root, makes two changes and looks for its binary; where a judgement holds of
  these, it holds of all stages. Where the stages go abreast, so does the run of the project
  (`abreastTo_runProject`).
-/

namespace HostSuite.Suite

/-- What a project does itself is judged: its changes, and the look for its binary. -/
structure Handled (h h' : Host) (T : Tree → Tree → Prop)
    (R : (α : Type) → Action α → Action α → Prop) (p : Project) : Prop where
  removeDir : R _ (Action.removeDir h p.buildDir) (Action.removeDir h' p.buildDir)
  dropCounters : R _
    (Action.change (.dropCounters p.root) fun t => t.dropCounters h.workingDir p.root)
    (Action.change (.dropCounters p.root) fun t => t.dropCounters h'.workingDir p.root)
  binary : ∀ t t', T t t' → Project.findBinary t' h.workingDir p.buildDir =
    Project.findBinary t h.workingDir p.buildDir

section

variable {h h' : Host} {T : Tree → Tree → Prop} {C : Command → Prop}
  {R : (α : Type) → Action α → Action α → Prop} (hR : Twofold h h' T C R) {p : Project}
  (hp : Handled h h' T R p) (hC : ∀ program args, C (stageCommand p program args))

include hR hC in
/-- A stage of the project: a note, and a command in its root. -/
theorem twofold_stage (n : Notice) (message program : String) (args : List String)
    (launchFault : LaunchError → Fault) (exitFault : CommandResult → Fault) :
    R _
      (do
        liftM (Action.notify h n message)
        stage h (stageCommand p program args) launchFault exitFault : Attempt Fault Unit).run
      (do
        liftM (Action.notify h' n message)
        stage h' (stageCommand p program args) launchFault exitFault : Attempt Fault Unit).run :=
  hR.andThen (hR.lift (hR.notify n message)) fun _ =>
    hR.andThen (hR.lift (hR.invoke (hC program args))) fun _ => hR.pure _

include hR hp in
theorem twofold_removeBuild : R _ (removeBuild h p) (removeBuild h' p) := by
  refine hR.bind hp.removeDir fun e => ?_
  cases e with
  | none => exact hR.pure ()
  | some e => exact hR.notify _ _

include hR hp in
theorem twofold_dropCounters : R _ (dropCounters h p) (dropCounters h' p) := by
  refine hR.bind (hR.notify _ _) fun _ => hR.bind hp.dropCounters fun count => ?_
  split
  · exact hR.sayOut _
  · exact hR.pure ()

include hR hp in
theorem twofold_locate : R _ (locate h p).run (locate h' p).run := by
  refine hR.andThen_get fun m m' ht => ?_
  rw [hR.workingDir, hp.binary _ _ ht]
  split <;> exact hR.pure _

include hR hp hC

theorem twofold_cleanBuild (tools : ToolSettings) :
    R _ (cleanBuild h tools p).run (cleanBuild h' tools p).run :=
  hR.andThen (hR.lift (hR.notify _ _)) fun _ =>
    hR.andThen (hR.lift (twofold_removeBuild hR hp)) fun _ => twofold_stage hR hC _ _ _ _ _ _

theorem twofold_buildAndTest (tools : ToolSettings) :
    R _ (buildAndTest h tools p).run (buildAndTest h' tools p).run :=
  hR.andThen (twofold_stage hR hC _ _ _ _ _ _) fun _ =>
    hR.andThen (twofold_locate hR hp) fun _ =>
      hR.andThen (twofold_stage hR hC _ _ _ _ _ _) fun _ => hR.pure _

/-- All stages of the project. -/
theorem twofold_stages (tools : ToolSettings) (clean : Bool) :
    R _ (stages h tools clean p).run (stages h' tools clean p).run := by
  have hrest : R _
      (do
        liftM (dropCounters h p)
        buildAndTest h tools p : Attempt Fault Path).run
      (do
        liftM (dropCounters h' p)
        buildAndTest h' tools p : Attempt Fault Path).run :=
    hR.andThen (hR.lift (twofold_dropCounters hR hp)) fun _ => twofold_buildAndTest hR hp hC tools
  refine hR.andThen (hR.lift (hR.sayOut _)) fun _ =>
    hR.andThen (hR.lift (hR.announce _)) fun _ => ?_
  cases clean with
  | false => exact hrest
  | true => exact hR.andThen (twofold_cleanBuild hR hp hC tools) fun _ => hrest

end

/-- The time is taken as a difference, so it does not matter when a run begins. -/
theorem abreastTo_runProject {h h' : Host} {T U : Tree → Tree → Prop} {tools : ToolSettings}
    {clean : Bool} {p : Project}
    (hs : AbreastTo h h' T U (stages h tools clean p).run (stages h' tools clean p).run) :
    AbreastTo h h' T U (runProject h tools clean p) (runProject h' tools clean p) := by
  intro m m' ht
  obtain ⟨hr, hstep⟩ := hs m m' ht
  have hrun (h : Host) (m : Machine) : runProject h tools clean p m =
      (⟨p.name, ((stages h tools clean p).run m).2.clock - m.clock,
        ((stages h tools clean p).run m).1.mapError Failure.fault⟩,
        ((stages h tools clean p).run m).2) := rfl
  rw [hrun, hrun]
  refine ⟨?_, hstep⟩
  obtain ⟨es, es', d, -, -, -, hd, hd', -⟩ := hstep
  simp only [hr, hd, hd', Nat.add_sub_cancel_left]

end HostSuite.Suite
