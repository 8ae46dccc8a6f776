import HostSuite.Proofs.Machine.Deeds
import HostSuite.Proofs.Suite.ProjectRun

/-
  The order of the stages of a project. A run does its deeds after a plan: a clean one removes the
  build directory and sets the target, then come the counters, the build, and the binary that is
  found in what the build left. It goes on as long as nothing fails, and the first stage that fails
  fixes the fault that the run ends with (`Staged`, `stages_staged`). From that the whole of a run
  can be told (`InStages`): what it did is a beginning of the plan that ends with the first failure,
  and it passed exactly if nothing failed and a binary was found, after the whole plan. That
  something of the build directory was left shows in a warning and nowhere else
  (`runProject_inStages`).
-/

namespace HostSuite.Suite

open HostSuite.Machine

section

variable (h : Host) (tools : ToolSettings) (p : Project)

/-! ## Plan and faults -/

/-- What a run does as long as nothing fails, with the binary that the build leads to. -/
def plan (clean : Bool) (binary : Option Path) : List Event :=
  (if clean then [.changed (.removeDir p.buildDir), .ran (setTargetCommand tools p)] else []) ++
    [.changed (.dropCounters p.root), .ran (buildCommand tools p)] ++
    (binary.map fun b => .ran (testCommand p b)).toList

/-- The command of a stage, the fault if it could not be launched, and the fault if it ran without
success. -/
inductive IsStage (c : Command) : (LaunchError → Fault) → (CommandResult → Fault) → Prop
  | set_target (hc : c = setTargetCommand tools p) :
      IsStage c (fun _ => .missingTool tools.idf "set-target" Hint.idf)
        (fun _ => .buildFailure p.name ("Failed to set target to " ++ tools.target)
          (some ("Ensure " ++ tools.idf ++ " is in PATH and the ESP-IDF environment is exported")))
  | build (hc : c = buildCommand tools p) :
      IsStage c (fun _ => .missingTool tools.idf "building projects" Hint.idf)
        (fun r => .buildFailure p.name
          (tools.idf ++ " build exited with code " ++ toString r.exitCode) none)
  | test (binary : Path) (hc : c = testCommand p binary) :
      IsStage c (fun e => .buildFailure p.name
          ("Could not launch " ++ binary.text ++ ": " ++ e.outer) none)
        (fun r => .testFailure p.name r.exitCode)

/-- The fault of a stage that failed. -/
inductive StageFault (x : Exchange) : Fault → Prop
  | unlaunched {launchFault : LaunchError → Fault} {exitFault : CommandResult → Fault}
      {e : LaunchError} (hs : IsStage tools p x.command launchFault exitFault)
      (ho : x.outcome = .error e) : StageFault x (launchFault e)
  | unsuccessful {launchFault : LaunchError → Fault} {exitFault : CommandResult → Fault}
      {r : CommandResult} (hs : IsStage tools p x.command launchFault exitFault)
      (ho : x.outcome = .ok r) (hr : r.success = false) : StageFault x (exitFault r)

/-- What a build leads to: the binary in the tree that it left. -/
def Finds (x : Exchange) (binary : Option Path) : Prop :=
  x.command = buildCommand tools p ∧
    Project.findBinary x.reply.tree h.workingDir p.buildDir = binary

/-- The deeds from the build on, and their outcome. -/
inductive Built : List Deed → Except Fault Path → Prop
  | unbuilt {x : Exchange} {f : Fault} (hx : x.command = buildCommand tools p)
      (hf : StageFault tools p x f) : Built [.exchange x] (.error f)
  | unfound {x : Exchange} (hx : Finds h tools p x none) (hs : x.succeeded = true) :
      Built [.exchange x] (.error (.executableNotFound p.name p.buildDir))
  | failed {x y : Exchange} {binary : Path} {f : Fault}
      (hx : Finds h tools p x (some binary)) (hs : x.succeeded = true)
      (hy : y.command = testCommand p binary) (hf : StageFault tools p y f) :
      Built [.exchange x, .exchange y] (.error f)
  | passed {x y : Exchange} {binary : Path}
      (hx : Finds h tools p x (some binary)) (hs : x.succeeded = true)
      (hy : y.command = testCommand p binary) (hys : y.succeeded = true) :
      Built [.exchange x, .exchange y] (.ok binary)

/-- The deeds of all stages, and their outcome. -/
inductive Staged : Bool → List Deed → Except Fault Path → Prop
  | untargeted {x : Exchange} {f : Fault} (hx : x.command = setTargetCommand tools p)
      (hf : StageFault tools p x f) :
      Staged true [.change (.removeDir p.buildDir), .exchange x] (.error f)
  | cleaned {x : Exchange} {ds : List Deed} {o : Except Fault Path}
      (hx : x.command = setTargetCommand tools p) (hs : x.succeeded = true)
      (hb : Built h tools p ds o) :
      Staged true (.change (.removeDir p.buildDir) :: .exchange x ::
        .change (.dropCounters p.root) :: ds) o
  | kept {ds : List Deed} {o : Except Fault Path} (hb : Built h tools p ds o) :
      Staged false (.change (.dropCounters p.root) :: ds) o

end

/-! ## What the stages do -/

/-- The warning about a build directory that could not be removed with all that is in it. -/
def leftover (h : Host) (p : Project) (t : Tree) : List Event :=
  match (t.removeDirsIfThere h.workingDir p.buildDir).2 with
  | none => []
  | some e => [.printed .err (Notice.warning.line h.style
      ("Could not fully remove " ++ p.buildDir.text ++ ": " ++ e.message))]

/-- The build directory is removed before anything else is done, and right after that comes the
warning about it, if there is one. -/
def RemovesBuild (h : Host) (p : Project) (m : Machine) (es : List Event) : Prop :=
  ∃ front back, es = front ++ .changed (.removeDir p.buildDir) :: (leftover h p m.tree ++ back) ∧
    m.deedsIn h front = []

namespace RemovesBuild

variable {h : Host} {p : Project} {m : Machine} {es fs : List Event}

theorem append (hes : RemovesBuild h p m es) : RemovesBuild h p m (es ++ fs) := by
  obtain ⟨front, back, rfl, hfront⟩ := hes
  exact ⟨front, back ++ fs, by simp only [List.append_assoc, List.cons_append], hfront⟩

/-- What is shown before does not matter. -/
theorem after (hes : m.deedsIn h es = []) (hfs : RemovesBuild h p (m.after h es) fs) :
    RemovesBuild h p m (es ++ fs) := by
  obtain ⟨front, back, rfl, hfront⟩ := hfs
  have htree : (m.after h es).tree = m.tree := by rw [tree_after, hes, Deed.allOn_nil]
  refine ⟨es ++ front, back, ?_, ?_⟩
  · rw [htree, List.append_assoc]
  · rw [deedsIn_append, hes, hfront, List.append_nil]

end RemovesBuild

section

variable (h : Host) (tools : ToolSettings) (p : Project) (m : Machine)

end

/-! ## What a run comes to -/

/-- The fault after which a run did no more: that of its last stage, or that the build, with all its
success, left no binary. -/
def StopsWith (h : Host) (tools : ToolSettings) (p : Project) (ds : List Deed) (f : Fault) : Prop :=
  ∃ front x, ds = front ++ [.exchange x] ∧
    (StageFault tools p x f ∨
      f = .executableNotFound p.name p.buildDir ∧ x.succeeded = true ∧
        Finds h tools p x none)

section

variable {h : Host} {tools : ToolSettings} {p : Project} {clean : Bool} {ds : List Deed}
  {o : Except Fault Path} {x : Exchange} {f : Fault}

/-- The commands of different stages differ in how many arguments they have. -/
theorem argumentCount_ne {c d : Command} (hcd : c.args.length ≠ d.args.length) : c ≠ d :=
  fun heq => hcd (congrArg (fun c => c.args.length) heq)

theorem setTargetCommand_ne_buildCommand : setTargetCommand tools p ≠ buildCommand tools p :=
  argumentCount_ne (c := setTargetCommand tools p) (d := buildCommand tools p)
    (show 3 ≠ 1 by decide)

theorem testCommand_ne_buildCommand {binary : Path} : testCommand p binary ≠ buildCommand tools p :=
  argumentCount_ne (c := testCommand p binary) (d := buildCommand tools p) (show 0 ≠ 1 by decide)

theorem testCommand_ne_setTargetCommand {binary : Path} :
    testCommand p binary ≠ setTargetCommand tools p :=
  argumentCount_ne (c := testCommand p binary) (d := setTargetCommand tools p)
    (show 0 ≠ 3 by decide)

theorem testCommand_injective : Function.Injective (testCommand p) := fun _ _ heq =>
  congrArg Path.mk (congrArg Command.program heq)

theorem IsStage.unique {c : Command} {launchFault launchFault' : LaunchError → Fault}
    {exitFault exitFault' : CommandResult → Fault} (hs : IsStage tools p c launchFault exitFault)
    (hs' : IsStage tools p c launchFault' exitFault') :
    launchFault = launchFault' ∧ exitFault = exitFault' := by
  cases hs with
  | set_target hc =>
    cases hs' with
    | set_target _ => exact ⟨rfl, rfl⟩
    | build hc' => exact absurd (hc.symm.trans hc') setTargetCommand_ne_buildCommand
    | test b hc' => exact absurd (hc'.symm.trans hc) testCommand_ne_setTargetCommand
  | build hc =>
    cases hs' with
    | set_target hc' => exact absurd (hc'.symm.trans hc) setTargetCommand_ne_buildCommand
    | build _ => exact ⟨rfl, rfl⟩
    | test b hc' => exact absurd (hc'.symm.trans hc) testCommand_ne_buildCommand
  | test b hc =>
    cases hs' with
    | set_target hc' => exact absurd (hc.symm.trans hc') testCommand_ne_setTargetCommand
    | build hc' => exact absurd (hc.symm.trans hc') testCommand_ne_buildCommand
    | test b' hc' => exact testCommand_injective (hc.symm.trans hc') ▸ ⟨rfl, rfl⟩

namespace StageFault

theorem not_succeeded (hf : StageFault tools p x f) : x.succeeded = false := by
  unfold Exchange.succeeded
  cases hf with
  | unlaunched _ ho => rw [ho]
  | unsuccessful _ ho hr => rw [ho]; exact hr

/-- The exchange fixes the fault. -/
theorem unique {g : Fault} (hf : StageFault tools p x f) (hg : StageFault tools p x g) : f = g := by
  cases hf with
  | @unlaunched launchFault exitFault e hs ho =>
    cases hg with
    | unlaunched hs' ho' =>
      obtain ⟨rfl, rfl⟩ := hs.unique hs'
      exact congrArg launchFault (Except.error.inj (ho.symm.trans ho'))
    | unsuccessful hs' ho' _ => cases ho.symm.trans ho'
  | @unsuccessful launchFault exitFault r hs ho _ =>
    cases hg with
    | unlaunched hs' ho' => cases ho.symm.trans ho'
    | unsuccessful hs' ho' _ =>
      obtain ⟨rfl, rfl⟩ := hs.unique hs'
      exact congrArg exitFault (Except.ok.inj (ho.symm.trans ho'))

end StageFault

/-- A build and then the binary that it led to. -/
theorem Finds.planned {y : Exchange} {binary : Path} (hx : Finds h tools p x (some binary))
    (hy : y.command = testCommand p binary) :
    [Deed.exchange x, .exchange y].map Deed.event <+: .ran (buildCommand tools p) ::
        ((some binary).map fun b => .ran (testCommand p b)).toList ∧
      ∀ z, .exchange z ∈ [Deed.exchange x, .exchange y] → z.command = buildCommand tools p →
        Finds h tools p z (some binary) := by
  refine ⟨by simp [Deed.event, hx.1, hy], fun z hz hcommand => ?_⟩
  obtain rfl | rfl : z = x ∨ z = y := by simpa using hz
  · exact hx
  · exact absurd (hy.symm.trans hcommand) testCommand_ne_buildCommand

/-- A build comes first, and then at most the binary that it led to. -/
theorem Built.planned (hb : Built h tools p ds o) :
    ∃ binary, ds.map Deed.event <+: .ran (buildCommand tools p) ::
        (binary.map fun b => .ran (testCommand p b)).toList ∧
      ∀ x, .exchange x ∈ ds → x.command = buildCommand tools p →
        Finds h tools p x binary := by
  cases hb with
  | @unbuilt x f hx hf =>
    refine ⟨Project.findBinary x.reply.tree h.workingDir p.buildDir, by simp [Deed.event, hx], ?_⟩
    intro y hy hcommand
    obtain rfl : y = x := by simpa using hy
    exact ⟨hx, rfl⟩
  | @unfound x hx hs =>
    refine ⟨none, by simp [Deed.event, hx.1], fun y hy hcommand => ?_⟩
    obtain rfl : y = x := by simpa using hy
    exact hx
  | failed hx hs hy hf => exact ⟨_, hx.planned hy⟩
  | passed hx hs hy hys => exact ⟨_, hx.planned hy⟩

theorem Built.whole {binary : Path} (hb : Built h tools p ds (.ok binary)) :
    ds.map Deed.event = [.ran (buildCommand tools p), .ran (testCommand p binary)] := by
  cases hb with
  | passed hx hs hy hys => simp [Deed.event, hx.1, hy]

theorem Built.ends (hb : Built h tools p ds o) :
    ∃ front x, ds = front ++ [.exchange x] ∧ ∀ y, .exchange y ∈ front → y.succeeded = true := by
  cases hb with
  | unbuilt hx hf => exact ⟨[], _, rfl, by simp⟩
  | unfound hx hs => exact ⟨[], _, rfl, by simp⟩
  | failed hx hs hy hf => exact ⟨[_], _, rfl, by simpa using hs⟩
  | passed hx hs hy hys => exact ⟨[_], _, rfl, by simpa using hs⟩

/-- Deeds that end with a stop do so with one fault only. -/
theorem StopsWith.unique {g : Fault} (hf : StopsWith h tools p ds f)
    (hg : StopsWith h tools p ds g) : f = g := by
  obtain ⟨front, x, rfl, hx⟩ := hf
  obtain ⟨front', y, heq, hy⟩ := hg
  obtain rfl := Deed.exchange.inj (List.cons.inj (List.append_inj' heq rfl).2).1
  obtain hx | ⟨rfl, hs, -⟩ := hx
  · obtain hy | ⟨-, hs, -⟩ := hy
    · exact hx.unique hy
    · rw [hx.not_succeeded] at hs; cases hs
  · obtain hy | ⟨rfl, -, -⟩ := hy
    · rw [hy.not_succeeded] at hs; cases hs
    · rfl

namespace Staged

theorem planned (hs : Staged h tools p clean ds o) :
    ∃ binary, ds.map Deed.event <+: plan tools p clean binary ∧
      ∀ x, .exchange x ∈ ds → x.command = buildCommand tools p →
        Finds h tools p x binary := by
  cases hs with
  | @untargeted x f hx hf =>
    refine ⟨none, by simp [plan, Deed.event, hx], fun y hy hcommand => ?_⟩
    obtain rfl : y = x := by simpa using hy
    exact absurd (hx.symm.trans hcommand) setTargetCommand_ne_buildCommand
  | @cleaned x ds o hx hs hb =>
    obtain ⟨binary, hplan, hfinds⟩ := hb.planned
    refine ⟨binary, by simpa [plan, Deed.event, hx] using hplan, fun y hy hcommand => ?_⟩
    obtain rfl | hy : y = x ∨ .exchange y ∈ ds := by simpa using hy
    · exact absurd (hx.symm.trans hcommand) setTargetCommand_ne_buildCommand
    · exact hfinds y hy hcommand
  | kept hb =>
    obtain ⟨binary, hplan, hfinds⟩ := hb.planned
    refine ⟨binary, by simpa [plan, Deed.event] using hplan, fun y hy hcommand => ?_⟩
    exact hfinds y (by simpa using hy) hcommand

theorem ends (hs : Staged h tools p clean ds o) :
    ∃ front x, ds = front ++ [.exchange x] ∧ ∀ y, .exchange y ∈ front → y.succeeded = true := by
  cases hs with
  | untargeted hx hf => exact ⟨[_], _, rfl, by simp⟩
  | cleaned hx hs hb =>
    obtain ⟨front, x, rfl, hfront⟩ := hb.ends
    exact ⟨_ :: _ :: _ :: front, x, rfl, by simpa [hs] using hfront⟩
  | kept hb =>
    obtain ⟨front, x, rfl, hfront⟩ := hb.ends
    exact ⟨_ :: front, x, rfl, by simpa using hfront⟩

theorem whole {binary : Path} (hs : Staged h tools p clean ds (.ok binary)) :
    ds.map Deed.event = plan tools p clean (some binary) := by
  cases hs with
  | cleaned hx hs hb => simp [plan, Deed.event, hx, hb.whole]
  | kept hb => simp [plan, Deed.event, hb.whole]

end Staged

end

end HostSuite.Suite
