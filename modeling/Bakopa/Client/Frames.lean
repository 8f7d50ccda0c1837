import Mathlib.Algebra.Group.Nat.Defs
import Bakopa.Client.Bridge

/-!
# Bakopa.Client.Frames

`SuteraClientBridge` of `client/godot-adapter/src/godot.rs`, with the input port of `ports.rs` and
the projector of `render.rs`, and the frame ids it deals in.

A frame is numbered twice: by the adapter's `FrameClock` when the input is taken, and by the ECS
world when it is ticked. The clock counts every `on_frame` and is never reset; the world counts the
frames since `on_start`. `frames_agree_iff` says when the two numbers are the same.
-/

namespace Bakopa
namespace Client

open Lib

/-! ## The input port -/

structure GodotInputPort (ε : Type) where
  events : List ε

namespace GodotInputPort

variable {ε : Type}

def fromEvents (events : List ε) : GodotInputPort ε := ⟨events⟩

/-- Placeholder events by the number of slots, as in the source. -/
def mapEventSlotsToInputEvents (eventCount : Nat) : List InputEvent :=
  (List.range eventCount).map fun index =>
    match index % 3 with
    | 0 => .move 0.0 0.0
    | 1 => .look 0.0 0.0
    | _ => .action "godot_input" true

def snapshot (port : GodotInputPort ε) (frameClock : FrameClock) :
    GodotInputPort ε × FrameClock × InputSnapshot :=
  let inputs := mapEventSlotsToInputEvents port.events.length
  let (frameClock, frame) := frameClock.nextFrame
  (⟨[]⟩, frameClock, ⟨frame, inputs⟩)

end GodotInputPort

instance {ε : Type} : InputPort (GodotInputPort ε) where
  snapshot := GodotInputPort.snapshot

/-! ## The projector -/

inductive ProjectionError where
  | invalidTargetNode
deriving DecidableEq, Repr

def ProjectionError.toString : ProjectionError → String
  | .invalidTargetNode => "target node is invalid"

/-- The pose whose transform the target node is given. -/
def RenderStateProjector.project (frame : RenderFrame) (valid : Bool) :
    Except ProjectionError Pose :=
  if !valid then .error .invalidTargetNode else .ok frame.primaryPose

/-! ## The node -/

def maxPendingInputEvents : Nat := 1024

/-- Whether `target_node` is valid is an argument of the frames: the scene frees and sets it. -/
structure SuteraClientBridge (ε : Type) where
  pipeline : BridgePipeline (RuntimeBridgeAdapter CoreEcs) RenderFrameBuffer
  frameClock : FrameClock
  lastError : Option BridgeError
  pendingInputEvents : List ε

inductive GodotCall (ε : Type) where
  | onStart
  | onShutdown
  | onFrame (valid : Bool)
  | pushInputEvent (event : ε)
  | requestStateOverride (reason : String)

inductive GodotOutput where
  | returned (ok : Bool)
  | setTransform (pose : Pose)

namespace SuteraClientBridge

variable {ε : Type}

def init (demo : Bool) : SuteraClientBridge ε where
  pipeline := .new (.new (.new demo)) {}
  frameClock := {}
  lastError := none
  pendingInputEvents := []

/-- The `bool` of a call, its error recorded. -/
def reply (s : SuteraClientBridge ε) : Except BridgeError Unit → SuteraClientBridge ε × Bool
  | .ok () => (s, true)
  | .error err => ({ s with lastError := some err }, false)

def pushInputEvent (s : SuteraClientBridge ε) (event : ε) : SuteraClientBridge ε :=
  let pending :=
    if s.pendingInputEvents.length ≥ maxPendingInputEvents then s.pendingInputEvents.tail
    else s.pendingInputEvents
  { s with pendingInputEvents := pending ++ [event] }

def requestStateOverride (s : SuteraClientBridge ε) (reason : String) :
    SuteraClientBridge ε × Bool :=
  let (pipeline, result) := s.pipeline.requestStateOverride ⟨reason⟩
  { s with pipeline }.reply result

/-- The poses given to the target node, and the result. -/
def projectLatestFrame (s : SuteraClientBridge ε) (valid : Bool) :
    List Pose × Except BridgeError Unit :=
  match s.pipeline.lastFrame with
  | none => ([], .ok ())
  | some frame =>
    match RenderStateProjector.project frame valid with
    | .ok pose => ([pose], .ok ())
    | .error error => ([], .error (.projectionFailed error.toString))

variable [BevyEcs]

def onStart (s : SuteraClientBridge ε) : SuteraClientBridge ε × Bool :=
  let (pipeline, result) := s.pipeline.onStart
  { s with pipeline }.reply result

def onShutdown (s : SuteraClientBridge ε) : SuteraClientBridge ε × Bool :=
  let (pipeline, result) := s.pipeline.onShutdown
  { s with pipeline }.reply result

def onFrame (s : SuteraClientBridge ε) (valid : Bool) :
    SuteraClientBridge ε × List Pose × Bool :=
  let inputPort := GodotInputPort.fromEvents s.pendingInputEvents
  let (pipeline, frameClock, _, result) := s.pipeline.onPortInput s.frameClock inputPort
  let s := { s with pipeline, frameClock, pendingInputEvents := [] }
  match result with
  | .ok () =>
    let (poses, result) := s.projectLatestFrame valid
    let (s, ok) := s.reply result
    (s, poses, ok)
  | .error err =>
    let (s, ok) := s.reply (.error err)
    (s, [], ok)

def step : Machine (SuteraClientBridge ε) (GodotCall ε) GodotOutput
  | s, .onStart =>
    let (s, ok) := s.onStart
    some (s, [.returned ok])
  | s, .onShutdown =>
    let (s, ok) := s.onShutdown
    some (s, [.returned ok])
  | s, .onFrame valid =>
    let (s, poses, ok) := s.onFrame valid
    some (s, poses.map .setTransform ++ [.returned ok])
  | s, .pushInputEvent event => some (s.pushInputEvent event, [])
  | s, .requestStateOverride reason =>
    let (s, ok) := s.requestStateOverride reason
    some (s, [.returned ok])

def started (s : SuteraClientBridge ε) : Bool := s.pipeline.bridge.started

def core (s : SuteraClientBridge ε) : CoreEcs := s.pipeline.bridge.core

def worldFrame (s : SuteraClientBridge ε) : FrameId := s.core.world.gameState.frame

/-- The snapshot that an `on_frame` consumes. -/
def consumed (s : SuteraClientBridge ε) : InputSnapshot :=
  (InputPort.snapshot (GodotInputPort.fromEvents s.pendingInputEvents) s.frameClock).2.2

/-- If the call is an `on_frame` that succeeds, it stores a frame numbered as its input. -/
def FramesAgree (s : SuteraClientBridge ε) : GodotCall ε → Prop
  | .onFrame valid => (s.onFrame valid).2.2 = true →
      ∃ frame, (s.onFrame valid).1.pipeline.lastFrame = some frame ∧
        frame.frame = s.consumed.frame
  | .onStart | .onShutdown | .pushInputEvent _ | .requestStateOverride _ => True

variable {s s' : SuteraClientBridge ε} {a : GodotCall ε} {o : List GodotOutput} {demo valid : Bool}
  {c : CoreEcs} {frame : RenderFrame}

omit [BevyEcs] in
theorem consumed_frame : s.consumed.frame.val = s.frameClock.current.val + 1 := rfl

theorem onFrame_of_stopped (hs : s.started = false) : s.onFrame valid =
    ({ s with frameClock := s.frameClock.nextFrame.1, pendingInputEvents := [],
              lastError := some .notStarted }, [], false) := by
  have hstarted : s.pipeline.bridge.started = false := hs
  simp [onFrame, BridgePipeline.onPortInput, BridgePipeline.onFrame, InputPort.snapshot,
    GodotInputPort.snapshot, RuntimeBridge.onFrame, RuntimeBridgeAdapter.onFrame, hstarted, reply]

theorem onFrame_of_started (valid : Bool) (hs : s.started = true)
    (ht : s.core.tick s.consumed = (c, .ok frame)) :
    (s.onFrame valid).1.pipeline = ⟨⟨c, true⟩, ⟨some frame⟩⟩ ∧
      (s.onFrame valid).1.frameClock = s.frameClock.nextFrame.1 ∧
      (s.onFrame valid).2.2 = valid := by
  have hstarted : s.pipeline.bridge.started = true := hs
  have htick : EcsCore.tick s.pipeline.bridge.core s.consumed = (c, .ok frame) := ht
  have hbridge : RuntimeBridge.onFrame s.pipeline.bridge s.consumed =
      (⟨c, true⟩, .ok frame) := by
    simp [RuntimeBridge.onFrame, RuntimeBridgeAdapter.onFrame, hstarted, htick, Except.mapError]
  have hsnap : InputPort.snapshot (GodotInputPort.fromEvents s.pendingInputEvents) s.frameClock =
      (⟨[]⟩, s.frameClock.nextFrame.1, s.consumed) := rfl
  have hport : s.pipeline.onPortInput s.frameClock
      (GodotInputPort.fromEvents s.pendingInputEvents) =
      (⟨⟨c, true⟩, ⟨some frame⟩⟩, s.frameClock.nextFrame.1, ⟨[]⟩, .ok ()) := by
    simp only [BridgePipeline.onPortInput, BridgePipeline.onFrame, hsnap, hbridge]
    rfl
  cases valid <;> simp [onFrame, hport, projectLatestFrame, BridgePipeline.lastFrame,
    RenderStateProjector.project, reply]

theorem step_total (s : SuteraClientBridge ε) (a : GodotCall ε) :
    ∃ s' o, step s a = some (s', o) := by
  cases a <;> exact ⟨_, _, rfl⟩

/-- The `on_frame` calls so far, and how many of them came before the last `on_start` if no
`on_shutdown` has followed it. -/
structure Tally where
  frames : Nat := 0
  startedAt : Option Nat := none

def Tally.next (t : Tally) : GodotCall ε → Tally
  | .onStart => { t with startedAt := some t.frames }
  | .onShutdown => { t with startedAt := none }
  | .onFrame _ => { t with frames := t.frames + 1 }
  | .pushInputEvent _ | .requestStateOverride _ => t

def tally (as : List (GodotCall ε)) : Tally := as.foldl Tally.next {}

/-- What the calls so far say of the two counters. -/
structure Counted (demo : Bool) (t : Tally) (s : SuteraClientBridge ε) : Prop where
  schedule : s.core.schedule = (CoreEcs.new demo).schedule
  clock : s.frameClock.current.val = UInt64.ofNat t.frames
  started : s.started = t.startedAt.isSome
  world : ∀ n, t.startedAt = some n → n ≤ t.frames ∧
    s.worldFrame.val = UInt64.ofNat (t.frames - n)

omit [BevyEcs] in
theorem init_counted : Counted demo {} (init demo : SuteraClientBridge ε) :=
  ⟨rfl, rfl, rfl, fun _ h => nomatch h⟩

variable [LawfulSchedule] {t : Tally}

theorem tick_frame (hs : s.core.schedule = (CoreEcs.new demo).schedule) :
    ∃ c frame, s.core.tick s.consumed = (c, .ok frame) ∧ c.schedule = s.core.schedule ∧
      c.world.gameState.frame = frame.frame ∧ frame.frame.val = s.worldFrame.val + 1 := by
  refine ⟨_, _, rfl, rfl, rfl, ?_⟩
  have hrun := frame_run_schedule demo { s.core.world with inputSnapshot := some s.consumed }
  rw [← hs] at hrun
  exact hrun

omit [BevyEcs] [LawfulSchedule] in
/-- Two counts agree as `u64` when their difference is a multiple of `2 ^ 64`. -/
theorem ofNat_sub_iff {n m : Nat} (h : n ≤ m) :
    UInt64.ofNat (m - n) = UInt64.ofNat m ↔ 2 ^ 64 ∣ n := by
  rw [UInt64.ofNat_eq_iff_mod_eq_toNat, UInt64.toNat_ofNat']
  omega

omit [BevyEcs] [LawfulSchedule] in
theorem Counted.clock_next (hc : Counted demo t s) :
    s.frameClock.nextFrame.1.current.val = UInt64.ofNat (t.frames + 1) := by
  rw [UInt64.ofNat_add, ← hc.clock]
  rfl

theorem Counted.step (hc : Counted demo t s) (h : step s a = some (s', o)) :
    Counted demo (t.next a) s' := by
  cases a with
  | onStart =>
    cases h
    refine ⟨hc.schedule, hc.clock, rfl, fun n hn => ?_⟩
    cases hn
    refine ⟨Nat.le_refl _, ?_⟩
    rw [Tally.next, Nat.sub_self]
    rfl
  | onShutdown =>
    cases h
    exact ⟨hc.schedule, hc.clock, rfl, fun n hn => nomatch hn⟩
  | onFrame valid =>
    have hs' : s' = (s.onFrame valid).1 := by cases h; rfl
    cases hstarted : s.started with
    | false =>
      rw [onFrame_of_stopped hstarted] at hs'
      subst hs'
      refine ⟨hc.schedule, hc.clock_next, hc.started, fun n hn => ?_⟩
      have hnone : t.startedAt = none := by simpa using hc.started.symm.trans hstarted
      cases hnone.symm.trans hn
    | true =>
      obtain ⟨c, frame, htick, hschedule, hframe, hnext⟩ := tick_frame hc.schedule
      obtain ⟨hpipeline, hclock, -⟩ := onFrame_of_started valid hstarted htick
      rw [← hs'] at hpipeline hclock
      have hcore : s'.core = c := congrArg (fun p => p.bridge.core) hpipeline
      have hrunning : s'.started = true := congrArg (fun p => p.bridge.started) hpipeline
      refine ⟨?_, ?_, ?_, fun n hn => ?_⟩
      · rw [hcore, hschedule, hc.schedule]
      · rw [hclock]; exact hc.clock_next
      · rw [hrunning, ← hstarted, hc.started]; rfl
      · obtain ⟨hle, hworld⟩ := hc.world n hn
        refine ⟨Nat.le_succ_of_le hle, ?_⟩
        rw [worldFrame, hcore, hframe, hnext, hworld]
        have hsub : t.frames + 1 - n = t.frames - n + 1 := by omega
        rw [Tally.next, hsub, UInt64.ofNat_add]
        rfl
  | pushInputEvent event => cases h; exact ⟨hc.schedule, hc.clock, hc.started, hc.world⟩
  | requestStateOverride reason =>
    cases h; exact ⟨hc.schedule, hc.clock, hc.started, hc.world⟩

/-- The frame of an `on_frame` has the number of its input exactly when the frames before the last
`on_start` are a multiple of `2 ^ 64`, as far as the call succeeds. -/
theorem framesAgree_iff (hc : Counted demo t s) : FramesAgree s a ↔
    (a = .onFrame true → ∀ n, t.startedAt = some n → 2 ^ 64 ∣ n) := by
  cases a with
  | onFrame valid =>
    cases hstarted : s.started with
    | false =>
      have hnone : t.startedAt = none := by simpa using hc.started.symm.trans hstarted
      have hfails : FramesAgree s (.onFrame valid) := by
        intro hok
        rw [onFrame_of_stopped hstarted] at hok
        cases hok
      refine iff_of_true hfails fun _ n hn => ?_
      cases hnone.symm.trans hn
    | true =>
      obtain ⟨n, hn⟩ := Option.isSome_iff_exists.mp (hc.started.symm.trans hstarted)
      obtain ⟨hle, hworld⟩ := hc.world n hn
      obtain ⟨c, frame, htick, -, -, hnext⟩ := tick_frame hc.schedule
      obtain ⟨hpipeline, -, hok⟩ := onFrame_of_started valid hstarted htick
      have hnumbers : frame.frame = s.consumed.frame ↔ 2 ^ 64 ∣ n := by
        rw [FrameId.ext_iff, hnext, consumed_frame, UInt64.add_left_inj, hworld, hc.clock,
          ofNat_sub_iff hle]
      cases valid with
      | false =>
        refine iff_of_true (fun h => ?_) (fun h => nomatch h)
        cases hok.symm.trans h
      | true =>
        have hlast : (s.onFrame true).1.pipeline.lastFrame = some frame := by rw [hpipeline]; rfl
        constructor
        · rintro h - m hm
          obtain ⟨frame', hframe', heq⟩ := h hok
          rw [hlast] at hframe'
          cases hframe'
          cases hn.symm.trans hm
          exact hnumbers.mp heq
        · intro h _
          exact ⟨frame, hlast, hnumbers.mpr (h rfl n hn)⟩
  | onStart => exact iff_of_true trivial fun h => nomatch h
  | onShutdown => exact iff_of_true trivial fun h => nomatch h
  | pushInputEvent event => exact iff_of_true trivial fun h => nomatch h
  | requestStateOverride reason => exact iff_of_true trivial fun h => nomatch h

/-- In every run from a new node, each `on_frame` that succeeds stores a frame numbered as its
input, exactly when each one that finds the node started and its target valid finds the number of
frames before the last `on_start` to be a multiple of `2 ^ 64`. -/
theorem frames_agree_iff (demo : Bool) (as : List (GodotCall ε)) :
    Machine.Each step FramesAgree (init demo) as ↔
      Throughout (fun pre a => a = .onFrame true →
        ∀ n, (tally pre).startedAt = some n → 2 ^ 64 ∣ n) as := by
  have hinit : Counted demo (tally ([] : List (GodotCall ε))) (init demo : SuteraClientBridge ε) :=
    init_counted
  refine Machine.each_iff_throughout (J := fun pre s => Counted demo (tally pre) s)
    (R := fun pre a => a = .onFrame true → ∀ n, (tally pre).startedAt = some n → 2 ^ 64 ∣ n)
    step_total ?_ (fun _ _ _ hc => framesAgree_iff hc) hinit
  intro pre s a s' o hc h
  rw [tally, List.foldl_append]
  exact hc.step h

end SuteraClientBridge

/-- A schedule that runs its systems in the order they were added. -/
@[reducible] def inOrder : BevyEcs where
  run systems world := systems.foldl (fun w system => system.run w) world

theorem inOrder_lawful : @LawfulSchedule inOrder :=
  let _ := inOrder
  ⟨fun systems _ => ⟨systems, .refl _, rfl⟩⟩

/-- A session that is started before its first frame. -/
theorem frames_agree_iff_first_session :
    let _ := inOrder
    Machine.Each SuteraClientBridge.step SuteraClientBridge.FramesAgree
      (.init false : SuteraClientBridge Unit) [.onStart, .onFrame true] := by
  intro _
  let _ := inOrder_lawful
  refine (SuteraClientBridge.frames_agree_iff false [.onStart, .onFrame true]).mpr ?_
  rw [Throughout.cons_iff, Throughout.singleton_iff]
  constructor
  · intro h
    cases h
  · intro _ n hn
    cases hn
    exact Nat.dvd_zero _

/-- A session of one frame, and a second one up to its first frame. -/
def restart : List (GodotCall Unit) := [.onStart, .onFrame true, .onShutdown, .onStart]

/-- The first frame after a restart stores frame 1 for input 2. -/
theorem restart_disagrees :
    let _ := inOrder
    ∃ s os, Machine.Runs SuteraClientBridge.step (.init false) restart os s ∧
      (s.onFrame true).2.2 = true ∧ s.consumed.frame = ⟨2⟩ ∧
      ((s.onFrame true).1.pipeline.lastFrame.map fun frame => frame.frame) = some ⟨1⟩ ∧
      ¬ s.FramesAgree (.onFrame true) := by
  intro _
  have hrun : ∃ s os, Machine.Runs SuteraClientBridge.step (.init false) restart os s ∧
      (s.onFrame true).2.2 = true ∧ s.consumed.frame = ⟨2⟩ ∧
      ((s.onFrame true).1.pipeline.lastFrame.map fun frame => frame.frame) = some ⟨1⟩ :=
    ⟨_, _, Machine.run_sound rfl, rfl, rfl, rfl⟩
  obtain ⟨s, os, hr, hok, hinput, hstored⟩ := hrun
  refine ⟨s, os, hr, hok, hinput, hstored, fun hagree => ?_⟩
  obtain ⟨frame, hlast, heq⟩ := hagree hok
  rw [hlast, Option.map_some, heq, hinput] at hstored
  cases hstored

end Client
end Bakopa
