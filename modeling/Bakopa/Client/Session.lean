import Mathlib.Data.List.DropRight
import Mathlib.Data.List.Permutation
import Bakopa.Client.Frames

/-!
# Bakopa.Client.Session

What a scene sees of a `SuteraClientBridge`, as a function of its calls.

A `Session` is kept from the calls alone: the counts of `Tally`, the events pushed since the last
`on_frame`, and the error of the last call that failed. `Session.Answers` is what a call puts out
after the calls before it; only the pose of a shown frame is left open, and only by the order in
which the schedule runs `advance_frame` and `demo_motion`. `session_explained` says that a node in
every run puts out and stores what its session says.
-/

namespace Bakopa
namespace Client

open Lib

def BridgeError.toString : BridgeError → String
  | .initializationFailed reason => "bridge initialization failed: " ++ reason
  | .shutdownFailed reason => "bridge shutdown failed: " ++ reason
  | .notStarted => "bridge is not started"
  | .directStateMutationDenied => "direct state mutation is not allowed"
  | .projectionFailed reason => "render projection failed: " ++ reason
  | .coreInit _ => "core initialization failed"
  | .core _ => "core update failed"

def errorText (error : Option BridgeError) : String := (error.map BridgeError.toString).getD ""

theorem length_rtake {α : Type} (n : Nat) (l : List α) : (l.rtake n).length = min n l.length := by
  rw [List.rtake_eq_reverse_take_reverse, List.length_reverse, List.length_take,
    List.length_reverse]

theorem rtake_push {α : Type} {n : Nat} (hn : 0 < n) (l : List α) (x : α) :
    (if (l.rtake n).length ≥ n then (l.rtake n).tail else l.rtake n) ++ [x] =
      (l ++ [x]).rtake n := by
  obtain ⟨m, rfl⟩ := Nat.exists_eq_succ_of_ne_zero (Nat.ne_of_gt hn)
  rw [List.rtake_concat_succ, length_rtake]
  split
  · rename_i hfull
    rw [List.rtake, List.rtake, List.tail_drop]
    congr 2
    omega
  · rename_i hroom
    rw [List.rtake, List.rtake]
    congr 2
    omega

/-- The pose `demo_motion` gives frame `frame`. -/
def motion (frame : FrameId) : Pose := (demoMotion ⟨frame, .identity⟩).primaryPose

/-- The poses frame `frame` may have: `demo_motion` runs after or before `advance_frame`. -/
def MayShow (demo : Bool) (frame : FrameId) (pose : Pose) : Prop :=
  match demo with
  | false => pose = .identity
  | true => pose = motion frame ∨ pose = motion ⟨frame.val - 1⟩

/-- A pose that has at most been moved by `demo_motion`. -/
def Posed (demo : Bool) (pose : Pose) : Prop :=
  (∃ x, pose = ⟨⟨x, 0.0, 0.0⟩, .identity⟩) ∧ (demo = false → pose = .identity)

theorem posed_identity (demo : Bool) : Posed demo .identity := ⟨⟨0.0, rfl⟩, fun _ => rfl⟩

theorem demoMotion_posed {demo : Bool} {state : GameState} (h : Posed demo state.primaryPose) :
    (demoMotion state).primaryPose = motion state.frame := by
  obtain ⟨⟨x, hx⟩, -⟩ := h
  simp only [demoMotion, motion, hx]
  rfl

theorem posed_motion (frame : FrameId) : Posed true (motion frame) :=
  ⟨⟨_, rfl⟩, fun h => by cases h⟩

theorem MayShow.posed {demo : Bool} {frame : FrameId} {pose : Pose} (h : MayShow demo frame pose) :
    Posed demo pose := by
  cases demo with
  | false =>
    rw [show pose = .identity from h]
    exact posed_identity false
  | true =>
    rcases h with rfl | rfl
    · exact posed_motion _
    · exact posed_motion _

theorem run_mayShow [BevyEcs] [LawfulSchedule] (demo : Bool) (world : World)
    (h : Posed demo world.gameState.primaryPose) :
    MayShow demo (BevyEcs.run (CoreEcs.new demo).schedule world).gameState.frame
      (BevyEcs.run (CoreEcs.new demo).schedule world).gameState.primaryPose := by
  obtain ⟨order, hperm, hrun⟩ := LawfulSchedule.run_eq (CoreEcs.new demo).schedule world
  rw [hrun]
  cases demo with
  | false =>
    rw [show (CoreEcs.new false).schedule = [.advanceFrame] from rfl, List.perm_singleton] at hperm
    rw [hperm]
    exact h.2 rfl
  | true =>
    rw [show (CoreEcs.new true).schedule = [.advanceFrame, .demoMotion] from rfl,
      List.perm_pair] at hperm
    rcases hperm with rfl | rfl
    · have hposed : Posed true (advanceFrame world.gameState).primaryPose := h
      exact .inl (demoMotion_posed hposed)
    · have hframe : world.gameState.frame.val + 1 - 1 = world.gameState.frame.val := by
        rw [UInt64.add_sub_cancel]
      refine .inr ((demoMotion_posed h).trans ?_)
      exact congrArg (fun n => motion ⟨n⟩) hframe.symm

/-! ## The session -/

namespace SuteraClientBridge

structure Session (ε : Type) where
  tally : Tally := {}
  /-- The events pushed since the last `on_frame`, with those that were dropped. -/
  pushed : List ε := []
  lastError : Option BridgeError := none

namespace Session

variable {ε : Type}

def failure (t : Session ε) : GodotCall ε → Option BridgeError
  | .onFrame valid =>
    if t.tally.startedAt = none then some .notStarted
    else if valid then none
    else some (.projectionFailed ProjectionError.invalidTargetNode.toString)
  | .requestStateOverride _ => some .directStateMutationDenied
  | .onStart | .onShutdown | .pushInputEvent _ => none

def pushedNext (pushed : List ε) : GodotCall ε → List ε
  | .onFrame _ => []
  | .pushInputEvent event => pushed ++ [event]
  | .onStart | .onShutdown | .requestStateOverride _ => pushed

def next (t : Session ε) (a : GodotCall ε) : Session ε where
  tally := t.tally.next a
  pushed := pushedNext t.pushed a
  lastError := (t.failure a).or t.lastError

def of (as : List (GodotCall ε)) : Session ε := as.foldl next {}

/-- What an `on_frame` hands to the bridge: as many inputs as there are events left. -/
def input (t : Session ε) : InputSnapshot where
  frame := ⟨UInt64.ofNat (t.tally.frames + 1)⟩
  inputs := GodotInputPort.mapEventSlotsToInputEvents (min maxPendingInputEvents t.pushed.length)

/-- What a call puts out. -/
inductive Answers (demo : Bool) (t : Session ε) : GodotCall ε → List GodotOutput → Prop
  | pushed (event : ε) : Answers demo t (.pushInputEvent event) []
  | failed {a : GodotCall ε} {e : BridgeError} (h : t.failure a = some e) :
    Answers demo t a [.returned false]
  | changed {a : GodotCall ε} (h : a = .onStart ∨ a = .onShutdown) :
    Answers demo t a [.returned true]
  /-- The frame is numbered from the last `on_start`. -/
  | shown {n : Nat} {pose : Pose} (h : t.tally.startedAt = some n)
      (hpose : MayShow demo ⟨UInt64.ofNat (t.tally.frames + 1 - n)⟩ pose) :
    Answers demo t (.onFrame true) [.setTransform pose, .returned true]

/-- Outputs that answer the calls one after the other. -/
inductive Explains (demo : Bool) : List (GodotCall ε) → List GodotOutput → Prop
  | nil : Explains demo [] []
  | snoc {as os a o} (h : Explains demo as os) (ho : (Session.of as).Answers demo a o) :
    Explains demo (as ++ [a]) (os ++ o)

theorem of_snoc (as : List (GodotCall ε)) (a : GodotCall ε) :
    Session.of (as ++ [a]) = (Session.of as).next a := by
  rw [Session.of, List.foldl_append]
  rfl

end Session

variable {ε : Type} [BevyEcs] [LawfulSchedule] {s s' : SuteraClientBridge ε} {a : GodotCall ε}
  {as : List (GodotCall ε)} {o os : List GodotOutput} {demo : Bool} {t : Session ε}

/-- The state of a node, as its session tells it. -/
structure Tells (demo : Bool) (t : Session ε) (s : SuteraClientBridge ε) : Prop where
  counted : Counted demo t.tally s
  pending : s.pendingInputEvents = t.pushed.rtake maxPendingInputEvents
  lastError : s.lastError = t.lastError
  posed : Posed demo s.core.world.gameState.primaryPose

omit [BevyEcs] [LawfulSchedule] in
theorem maxPendingInputEvents_pos : 0 < maxPendingInputEvents := by
  rw [maxPendingInputEvents]
  omega

omit [BevyEcs] [LawfulSchedule] in
theorem Tells.push (h : Tells demo t s) (event : ε) :
    (s.pushInputEvent event).pendingInputEvents =
      (t.pushed ++ [event]).rtake maxPendingInputEvents := by
  rw [← rtake_push maxPendingInputEvents_pos, ← h.pending]
  rfl

omit [BevyEcs] [LawfulSchedule] in
theorem init_tells : Tells demo {} (init demo : SuteraClientBridge ε) where
  counted := init_counted
  pending := (List.rtake_nil _).symm
  lastError := rfl
  posed := posed_identity demo

omit [BevyEcs] [LawfulSchedule] in
theorem Tells.consumed_eq (h : Tells demo t s) : s.consumed = t.input := by
  have hframe : s.consumed.frame = t.input.frame := by
    rw [FrameId.ext_iff, consumed_frame, h.counted.clock, Session.input, UInt64.ofNat_add]
    rfl
  have hinputs : s.consumed.inputs = t.input.inputs := by
    rw [Session.input, ← length_rtake, ← h.pending]
    rfl
  cases hc : s.consumed
  rw [hc] at hframe hinputs
  cases hframe
  cases hinputs
  rfl

theorem tick_mayShow (h : Tells demo t s) :
    ∃ c frame, s.core.tick s.consumed = (c, .ok frame) ∧
      frame.frame.val = s.worldFrame.val + 1 ∧ MayShow demo frame.frame frame.primaryPose ∧
      c.world.gameState.primaryPose = frame.primaryPose := by
  obtain ⟨c, frame, htick, -, hcore, hnext⟩ := tick_frame h.counted.schedule
  refine ⟨c, frame, htick, hnext, ?_, ?_⟩
  · have hshow := run_mayShow demo { s.core.world with inputSnapshot := some s.consumed } h.posed
    rw [← h.counted.schedule] at hshow
    cases htick
    exact hshow
  · cases htick
    rfl

omit [LawfulSchedule] in
theorem onFrame_shown {c : CoreEcs} {frame : RenderFrame} (valid : Bool) (hs : s.started = true)
    (ht : s.core.tick s.consumed = (c, .ok frame)) : s.onFrame valid =
      if valid then
        ({ s with pipeline := ⟨⟨c, true⟩, ⟨some frame⟩⟩, frameClock := s.frameClock.nextFrame.1,
                  pendingInputEvents := [] }, [frame.primaryPose], true)
      else
        ({ s with pipeline := ⟨⟨c, true⟩, ⟨some frame⟩⟩, frameClock := s.frameClock.nextFrame.1,
                  pendingInputEvents := [],
                  lastError := some (.projectionFailed
                    ProjectionError.invalidTargetNode.toString) }, [], false) := by
  have hstarted : s.pipeline.bridge.started = true := hs
  have htick : EcsCore.tick s.pipeline.bridge.core s.consumed = (c, .ok frame) := ht
  have hbridge : RuntimeBridge.onFrame s.pipeline.bridge s.consumed = (⟨c, true⟩, .ok frame) := by
    simp [RuntimeBridge.onFrame, RuntimeBridgeAdapter.onFrame, hstarted, htick, Except.mapError]
  have hsnap : InputPort.snapshot (GodotInputPort.fromEvents s.pendingInputEvents) s.frameClock =
      (⟨[]⟩, s.frameClock.nextFrame.1, s.consumed) := rfl
  have hport : s.pipeline.onPortInput s.frameClock
      (GodotInputPort.fromEvents s.pendingInputEvents) =
      (⟨⟨c, true⟩, ⟨some frame⟩⟩, s.frameClock.nextFrame.1, ⟨[]⟩, .ok ()) := by
    simp only [BridgePipeline.onPortInput, BridgePipeline.onFrame, hsnap, hbridge]
    rfl
  cases valid with
  | false => simp [onFrame, hport, projectLatestFrame, BridgePipeline.lastFrame,
      RenderStateProjector.project, reply]
  | true => simp [onFrame, hport, projectLatestFrame, BridgePipeline.lastFrame,
      RenderStateProjector.project, reply]

theorem Tells.onFrame_answers (h : Tells demo t s) (valid : Bool)
    (hstep : step s (.onFrame valid) = some (s', o)) :
    t.Answers demo (.onFrame valid) o ∧ s'.pendingInputEvents = [] ∧
      s'.lastError = (t.failure (.onFrame valid)).or t.lastError ∧
      Posed demo s'.core.world.gameState.primaryPose := by
  cases hstarted : s.started with
  | false =>
    have hnone : t.tally.startedAt = none := by simpa using h.counted.started.symm.trans hstarted
    have hfail : t.failure (.onFrame valid) = some .notStarted := by
      rw [Session.failure, if_pos hnone]
    simp only [step, onFrame_of_stopped hstarted] at hstep
    cases hstep
    rw [hfail]
    exact ⟨.failed hfail, rfl, rfl, h.posed⟩
  | true =>
    obtain ⟨n, hn⟩ := Option.isSome_iff_exists.mp (h.counted.started.symm.trans hstarted)
    have hsome : ¬ t.tally.startedAt = none := by simp [hn]
    obtain ⟨hle, hworld⟩ := h.counted.world n hn
    obtain ⟨c, frame, htick, hnext, hshow, hpose⟩ := tick_mayShow h
    have hposed : Posed demo c.world.gameState.primaryPose := by
      rw [hpose]
      exact hshow.posed
    simp only [step, onFrame_shown valid hstarted htick] at hstep
    cases valid with
    | false =>
      have hfail : t.failure (.onFrame false) =
          some (.projectionFailed ProjectionError.invalidTargetNode.toString) := by
        rw [Session.failure, if_neg hsome]
        rfl
      cases hstep
      rw [hfail]
      exact ⟨.failed hfail, rfl, rfl, hposed⟩
    | true =>
      have hfail : t.failure (.onFrame true) = none := by
        rw [Session.failure, if_neg hsome]
        rfl
      have hnumber : frame.frame = ⟨UInt64.ofNat (t.tally.frames + 1 - n)⟩ := by
        have hsub : t.tally.frames + 1 - n = t.tally.frames - n + 1 := by omega
        rw [FrameId.ext_iff, hnext, hworld, hsub, UInt64.ofNat_add]
        rfl
      rw [hnumber] at hshow
      cases hstep
      rw [hfail]
      exact ⟨.shown hn hshow, rfl, h.lastError, hposed⟩

theorem Tells.step (h : Tells demo t s) (hstep : step s a = some (s', o)) :
    t.Answers demo a o ∧ Tells demo (t.next a) s' := by
  have hcounted := h.counted.step hstep
  cases a with
  | onStart =>
    cases hstep
    exact ⟨.changed (.inl rfl), hcounted, h.pending, h.lastError, posed_identity demo⟩
  | onShutdown =>
    cases hstep
    exact ⟨.changed (.inr rfl), hcounted, h.pending, h.lastError, h.posed⟩
  | onFrame valid =>
    obtain ⟨hanswer, hpending, herror, hposed⟩ := h.onFrame_answers valid hstep
    exact ⟨hanswer, hcounted, hpending.trans (List.rtake_nil _).symm, herror, hposed⟩
  | pushInputEvent event =>
    cases hstep
    exact ⟨.pushed event, hcounted, h.push event, h.lastError, h.posed⟩
  | requestStateOverride reason =>
    cases hstep
    exact ⟨.failed rfl, hcounted, h.pending, rfl, h.posed⟩

/-- In every run from a new node, the calls are answered as the session of the calls before them
says: a frame is shown exactly when the node is started and its target valid, with the pose of its
number; it is handed as many inputs as events have been pushed since the last frame, at most 1024,
and the newest; and `last_error` is the text of the last call that failed. -/
theorem session_explained (h : Machine.Runs SuteraClientBridge.step (init demo) as os s) :
    Session.Explains demo as os ∧ s.started = (Session.of as).tally.startedAt.isSome ∧
      s.consumed = (Session.of as).input ∧
      s.pendingInputEvents = (Session.of as).pushed.rtake maxPendingInputEvents ∧
      errorText s.lastError = errorText (Session.of as).lastError := by
  have htells : Session.Explains demo as os ∧ Tells demo (Session.of as) s := by
    refine h.history (I := fun s as os => Session.Explains demo as os ∧
      Tells demo (Session.of as) s) ⟨.nil, init_tells⟩ ?_
    intro s as os a s' o _ ⟨hexplains, htells⟩ hstep
    obtain ⟨hanswer, hnext⟩ := htells.step hstep
    rw [Session.of_snoc]
    exact ⟨.snoc hexplains hanswer, hnext⟩
  obtain ⟨hexplains, htells⟩ := htells
  exact ⟨hexplains, htells.counted.started, htells.consumed_eq, htells.pending,
    congrArg errorText htells.lastError⟩

end SuteraClientBridge

def lateStart : List (GodotCall Unit) :=
  [.pushInputEvent (), .onFrame true, .onStart, .pushInputEvent (), .pushInputEvent (),
    .onFrame true, .pushInputEvent (), .onFrame false]

theorem session_explained_late_start :
    let _ := inOrder
    ∃ s os, Machine.Runs SuteraClientBridge.step (.init true) lateStart os s ∧
      SuteraClientBridge.Session.Explains true lateStart os ∧
      s.consumed.frame = ⟨4⟩ ∧
      errorText s.lastError = "render projection failed: target node is invalid" := by
  intro _
  let _ := inOrder_lawful
  have hrun : ∃ s os, Machine.Runs SuteraClientBridge.step (.init true) lateStart os s :=
    ⟨_, _, Machine.run_sound rfl⟩
  obtain ⟨s, os, hr⟩ := hrun
  obtain ⟨hexplains, -, hinput, -, herror⟩ := SuteraClientBridge.session_explained hr
  refine ⟨s, os, hr, hexplains, ?_, herror⟩
  rw [hinput]
  rfl

end Client
end Bakopa
