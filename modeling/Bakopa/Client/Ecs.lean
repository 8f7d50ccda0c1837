import Mathlib.Data.List.Basic

/-!
# Bakopa.Client.Ecs

`client/domain/src/ecs.rs`: the frame clock, the snapshots a frame reads and the render frames it
returns, and `CoreEcs`, a bevy world with one schedule.

`bevy_ecs` is the parameter `BevyEcs`; that a run of the schedule runs each of its systems once is
`LawfulSchedule`. The frame ids are `u64` and wrap, as in a release build.
-/

namespace Bakopa
namespace Client

inductive CoreError where
  | initFailed (reason : String)
deriving DecidableEq, Repr

@[ext] structure FrameId where
  val : UInt64
deriving DecidableEq, Repr, Inhabited

structure FrameClock where
  current : FrameId := ⟨0⟩
deriving DecidableEq, Repr

namespace FrameClock

def nextFrame (clock : FrameClock) : FrameClock × FrameId :=
  let current : FrameId := ⟨clock.current.val + 1⟩
  (⟨current⟩, current)

def currentFrame (clock : FrameClock) : FrameId := clock.current

def reset (_ : FrameClock) (frame : FrameId) : FrameClock := ⟨frame⟩

end FrameClock

structure Vec3 where
  x : Float32
  y : Float32
  z : Float32

def Vec3.zero : Vec3 := ⟨0.0, 0.0, 0.0⟩

structure UnitQuat where
  x : Float32
  y : Float32
  z : Float32
  w : Float32

def UnitQuat.identity : UnitQuat := ⟨0.0, 0.0, 0.0, 1.0⟩

structure Pose where
  position : Vec3
  orientation : UnitQuat

def Pose.identity : Pose := ⟨.zero, .identity⟩

inductive InputEvent where
  | move (axisX axisY : Float32)
  | look (yawDelta pitchDelta : Float32)
  | action (name : String) (pressed : Bool)

structure InputSnapshot where
  frame : FrameId
  inputs : List InputEvent

structure RenderFrame where
  frame : FrameId
  primaryPose : Pose

def RenderFrame.fromPrimaryPose (frame : FrameId) (pose : Pose) : RenderFrame := ⟨frame, pose⟩

class EcsCore (γ : Type) where
  initWorld : γ → γ × Except CoreError Unit
  tick : γ → InputSnapshot → γ × Except CoreError RenderFrame

/-! ## The world and its schedule -/

structure GameState where
  frame : FrameId
  primaryPose : Pose

/-- The resources of the world: `GameState`, and `InputSnapshot` during a tick. -/
structure World where
  gameState : GameState
  inputSnapshot : Option InputSnapshot

def advanceFrame (state : GameState) : GameState :=
  { state with frame := ⟨state.frame.val + 1⟩ }

/-- Only with the feature `demo-motion`. -/
def demoMotion (state : GameState) : GameState :=
  let step := (state.frame.val % 180).toFloat32 / 180.0
  { state with primaryPose := { state.primaryPose with
      position := { state.primaryPose.position with x := step * 0.5 } } }

inductive System where
  | advanceFrame
  | demoMotion
deriving DecidableEq, Repr

def System.run (system : System) (world : World) : World :=
  match system with
  | .advanceFrame => { world with gameState := Client.advanceFrame world.gameState }
  | .demoMotion => { world with gameState := Client.demoMotion world.gameState }

class BevyEcs where
  /-- `Schedule::run` with the systems added to the schedule. -/
  run : List System → World → World

/-- A run of a schedule runs each of its systems once, in an order of its own. -/
class LawfulSchedule [BevyEcs] : Prop where
  run_eq (systems : List System) (world : World) : ∃ order : List System,
    order.Perm systems ∧
      BevyEcs.run systems world = order.foldl (fun w system => system.run w) world

def World.reset (world : World) : World := { world with gameState := ⟨⟨0⟩, .identity⟩ }

structure CoreEcs where
  world : World
  schedule : List System

namespace CoreEcs

/-- `demo`: whether the feature `demo-motion` is on. -/
def new (demo : Bool) : CoreEcs where
  world := ⟨⟨⟨0⟩, .identity⟩, none⟩
  schedule := .advanceFrame :: if demo then [.demoMotion] else []

def initWorld (core : CoreEcs) : CoreEcs × Except CoreError Unit :=
  ({ core with world := core.world.reset }, .ok ())

def tick [BevyEcs] (core : CoreEcs) (input : InputSnapshot) :
    CoreEcs × Except CoreError RenderFrame :=
  let world := BevyEcs.run core.schedule { core.world with inputSnapshot := some input }
  let frame := world.gameState.frame
  let pose := world.gameState.primaryPose
  ({ core with world := { world with inputSnapshot := none } },
    .ok (.fromPrimaryPose frame pose))

end CoreEcs

instance [BevyEcs] : EcsCore CoreEcs where
  initWorld := CoreEcs.initWorld
  tick := CoreEcs.tick

theorem System.frame_run (system : System) (world : World) : (system.run world).gameState.frame =
    if system = .advanceFrame then ⟨world.gameState.frame.val + 1⟩ else world.gameState.frame := by
  cases system <;> rfl

theorem frame_foldl_run (order : List System) (world : World) :
    (order.foldl (fun w system => system.run w) world).gameState.frame.val =
      world.gameState.frame.val + UInt64.ofNat (order.count .advanceFrame) := by
  induction order generalizing world with
  | nil => simp
  | cons system order ih =>
    rw [List.foldl_cons, ih, System.frame_run]
    cases system with
    | advanceFrame =>
      rw [List.count_cons_self, UInt64.ofNat_add, if_pos rfl, UInt64.add_assoc]
      congr 1
      exact UInt64.add_comm _ _
    | demoMotion => rw [List.count_cons_of_ne (by decide), if_neg (by decide)]

theorem frame_run_schedule [BevyEcs] [LawfulSchedule] (demo : Bool) (world : World) :
    (BevyEcs.run (CoreEcs.new demo).schedule world).gameState.frame.val =
      world.gameState.frame.val + 1 := by
  obtain ⟨order, hperm, hrun⟩ := LawfulSchedule.run_eq (CoreEcs.new demo).schedule world
  rw [hrun, frame_foldl_run, hperm.count_eq]
  cases demo <;> rfl

end Client
end Bakopa
