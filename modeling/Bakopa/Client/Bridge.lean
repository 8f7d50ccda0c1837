import Bakopa.Client.Ecs
import Bakopa.Lib.Machine

/-!
# Bakopa.Client.Bridge

`client/domain/src/bridge.rs`, with the traits it is generic over: `ClientBootstrap` with its XR
runtime and its bridge, `RuntimeBridgeAdapter` over an ECS core, and `BridgePipeline` with its
ports. A method of a trait returns the value it leaves behind and its result.
-/

namespace Bakopa
namespace Client

open Lib

/-! ## Errors -/

inductive XrError where
  | initializationFailed (reason : String)
  | shutdownFailed (reason : String)
deriving DecidableEq, Repr

inductive BridgeError where
  | initializationFailed (reason : String)
  | shutdownFailed (reason : String)
  | notStarted
  | directStateMutationDenied
  | projectionFailed (reason : String)
  | coreInit (source : CoreError)
  | core (source : CoreError)
deriving DecidableEq, Repr

inductive StartError where
  | xrInit (source : XrError)
  | xrNotReady
  | bridgeInit (source : BridgeError)
deriving DecidableEq, Repr

inductive ShutdownError where
  | xrShutdown (source : XrError)
  | bridgeShutdown (source : BridgeError)
deriving DecidableEq, Repr

inductive FrameError where
  | notRunning
  | bridge (source : BridgeError)
deriving DecidableEq, Repr

/-! ## Traits -/

class XrRuntime (ξ : Type) where
  enable : ξ → ξ × Except XrError Unit
  isReady : ξ → Bool
  shutdown : ξ → ξ × Except XrError Unit

class RuntimeBridge (β : Type) where
  onStart : β → β × Except BridgeError Unit
  onShutdown : β → β × Except BridgeError Unit
  onFrame : β → InputSnapshot → β × Except BridgeError RenderFrame

class InputPort (π : Type) where
  snapshot : π → FrameClock → π × FrameClock × InputSnapshot

class OutputPort (ω : Type) where
  project : ω → RenderFrame → ω

structure RenderFrameBuffer where
  last : Option RenderFrame := none

instance : OutputPort RenderFrameBuffer where
  project _ frame := ⟨some frame⟩

/-! ## The bootstrap -/

structure ClientBootstrap (ξ β : Type) where
  xr : ξ
  bridge : β
  running : Bool
  frameClock : FrameClock

namespace ClientBootstrap

variable {ξ β : Type}

def new (xr : ξ) (bridge : β) : ClientBootstrap ξ β := ⟨xr, bridge, false, {}⟩

variable [XrRuntime ξ] [RuntimeBridge β]

def start (s : ClientBootstrap ξ β) : ClientBootstrap ξ β × Except StartError Unit :=
  let (xr, enabled) := XrRuntime.enable s.xr
  match enabled with
  | .error e => ({ s with xr }, .error (.xrInit e))
  | .ok () =>
    if !XrRuntime.isReady xr then ({ s with xr }, .error .xrNotReady)
    else
      let (bridge, started) := RuntimeBridge.onStart s.bridge
      match started with
      | .error e => ({ s with xr, bridge }, .error (.bridgeInit e))
      | .ok () =>
        ({ xr, bridge, frameClock := s.frameClock.reset ⟨0⟩, running := true }, .ok ())

def tickFrame (s : ClientBootstrap ξ β) : ClientBootstrap ξ β × Except FrameError FrameId :=
  if !s.running then (s, .error .notRunning)
  else
    let (frameClock, frame) := s.frameClock.nextFrame
    ({ s with frameClock }, .ok frame)

def tick (s : ClientBootstrap ξ β) (inputs : List InputEvent) :
    ClientBootstrap ξ β × Except FrameError RenderFrame :=
  if !s.running then (s, .error .notRunning)
  else
    let input : InputSnapshot := ⟨s.frameClock.currentFrame, inputs⟩
    let (bridge, result) := RuntimeBridge.onFrame s.bridge input
    ({ s with bridge }, result.mapError .bridge)

/-- Both parts are shut down; the error of the bridge comes before that of the runtime. -/
def shutdown (s : ClientBootstrap ξ β) : ClientBootstrap ξ β × Except ShutdownError Unit :=
  if !s.running then (s, .ok ())
  else
    let (bridge, bridgeResult) := RuntimeBridge.onShutdown s.bridge
    let (xr, xrResult) := XrRuntime.shutdown s.xr
    let result := match bridgeResult, xrResult with
      | .error bridgeErr, _ => .error (.bridgeShutdown bridgeErr)
      | .ok (), .error xrErr => .error (.xrShutdown xrErr)
      | .ok (), .ok () => .ok ()
    ({ s with xr, bridge, running := false }, result)

end ClientBootstrap

inductive BootstrapCall where
  | start
  | tickFrame
  | tick (inputs : List InputEvent)
  | shutdown

inductive BootstrapResult where
  | start (result : Except StartError Unit)
  | tickFrame (result : Except FrameError FrameId)
  | tick (result : Except FrameError RenderFrame)
  | shutdown (result : Except ShutdownError Unit)

def ClientBootstrap.step {ξ β : Type} [XrRuntime ξ] [RuntimeBridge β] :
    Machine (ClientBootstrap ξ β) BootstrapCall BootstrapResult
  | s, .start =>
    let (s, result) := s.start
    some (s, [.start result])
  | s, .tickFrame =>
    let (s, result) := s.tickFrame
    some (s, [.tickFrame result])
  | s, .tick inputs =>
    let (s, result) := s.tick inputs
    some (s, [.tick result])
  | s, .shutdown =>
    let (s, result) := s.shutdown
    some (s, [.shutdown result])

/-! ## The adapter -/

structure StateOverrideRequest where
  reason : String
deriving DecidableEq, Repr

class StateOverride (β : Type) where
  requestStateOverride : β → StateOverrideRequest → β × Except BridgeError Unit

structure RuntimeBridgeAdapter (γ : Type) where
  core : γ
  started : Bool

namespace RuntimeBridgeAdapter

variable {γ : Type}

def new (core : γ) : RuntimeBridgeAdapter γ := ⟨core, false⟩

def requestStateOverride (s : RuntimeBridgeAdapter γ) (_ : StateOverrideRequest) :
    RuntimeBridgeAdapter γ × Except BridgeError Unit :=
  (s, .error .directStateMutationDenied)

variable [EcsCore γ]

def onStart (s : RuntimeBridgeAdapter γ) : RuntimeBridgeAdapter γ × Except BridgeError Unit :=
  let (core, result) := EcsCore.initWorld s.core
  match result with
  | .error e => ({ s with core }, .error (.coreInit e))
  | .ok () => ({ core, started := true }, .ok ())

def onShutdown (s : RuntimeBridgeAdapter γ) : RuntimeBridgeAdapter γ × Except BridgeError Unit :=
  ({ s with started := false }, .ok ())

def onFrame (s : RuntimeBridgeAdapter γ) (input : InputSnapshot) :
    RuntimeBridgeAdapter γ × Except BridgeError RenderFrame :=
  if !s.started then (s, .error .notStarted)
  else
    let (core, result) := EcsCore.tick s.core input
    ({ s with core }, result.mapError .core)

end RuntimeBridgeAdapter

instance {γ : Type} [EcsCore γ] : RuntimeBridge (RuntimeBridgeAdapter γ) where
  onStart := RuntimeBridgeAdapter.onStart
  onShutdown := RuntimeBridgeAdapter.onShutdown
  onFrame := RuntimeBridgeAdapter.onFrame

instance {γ : Type} : StateOverride (RuntimeBridgeAdapter γ) where
  requestStateOverride := RuntimeBridgeAdapter.requestStateOverride

/-! ## The pipeline -/

structure BridgePipeline (β ω : Type) where
  bridge : β
  output : ω

namespace BridgePipeline

variable {β ω : Type}

def new (bridge : β) (output : ω) : BridgePipeline β ω := ⟨bridge, output⟩

def lastFrame (s : BridgePipeline β RenderFrameBuffer) : Option RenderFrame := s.output.last

def requestStateOverride [StateOverride β] (s : BridgePipeline β ω)
    (request : StateOverrideRequest) : BridgePipeline β ω × Except BridgeError Unit :=
  let (bridge, result) := StateOverride.requestStateOverride s.bridge request
  ({ s with bridge }, result)

variable [RuntimeBridge β] [OutputPort ω]

def onStart (s : BridgePipeline β ω) : BridgePipeline β ω × Except BridgeError Unit :=
  let (bridge, result) := RuntimeBridge.onStart s.bridge
  ({ s with bridge }, result)

def onShutdown (s : BridgePipeline β ω) : BridgePipeline β ω × Except BridgeError Unit :=
  let (bridge, result) := RuntimeBridge.onShutdown s.bridge
  ({ s with bridge }, result)

def onFrame (s : BridgePipeline β ω) (input : InputSnapshot) :
    BridgePipeline β ω × Except BridgeError Unit :=
  let (bridge, result) := RuntimeBridge.onFrame s.bridge input
  match result with
  | .error e => ({ s with bridge }, .error e)
  | .ok frame => ({ bridge, output := OutputPort.project s.output frame }, .ok ())

def onPortInput {π : Type} [InputPort π] (s : BridgePipeline β ω) (frameClock : FrameClock)
    (inputPort : π) : BridgePipeline β ω × FrameClock × π × Except BridgeError Unit :=
  let (inputPort, frameClock, input) := InputPort.snapshot inputPort frameClock
  let (s, result) := s.onFrame input
  (s, frameClock, inputPort, result)

end BridgePipeline

end Client
end Bakopa
