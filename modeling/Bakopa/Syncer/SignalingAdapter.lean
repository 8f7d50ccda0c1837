import Mathlib.Data.Finset.Basic
import Bakopa.Bloom.Api
import Bakopa.Lib.Machine
import Bakopa.Syncer.Api

/-!
# Bakopa.Syncer.SignalingAdapter

`syncer/src/signaling_adapter.rs`: signaling messages out to the Bloom server and back from it.

The sink and the closer of the source are other components: what is sent to the one is the value of
`sendOffer` and its siblings, and each call of the other is put out, in order with the events. The
functions on the way from `poll` take and give the set of active participants, which is all that
they change.
-/

namespace Bakopa
namespace Syncer

open Lib Lib.Machine Bloom

structure SignalingContext where
  roomId : String
  authToken : String
  icePolicy : String
deriving DecidableEq

/-- What the adapter does besides forwarding. -/
inductive AdapterAct where
  | close (participant : ParticipantId)
  | event (e : SyncerEvent)
deriving DecidableEq

/-- A message that `poll` has taken from the inbox, and what became of it. -/
structure Processed where
  message : ServerToClient
  payload : Option TransportPayload
  acts : List AdapterAct
deriving DecidableEq

def Processed.events (x : Processed) : List SyncerEvent :=
  x.acts.filterMap fun
    | .close _ => none
    | .event e => some e

structure PollResult where
  payloads : List TransportPayload
  events : List SyncerEvent
deriving DecidableEq

structure BloomSignalingAdapter where
  context : SignalingContext
  inbox : List ServerToClient
  activeParticipants : Finset ParticipantId

namespace BloomSignalingAdapter

def withContext (context : SignalingContext) : BloomSignalingAdapter := ⟨context, [], ∅⟩

/-! ## Outgoing -/

section Outgoing

variable [UuidCrate]

def sendOffer (target : ParticipantId) (payload : SignalingOffer) : ClientToServer :=
  .offer target.toString ⟨payload.sdp⟩

def sendAnswer (target : ParticipantId) (payload : SignalingAnswer) : ClientToServer :=
  .answer target.toString ⟨payload.sdp⟩

def sendIce (target : ParticipantId) (payload : SignalingIce) : ClientToServer :=
  .iceCandidate target.toString ⟨payload.candidate⟩

end Outgoing

/-! ## Incoming -/

def pushIncoming (a : BloomSignalingAdapter) (message : ServerToClient) : BloomSignalingAdapter :=
  { a with inbox := a.inbox ++ [message] }

def closeAndEmitPeerLeft (pid : ParticipantId) : List AdapterAct :=
  [.close pid, .event (.peerLeft pid)]

def emitInvalid (active : Finset ParticipantId) (pid : Option ParticipantId)
    (error : SyncMessageError) (existing : Bool) : Finset ParticipantId × List AdapterAct :=
  let errors := [AdapterAct.event (.error (.invalidPayload error))]
  match existing, pid with
  | true, some pid =>
    if pid ∈ active then (active.erase pid, errors ++ closeAndEmitPeerLeft pid)
    else (active, errors)
  | _, _ => (active, errors)

def handleEnvResult (active : Finset ParticipantId) (pid : Option ParticipantId) (existing : Bool)
    (result : Except SyncMessageError SyncMessageEnvelope) :
    Finset ParticipantId × Option SyncMessageEnvelope × List AdapterAct :=
  match result with
  | .ok env =>
    match existing, pid with
    | true, some pid =>
      (active, some env, closeAndEmitPeerLeft pid ++ [.event (.peerJoined pid)])
    | _, _ => (active, some env, [])
  | .error e =>
    let (active, acts) := emitInvalid active pid e existing
    (active, none, acts)

section Incoming

variable [UuidCrate]

def parseParticipant (participant : String) : Option ParticipantId :=
  ParticipantId.fromStr participant

/-- The participant, and whether it was there already. -/
def trackParticipant (active : Finset ParticipantId) (participant : String) :
    Finset ParticipantId × Option ParticipantId × Bool :=
  match parseParticipant participant with
  | some pid => (insert pid active, some pid, decide (pid ∈ active))
  | none => (active, none, false)

/-- The envelope of a message, and with it what happens to sessions. -/
def shapeEnvelope (context : SignalingContext) (active : Finset ParticipantId) :
    ServerToClient → Finset ParticipantId × Option SyncMessageEnvelope × List AdapterAct
  | .offer sender payload =>
    let (active, fromPid, existing) := trackParticipant active sender
    handleEnvResult active fromPid existing (SyncMessageEnvelope.fromSignaling (.offer
      ⟨1, context.roomId, sender, context.authToken, context.icePolicy, payload.sdp⟩))
  | .answer sender payload =>
    let fromPid := parseParticipant sender
    handleEnvResult active fromPid false (SyncMessageEnvelope.fromSignaling (.answer
      ⟨1, context.roomId, sender, context.authToken, payload.sdp⟩))
  | .iceCandidate sender payload =>
    let fromPid := parseParticipant sender
    handleEnvResult active fromPid false (SyncMessageEnvelope.fromSignaling (.ice
      ⟨1, context.roomId, sender, context.authToken, payload.candidate, none, none⟩))
  | _ => (active, none, [])

variable [SerdeJson]

def shapeIncoming (context : SignalingContext) (active : Finset ParticipantId)
    (message : ServerToClient) : Finset ParticipantId × Processed :=
  let (active, envelope, acts) := shapeEnvelope context active message
  (active, ⟨message, envelope.map fun env => .bytes (SerdeJson.toVec env), acts⟩)

def processMessages (context : SignalingContext) (active : Finset ParticipantId) :
    List ServerToClient → Finset ParticipantId × List Processed
  | [] => (active, [])
  | message :: messages =>
    let (active, processed) := shapeIncoming context active message
    let (active, rest) := processMessages context active messages
    (active, processed :: rest)

def pollProcessed (a : BloomSignalingAdapter) : BloomSignalingAdapter × List Processed :=
  let (active, processed) := processMessages a.context a.activeParticipants a.inbox
  ({ a with inbox := [], activeParticipants := active }, processed)

def poll (a : BloomSignalingAdapter) : BloomSignalingAdapter × PollResult :=
  let (a, processed) := a.pollProcessed
  (a, ⟨processed.filterMap (·.payload), processed.flatMap (·.events)⟩)

end Incoming

/-- The signaling message that a server message stands for. -/
def signalingOf (context : SignalingContext) : ServerToClient → Option SignalingMessage
  | .offer sender payload => some (.offer
      ⟨1, context.roomId, sender, context.authToken, context.icePolicy, payload.sdp⟩)
  | .answer sender payload => some (.answer
      ⟨1, context.roomId, sender, context.authToken, payload.sdp⟩)
  | .iceCandidate sender payload => some (.ice
      ⟨1, context.roomId, sender, context.authToken, payload.candidate, none, none⟩)
  | _ => none

/-- Whether the message passes `validate`; `none` for what is no signaling message. -/
def verdict (context : SignalingContext) (message : ServerToClient) :
    Option (Except SyncMessageError Unit) :=
  (signalingOf context message).map SignalingMessage.validate

def offerer [UuidCrate] : ServerToClient → Option ParticipantId
  | .offer sender _ => parseParticipant sender
  | _ => none

def errorAct (e : SyncMessageError) : AdapterAct := .event (.error (.invalidPayload e))

section Spec

variable [UuidCrate] [SerdeJson] {context : SignalingContext} {active : Finset ParticipantId}
  {message : ServerToClient} {p : ParticipantId}

omit [UuidCrate] [SerdeJson] in
theorem fromSignaling_eq (m : SignalingMessage) :
    SyncMessageEnvelope.fromSignaling m =
      m.validate.map fun _ => ⟨1, m.kindStream, m.toValue⟩ := by
  unfold SyncMessageEnvelope.fromSignaling
  cases m.validate <;> rfl

/-- The bytes that are forwarded for a signaling message. -/
def forwarded (m : SignalingMessage) : TransportPayload :=
  .bytes (SerdeJson.toVec ⟨1, m.kindStream, m.toValue⟩)

theorem shapeIncoming_offer_ok (hp : offerer message = some p)
    (hv : verdict context message = some (.ok ())) :
    shapeIncoming context active message = (insert p active,
      ⟨message, (signalingOf context message).map forwarded,
        if p ∈ active then [.close p, .event (.peerLeft p), .event (.peerJoined p)] else []⟩) := by
  cases message with
  | offer sender payload =>
    simp only [offerer] at hp
    simp only [verdict, signalingOf, Option.map_some, Option.some_inj] at hv
    simp only [shapeIncoming, shapeEnvelope, trackParticipant, hp, fromSignaling_eq, hv, Except.map,
      handleEnvResult, signalingOf, Option.map_some, forwarded]
    by_cases hin : p ∈ active
    · simp [hin, closeAndEmitPeerLeft]
    · simp [hin]
  | _ => cases hp

theorem shapeIncoming_offer_error {e : SyncMessageError} (hp : offerer message = some p)
    (hv : verdict context message = some (.error e)) :
    shapeIncoming context active message = (if p ∈ active then active.erase p else insert p active,
      ⟨message, none, errorAct e ::
        if p ∈ active then [.close p, .event (.peerLeft p)] else []⟩) := by
  cases message with
  | offer sender payload =>
    simp only [offerer] at hp
    simp only [verdict, signalingOf, Option.map_some, Option.some_inj] at hv
    simp only [shapeIncoming, shapeEnvelope, trackParticipant, hp, fromSignaling_eq, hv, Except.map,
      handleEnvResult, emitInvalid]
    by_cases hin : p ∈ active
    · simp [hin, closeAndEmitPeerLeft, errorAct]
    · simp [hin, errorAct]
  | _ => cases hp

theorem shapeIncoming_other (hp : offerer message = none) :
    shapeIncoming context active message = (active, ⟨message,
      match verdict context message with
      | some (.ok _) => (signalingOf context message).map forwarded
      | _ => none,
      match verdict context message with
      | some (.error e) => [errorAct e]
      | _ => []⟩) := by
  cases message with
  | offer sender payload =>
    simp only [offerer] at hp
    simp only [shapeIncoming, shapeEnvelope, trackParticipant, hp, fromSignaling_eq, verdict,
      signalingOf, Option.map_some]
    cases hv : SignalingMessage.validate _ <;> rfl
  | answer sender payload =>
    simp only [shapeIncoming, shapeEnvelope, fromSignaling_eq, verdict, signalingOf,
      Option.map_some]
    cases hv : SignalingMessage.validate _ <;> rfl
  | iceCandidate sender payload =>
    simp only [shapeIncoming, shapeEnvelope, fromSignaling_eq, verdict, signalingOf,
      Option.map_some]
    cases hv : SignalingMessage.validate _ <;> rfl
  | _ => rfl

theorem payload_of_valid (active : Finset ParticipantId)
    (hv : verdict context message = some (.ok ())) :
    (shapeIncoming context active message).2.payload =
      (signalingOf context message).map forwarded := by
  cases ho : offerer message with
  | none => rw [shapeIncoming_other ho, hv]
  | some q => rw [shapeIncoming_offer_ok ho hv]

end Spec

inductive Call where
  | pushIncoming (message : ServerToClient)
  | poll
deriving DecidableEq

/-- The messages that the calls process, when `queue` is in the inbox. -/
def polled (queue : List ServerToClient) : List Call → List ServerToClient
  | [] => []
  | .pushIncoming message :: calls => polled (queue ++ [message]) calls
  | .poll :: calls => queue ++ polled [] calls

section Runs

variable [UuidCrate] [SerdeJson] {context : SignalingContext} {active : Finset ParticipantId}

def step : Machine BloomSignalingAdapter Call Processed
  | a, .pushIncoming message => some (a.pushIncoming message, [])
  | a, .poll => some a.pollProcessed

/-- The loop of `poll`, a message a step. -/
def processing (context : SignalingContext) :
    Machine (Finset ParticipantId) ServerToClient Processed := fun active message =>
  let (active, processed) := shapeIncoming context active message
  some (active, [processed])

theorem processMessages_runs (messages : List ServerToClient) :
    Runs (processing context) active messages (processMessages context active messages).2
      (processMessages context active messages).1 := by
  induction messages generalizing active with
  | nil => exact .nil
  | cons message messages ih => exact .cons rfl ih

theorem runs_processing {a a' : BloomSignalingAdapter} {calls : List Call} {os : List Processed}
    (h : Runs step a calls os a') :
    Runs (processing a.context) a.activeParticipants (polled a.inbox calls) os
      a'.activeParticipants := by
  induction h with
  | nil => exact .nil
  | @cons a a₁ a' call calls o os ha _ ih =>
    cases call with
    | pushIncoming message =>
      cases ha
      exact ih
    | poll =>
      cases ha
      exact (processMessages_runs a.inbox).trans ih

theorem messages_processed {messages : List ServerToClient} {os : List Processed}
    {active' : Finset ParticipantId} (h : Runs (processing context) active messages os active') :
    os.map Processed.message = messages := by
  induction h with
  | nil => rfl
  | cons ha _ ih =>
    cases ha
    rw [List.map_append, ih]
    rfl

end Runs

end BloomSignalingAdapter

end Syncer
end Bakopa
