import Bakopa.Syncer.RateLimiter
import Bakopa.Syncer.TransportInbox

/-!
# Bakopa.Syncer.BasicSyncer

`BasicSyncer` of `syncer/src/lib.rs`, over any transport, with the `Router` of
`syncer/src/router.rs`.

A call gives what it did in program order (`Act`): the events it returns, the messages it hands
to the transport, and two kinds of marks that are not in the source. `returned` is what the call
returns.

Whatever is called, a syncer only ever does six things (`Prim`). `calls_expand` says so: a run of
calls is a run of the machine `prim`, so a property of runs needs one lemma about each of the six.
-/

namespace Bakopa
namespace Syncer

open Lib Lib.Machine

/-! ## Router -/

inductive OutboundPayload where
  | pose (pose : PoseMessage)
  | chat (chat : ChatMessage)
deriving DecidableEq

def OutboundPayload.kind : OutboundPayload → StreamKind
  | .pose _ => .pose
  | .chat _ => .chat

structure Outbound where
  fromId : ParticipantId
  target : ParticipantId
  streamKind : StreamKind
  payload : OutboundPayload
deriving DecidableEq

def OutboundPayload.intoTransportPayload [SerdeJson] (payload : OutboundPayload) :
    Except SyncMessageError TransportPayload := do
  let envelope ← match payload with
    | .pose msg => SyncMessageEnvelope.fromPose msg
    | .chat msg => SyncMessageEnvelope.fromChat msg
  return .bytes (SerdeJson.toVec envelope)

namespace Router

def routeCommon (fromId : ParticipantId) (participants : ParticipantTable)
    (payload : OutboundPayload) : List Outbound :=
  (participants.participants.filter (· ≠ fromId)).map fun target =>
    ⟨fromId, target, payload.kind, payload⟩

def routePose (fromId : ParticipantId) (pose : PoseMessage) (participants : ParticipantTable) :
    List Outbound :=
  routeCommon fromId participants (.pose pose)

def routeChat (fromId : ParticipantId) (chat : ChatMessage) (participants : ParticipantTable) :
    List Outbound :=
  routeCommon fromId participants (.chat chat)

end Router

/-- A message to hand to the transport, with `for_stream` of its kind as parameters. -/
structure Message where
  kind : StreamKind
  target : ParticipantId
  payload : TransportPayload
deriving DecidableEq

/-- The outbounds that encode; the others are skipped. -/
def Outbound.messages [SerdeJson] (outs : List Outbound) : List Message :=
  outs.filterMap fun out =>
    match out.payload.intoTransportPayload with
    | .ok payload => some ⟨out.streamKind, out.target, payload⟩
    | .error _ => none

def voiceMessages (fromId : ParticipantId) (frame : List UInt8) (participants : ParticipantTable) :
    List Message :=
  (participants.participants.filter (· ≠ fromId)).map fun target =>
    ⟨.voice, target, .audioFrame frame⟩

theorem mem_voiceMessages {fromId : ParticipantId} {frame : List UInt8} {t : ParticipantTable}
    {m : Message} (h : m ∈ voiceMessages fromId frame t) :
    m.kind = .voice ∧ m.payload = .audioFrame frame ∧ m.target ∈ t.participants := by
  simp only [voiceMessages, List.mem_map, List.mem_filter] at h
  obtain ⟨target, ⟨htarget, -⟩, rfl⟩ := h
  exact ⟨rfl, rfl, htarget⟩

theorem mem_messages [SerdeJson] {fromId : ParticipantId} {payload : OutboundPayload}
    {t : ParticipantTable} {m : Message}
    (h : m ∈ Outbound.messages (Router.routeCommon fromId t payload)) :
    m.kind = payload.kind ∧ payload.intoTransportPayload = .ok m.payload ∧
      m.target ∈ t.participants := by
  simp only [Outbound.messages, Router.routeCommon, List.mem_filterMap, List.mem_map,
    List.mem_filter] at h
  obtain ⟨out, ⟨target, ⟨htarget, -⟩, rfl⟩, h⟩ := h
  split at h
  · rename_i p hp
    cases h
    exact ⟨rfl, hp, htarget⟩
  · cases h

/-- What a request can send to the other participants. -/
def SyncerRequest.Carries [SerdeJson] : SyncerRequest → Message → Prop
  | .join _ _, _ => False
  | .sendPose _ pose _, m =>
    m.kind = .pose ∧ (OutboundPayload.pose pose).intoTransportPayload = .ok m.payload
  | .sendChat chat _, m =>
    m.kind = .chat ∧ (OutboundPayload.chat chat).intoTransportPayload = .ok m.payload
  | .sendVoiceFrame frame _, m => m.kind = .voice ∧ m.payload = .audioFrame frame

/-! ## Syncer -/

inductive Act where
  | event (e : SyncerEvent)
  | send (m : Message)
  /-- Mark: a `Join` request is applied to the table. -/
  | joining (p : ParticipantId)
  /-- Mark: `drain_into_events` was called with these, and its events are all out. -/
  | drained (room : RoomId) (inbox : TransportInbox) (participants : ParticipantTable)

/-- The events a call returns. -/
def returned (acts : List Act) : List SyncerEvent :=
  acts.filterMap fun
    | .event e => some e
    | _ => none

@[simp] theorem returned_nil : returned [] = [] := rfl

@[simp] theorem returned_append (acts acts' : List Act) :
    returned (acts ++ acts') = returned acts ++ returned acts' :=
  List.filterMap_append

@[simp] theorem returned_event (e : SyncerEvent) (acts : List Act) :
    returned (.event e :: acts) = e :: returned acts := rfl

@[simp] theorem returned_send (m : Message) (acts : List Act) :
    returned (.send m :: acts) = returned acts := rfl

@[simp] theorem returned_joining (p : ParticipantId) (acts : List Act) :
    returned (.joining p :: acts) = returned acts := rfl

@[simp] theorem returned_drained (room : RoomId) (inbox : TransportInbox) (t : ParticipantTable)
    (acts : List Act) : returned (.drained room inbox t :: acts) = returned acts := rfl

@[simp] theorem returned_map_event (es : List SyncerEvent) : returned (es.map .event) = es := by
  induction es with
  | nil => rfl
  | cons e es ih => rw [List.map_cons, returned_event, ih]

structure BasicSyncer (τ : Type) where
  me : ParticipantId
  transport : FilteringTransport τ
  participants : ParticipantTable
  inbox : TransportInbox
  room : Option RoomId
  rateLimiter : RateLimiter
  sessionId : String

namespace BasicSyncer

variable {τ : Type} [Transport τ] [UuidCrate] [SerdeJson]

omit [Transport τ] [SerdeJson] in
def withRateLimiter (me : ParticipantId) (transport : τ) (rateLimiter : RateLimiter) :
    BasicSyncer τ where
  me := me
  transport := .new me transport
  participants := .new
  inbox := .new
  room := none
  rateLimiter := rateLimiter
  sessionId := me.toString

omit [Transport τ] [SerdeJson] in
/-- 20 sends a second. -/
def new (me : ParticipantId) (transport : τ) : BasicSyncer τ :=
  withRateLimiter me transport ⟨20, by decide, 1000000000, ∅⟩

def rebindTransport (s : BasicSyncer τ) (transport : τ) : BasicSyncer τ :=
  { s with transport := .new s.me transport, inbox := .new }

def participantsSnapshot (s : BasicSyncer τ) : List ParticipantId := s.participants.participants

def pushTransportEvent (s : BasicSyncer τ) (ev : TransportEvent) : BasicSyncer τ :=
  { s with inbox := s.inbox.push ev }

def drainTransportEvents (s : BasicSyncer τ) : BasicSyncer τ × List Act :=
  match s.room with
  | none => (s, [])
  | some room =>
    let (transport, evs) := s.transport.poll
    let inbox := evs.foldl TransportInbox.push s.inbox
    let (inbox', participants, events) := inbox.drainIntoEvents room s.participants
    ({ s with transport, inbox := inbox', participants },
      events.map .event ++ [.drained room inbox s.participants])

def pollOnly (s : BasicSyncer τ) : BasicSyncer τ × List Act := s.drainTransportEvents

def rateLimit (s : BasicSyncer τ) (streamKind : StreamKind) (now : Nat) :
    BasicSyncer τ × Option SyncerEvent :=
  let (rateLimiter, decision) := s.rateLimiter.checkAndRecord s.sessionId streamKind now
  ({ s with rateLimiter },
    match decision with
    | .allowed => none
    | .rateLimited streamKind => some (.rateLimited streamKind))

def transportSend (s : BasicSyncer τ) (m : Message) : BasicSyncer τ :=
  { s with transport := s.transport.send m.target m.payload (.forStream m.kind) }

def sendAll (s : BasicSyncer τ) : List Message → BasicSyncer τ × List Act
  | [] => (s, [])
  | m :: ms =>
    let (s, acts) := (s.transportSend m).sendAll ms
    (s, .send m :: acts)

def joinMessage (me participantId : ParticipantId) : Message :=
  ⟨.controlJoin, me, .bytes (SerdeJson.toVec
    ⟨1, .controlJoin, (ControlMessage.join ⟨participantId.toString, none, none⟩).toValue⟩)⟩

/-- The arm of `Join` up to its drain. -/
def enterRoom (s : BasicSyncer τ) (roomId : RoomId) (participantId : ParticipantId) :
    BasicSyncer τ × List Act :=
  let s := { s with room := some roomId, transport := s.transport.register }
  let m := joinMessage s.me participantId
  let s := s.transportSend m
  let (participants, events) := s.participants.applyJoin participantId
  ({ s with participants },
    .send m :: .joining participantId ::
      (events ++ [SyncerEvent.selfJoined roomId participantId]).map .event)

/-- The arms of the three sends: limit, ignore a sender that is not registered, send, drain. -/
def handleSend (s : BasicSyncer τ) (streamKind : StreamKind) (sender : ParticipantId) (now : Nat)
    (messages : List Message) : BasicSyncer τ × List Act :=
  match s.rateLimit streamKind now with
  | (s, some ev) =>
    let (s, acts) := s.drainTransportEvents
    (s, .event ev :: acts)
  | (s, none) =>
    if s.participants.isRegistered sender then
      let (s, sent) := s.sendAll messages
      let (s, acts) := s.drainTransportEvents
      (s, sent ++ acts)
    else s.drainTransportEvents

def handleRequest (s : BasicSyncer τ) (now : Nat) : SyncerRequest → BasicSyncer τ × List Act
  | .join roomId participantId =>
    let (s, entered) := s.enterRoom roomId participantId
    let (s, acts) := s.drainTransportEvents
    (s, entered ++ acts)
  | .sendPose fromId pose _ =>
    s.handleSend .pose fromId now (Outbound.messages (Router.routePose fromId pose s.participants))
  | .sendChat chat ctx =>
    s.handleSend .chat ctx.participantId now
      (Outbound.messages (Router.routeChat ctx.participantId chat s.participants))
  | .sendVoiceFrame frame ctx =>
    s.handleSend .voice ctx.participantId now
      (voiceMessages ctx.participantId frame s.participants)

/-- `now` is the reading of the limiter's clock. -/
def handle (s : BasicSyncer τ) (now : Nat) (request : SyncerRequest) : BasicSyncer τ × List Act :=
  let (s, inbound) := s.drainTransportEvents
  let (s, acts) := s.handleRequest now request
  (s, inbound ++ acts)

/-! ## What a drain does -/

omit [UuidCrate] [SerdeJson] in
/-- The inbox when `drain_into_events` is called. -/
def polled (s : BasicSyncer τ) : TransportInbox :=
  ⟨s.inbox.events ++ s.transport.poll.2, s.inbox.failureEmitted⟩

omit [UuidCrate] [SerdeJson] in
theorem foldl_push (evs : List TransportEvent) (inbox : TransportInbox) :
    evs.foldl TransportInbox.push inbox = ⟨inbox.events ++ evs, inbox.failureEmitted⟩ := by
  induction evs generalizing inbox with
  | nil => simp
  | cons ev evs ih => simp [ih, TransportInbox.push]

theorem drain_none {s : BasicSyncer τ} (h : s.room = none) : s.drainTransportEvents = (s, []) := by
  simp only [drainTransportEvents, h]

theorem drain_some {s : BasicSyncer τ} {room : RoomId} (h : s.room = some room) :
    s.drainTransportEvents =
      let inbound := TransportInbox.processEvents room s.polled.failureEmitted s.participants
        s.polled.events
      ({ s with
          transport := s.transport.poll.1
          inbox := ⟨[], inbound.seen⟩
          participants := inbound.participants },
        inbound.out.map .event ++ [.drained room s.polled s.participants]) := by
  simp only [drainTransportEvents, h, foldl_push, TransportInbox.drainIntoEvents, polled]

theorem returned_drain {s : BasicSyncer τ} {room : RoomId} (h : s.room = some room) :
    returned s.drainTransportEvents.2 =
      (TransportInbox.processEvents room s.polled.failureEmitted s.participants
        s.polled.events).out := by
  rw [drain_some h]
  simp only [returned_append, returned_map_event, returned_drained, returned_nil,
    List.append_nil]

theorem returned_enter (s : BasicSyncer τ) (roomId : RoomId) (p : ParticipantId) :
    returned (s.enterRoom roomId p).2 =
      (s.participants.applyJoin p).2 ++ [.selfJoined roomId p] := by
  simp only [enterRoom, returned_send, returned_joining, returned_map_event]
  rfl

omit [Transport τ] [UuidCrate] [SerdeJson] in
theorem rateLimit_cases (s : BasicSyncer τ) (streamKind : StreamKind) (now : Nat) :
    (s.rateLimit streamKind now).2 = none ∨
    (s.rateLimit streamKind now).2 = some (.rateLimited streamKind) := by
  rcases s.rateLimiter.checkAndRecord_decision s.sessionId streamKind now with hd | hd
  · exact .inl (by simp only [rateLimit, hd])
  · exact .inr (by simp only [rateLimit, hd])

inductive Call (τ : Type) where
  | handle (now : Nat) (request : SyncerRequest)
  | pollOnly
  | pushTransportEvent (ev : TransportEvent)
  | rebindTransport (transport : τ)

def calls : Machine (BasicSyncer τ) (Call τ) Act
  | s, .handle now request => some (s.handle now request)
  | s, .pollOnly => some s.pollOnly
  | s, .pushTransportEvent ev => some (s.pushTransportEvent ev, [])
  | s, .rebindTransport transport => some (s.rebindTransport transport, [])

inductive Prim (τ : Type) where
  | drain
  | limit (streamKind : StreamKind) (now : Nat)
  | enter (roomId : RoomId) (participantId : ParticipantId)
  /-- Only to a registered participant. -/
  | send (m : Message)
  | push (ev : TransportEvent)
  | rebind (transport : τ)

def prim : Machine (BasicSyncer τ) (Prim τ) Act
  | s, .drain => some s.drainTransportEvents
  | s, .limit streamKind now =>
    let (s, ev) := s.rateLimit streamKind now
    some (s, ev.toList.map .event)
  | s, .enter roomId participantId => some (s.enterRoom roomId participantId)
  | s, .send m =>
    if m.target ∈ s.participants.participants then some (s.transportSend m, [.send m]) else none
  | s, .push ev => some (s.pushTransportEvent ev, [])
  | s, .rebind transport => some (s.rebindTransport transport, [])

theorem limit_cases {s s' : BasicSyncer τ} {streamKind : StreamKind} {now : Nat} {o : List Act}
    (h : prim s (.limit streamKind now) = some (s', o)) :
    (∃ rateLimiter, s' = { s with rateLimiter }) ∧
    (o = [] ∨ o = [.event (.rateLimited streamKind)]) := by
  simp only [prim, Option.some.injEq, Prod.mk.injEq] at h
  obtain ⟨rfl, rfl⟩ := h
  refine ⟨⟨_, rfl⟩, ?_⟩
  rcases s.rateLimit_cases streamKind now with hev | hev
  · exact .inl (by rw [hev]; rfl)
  · exact .inr (by rw [hev]; rfl)

theorem send_cases {s s' : BasicSyncer τ} {m : Message} {o : List Act}
    (h : prim s (.send m) = some (s', o)) :
    m.target ∈ s.participants.participants ∧ s' = s.transportSend m ∧ o = [.send m] := by
  simp only [prim] at h
  split at h
  · rename_i hm
    cases h
    exact ⟨hm, rfl, rfl⟩
  · cases h

/-- What a call does is made of these. -/
def Prim.Serves (request : SyncerRequest) : Prim τ → Prop
  | .drain | .limit _ _ => True
  | .enter roomId participantId => request = .join roomId participantId
  | .send m => request.Carries m
  | .push _ | .rebind _ => False

def Call.Makes : Call τ → Prim τ → Prop
  | .handle _ request, a => a.Serves request
  | .pollOnly, a => a = .drain
  | .pushTransportEvent ev, a => a = .push ev
  | .rebindTransport transport, a => a = .rebind transport

theorem drain_runs (s : BasicSyncer τ) :
    Runs prim s [.drain] s.drainTransportEvents.2 s.drainTransportEvents.1 :=
  Runs.single rfl

theorem sendAll_runs {ms : List Message} (s : BasicSyncer τ)
    (h : ∀ m ∈ ms, m.target ∈ s.participants.participants) :
    Runs prim s (ms.map .send) (s.sendAll ms).2 (s.sendAll ms).1 := by
  induction ms generalizing s with
  | nil => exact .nil
  | cons m ms ih =>
    have hm : prim s (.send m) = some (s.transportSend m, [.send m]) := by
      simp only [prim, h m List.mem_cons_self, if_true]
    exact .cons hm (ih (s.transportSend m) fun m' hm' => h m' (List.mem_cons_of_mem m hm'))

theorem handleSend_runs {request : SyncerRequest} {streamKind : StreamKind}
    {sender : ParticipantId} {now : Nat} {messages : List Message} (s : BasicSyncer τ)
    (hreq : ∀ m ∈ messages, request.Carries m ∧ m.target ∈ s.participants.participants) :
    ∃ ps, Runs prim s ps (s.handleSend streamKind sender now messages).2
      (s.handleSend streamKind sender now messages).1 ∧ ∀ a ∈ ps, a.Serves request := by
  have hlimit : Runs prim s [.limit streamKind now]
      ((s.rateLimit streamKind now).2.toList.map .event) (s.rateLimit streamKind now).1 :=
    Runs.single rfl
  have hsame : (s.rateLimit streamKind now).1.participants = s.participants := rfl
  unfold handleSend
  split
  · rename_i s₁ ev heq
    rw [heq] at hlimit
    refine ⟨_, hlimit.trans (drain_runs s₁), ?_⟩
    simp [Prim.Serves]
  · rename_i s₁ heq
    rw [heq] at hlimit hsame
    split
    · have hsend : Runs prim s₁ (messages.map .send) (s₁.sendAll messages).2
          (s₁.sendAll messages).1 := by
        refine sendAll_runs s₁ fun m hm => ?_
        rw [hsame]
        exact (hreq m hm).2
      refine ⟨_, (hlimit.trans hsend).trans (drain_runs _), ?_⟩
      intro a ha
      simp only [List.mem_append, List.mem_singleton, List.mem_map] at ha
      rcases ha with (rfl | ⟨m, hm, rfl⟩) | rfl
      · trivial
      · exact (hreq m hm).1
      · trivial
    · refine ⟨_, hlimit.trans (drain_runs s₁), ?_⟩
      simp [Prim.Serves]

theorem handleRequest_runs (s : BasicSyncer τ) (now : Nat) (request : SyncerRequest) :
    ∃ ps, Runs prim s ps (s.handleRequest now request).2 (s.handleRequest now request).1 ∧
      ∀ a ∈ ps, a.Serves request := by
  cases request with
  | join roomId p =>
    have henter : Runs prim s [.enter roomId p] (s.enterRoom roomId p).2 (s.enterRoom roomId p).1 :=
      Runs.single rfl
    refine ⟨_, henter.trans (drain_runs _), ?_⟩
    simp [Prim.Serves]
  | sendPose fromId pose ctx =>
    refine handleSend_runs s fun m hm => ?_
    obtain ⟨hkind, hpayload, htarget⟩ := mem_messages hm
    exact ⟨⟨hkind, hpayload⟩, htarget⟩
  | sendChat chat ctx =>
    refine handleSend_runs s fun m hm => ?_
    obtain ⟨hkind, hpayload, htarget⟩ := mem_messages hm
    exact ⟨⟨hkind, hpayload⟩, htarget⟩
  | sendVoiceFrame frame ctx =>
    refine handleSend_runs s fun m hm => ?_
    obtain ⟨hkind, hpayload, htarget⟩ := mem_voiceMessages hm
    exact ⟨⟨hkind, hpayload⟩, htarget⟩

theorem call_runs {s s' : BasicSyncer τ} {call : Call τ} {o : List Act}
    (h : calls s call = some (s', o)) : ∃ ps, Runs prim s ps o s' ∧ ∀ a ∈ ps, call.Makes a := by
  cases call with
  | handle now request =>
    cases h
    obtain ⟨ps, hps, hserves⟩ := handleRequest_runs s.drainTransportEvents.1 now request
    refine ⟨_, (drain_runs s).trans hps, ?_⟩
    intro a ha
    rcases List.mem_append.mp ha with ha | ha
    · rw [List.mem_singleton.mp ha]
      trivial
    · exact hserves a ha
  | pollOnly =>
    have hdrain := drain_runs s
    rw [show s.drainTransportEvents = (s', o) from Option.some.inj h] at hdrain
    exact ⟨_, hdrain, by simp [Call.Makes]⟩
  | pushTransportEvent ev =>
    cases h
    exact ⟨_, Runs.single (a := .push ev) rfl, by simp [Call.Makes]⟩
  | rebindTransport transport =>
    cases h
    exact ⟨_, Runs.single (a := .rebind transport) rfl, by simp [Call.Makes]⟩

theorem calls_expand {s s' : BasicSyncer τ} {cs : List (Call τ)} {acts : List Act}
    (h : Runs calls s cs acts s') :
    ∃ ps, Runs prim s ps acts s' ∧ ∀ a ∈ ps, ∃ call ∈ cs, call.Makes a :=
  h.expand fun _ _ _ _ => call_runs

end BasicSyncer

end Syncer
end Bakopa
