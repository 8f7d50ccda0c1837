import Bakopa.Syncer.Reports

/-!
# Bakopa.Syncer.Recipients

To whom a send goes.

A `Logged` transport is any transport with a log of the calls of its `send`; it passes every call
on. `Send.expected` says which calls a send makes from the state after the inbound drain, and
`handle_recipients` that it makes no others: the limiter, the table, the registration and the
encoding decide whether there are any, and the table alone decides for whom.
-/

namespace Bakopa
namespace Syncer

open Lib Lib.Machine

structure SendCall where
  target : ParticipantId
  payload : TransportPayload
  params : TransportSendParams
deriving DecidableEq

structure Logged (τ : Type) where
  inner : τ
  sent : List SendCall

instance {τ : Type} [Transport τ] : Transport (Logged τ) where
  registerParticipant t p := { t with inner := Transport.registerParticipant t.inner p }
  send t target payload params :=
    ⟨Transport.send t.inner target payload params, t.sent ++ [⟨target, payload, params⟩]⟩
  poll t :=
    let (inner, events) := Transport.poll t.inner
    ({ t with inner }, events)

def Message.sendCall (m : Message) : SendCall := ⟨m.target, m.payload, .forStream m.kind⟩

/-- A request that sends: `payload` is `none` when the pose or chat is invalid. -/
structure Send where
  kind : StreamKind
  sender : ParticipantId
  payload : Option TransportPayload

def SyncerRequest.asSend [SerdeJson] : SyncerRequest → Option Send
  | .join _ _ => none
  | .sendPose fromId pose _ =>
    some ⟨.pose, fromId, (OutboundPayload.pose pose).intoTransportPayload.toOption⟩
  | .sendChat chat ctx =>
    some ⟨.chat, ctx.participantId, (OutboundPayload.chat chat).intoTransportPayload.toOption⟩
  | .sendVoiceFrame frame ctx => some ⟨.voice, ctx.participantId, some (.audioFrame frame)⟩

/-- What a request has to be for its payload to be encoded. -/
def SyncerRequest.Valid : SyncerRequest → Prop
  | .sendPose _ pose _ => pose.version = 1
  | .sendChat chat _ => chat.validate = .ok ()
  | .join _ _ | .sendVoiceFrame _ _ => True

theorem SyncerRequest.payload_eq_none_iff [SerdeJson] {request : SyncerRequest} {send : Send}
    (h : request.asSend = some send) : send.payload = none ↔ ¬ request.Valid := by
  cases request with
  | join room p => cases h
  | sendPose fromId pose ctx =>
    cases h
    by_cases hv : pose.version = 1 <;>
    simp [OutboundPayload.intoTransportPayload, SyncMessageEnvelope.fromPose, ensure, hv, Valid,
      pure, Bind.bind, Except.pure, Except.bind, Except.toOption]
  | sendChat chat ctx =>
    cases h
    cases hv : chat.validate <;>
    simp [OutboundPayload.intoTransportPayload, SyncMessageEnvelope.fromChat, hv, Valid,
      pure, Bind.bind, Except.pure, Except.bind, Except.toOption]
  | sendVoiceFrame frame ctx =>
    cases h
    simp [Valid]

namespace Send

/-- What the send hands to the transport, given the table. -/
def messages (send : Send) (participants : ParticipantTable) : List Message :=
  match send.payload with
  | none => []
  | some payload =>
    (participants.participants.filter (· ≠ send.sender)).map fun target =>
      ⟨send.kind, target, payload⟩

end Send

theorem messages_routeCommon [SerdeJson] (fromId : ParticipantId) (t : ParticipantTable)
    (payload : OutboundPayload) :
    Outbound.messages (Router.routeCommon fromId t payload) =
      (⟨payload.kind, fromId, payload.intoTransportPayload.toOption⟩ : Send).messages t := by
  simp only [Outbound.messages, Router.routeCommon, Send.messages, List.filterMap_map]
  cases hp : payload.intoTransportPayload with
  | error e => simp [Except.toOption, hp]
  | ok p => simp [Except.toOption, hp]

theorem applyPendingPeerEvent_not_limited [UuidCrate] (t : ParticipantTable)
    (event : PendingPeerEvent) (kind : StreamKind) :
    .rateLimited kind ∉ (t.applyPendingPeerEvent event).2 := by
  unfold ParticipantTable.applyPendingPeerEvent
  split
  · simp
  · split
    · rw [ParticipantTable.events_applyJoin]
      split <;> simp
    · rw [ParticipantTable.events_applyLeave]
      split <;> simp

theorem processEvent_not_limited [UuidCrate] [SerdeJson] (room : RoomId)
    (seen : Finset ParticipantId) (t : ParticipantTable) (ev : TransportEvent)
    (kind : StreamKind) : .rateLimited kind ∉ (TransportInbox.processEvent room seen t ev).out := by
  cases ev with
  | received fromId payload =>
    cases payload with
    | audioFrame frame => simp [TransportInbox.processEvent]
    | bytes data =>
      cases hmsg : (TransportPayload.bytes data).parseSyncMessage with
      | error e => simp [TransportInbox.processEvent, hmsg]
      | ok msg =>
        simp only [TransportInbox.processEvent, hmsg]
        cases msg with
        | pose pose => simp [TransportInbox.processMessage]
        | chat chat => simp [TransportInbox.processMessage]
        | control control => exact applyPendingPeerEvent_not_limited t _ kind
        | signaling signaling =>
          simp [TransportInbox.processMessage, controlOrSignalingError]
  | failure peer =>
    have hfail : (TransportEvent.failure peer).presence = some (.fail peer) := rfl
    rw [TransportInbox.processEvent_presence hfail, PresenceOp.apply]
    split <;> simp

theorem processEvents_not_limited [UuidCrate] [SerdeJson] (room : RoomId)
    (seen : Finset ParticipantId) (t : ParticipantTable) (evs : List TransportEvent)
    (kind : StreamKind) :
    .rateLimited kind ∉ (TransportInbox.processEvents room seen t evs).out := by
  induction evs generalizing seen t with
  | nil => exact List.not_mem_nil
  | cons ev evs ih =>
    rw [TransportInbox.processEvents, List.mem_append, not_or]
    exact ⟨processEvent_not_limited room seen t ev kind, ih _ _⟩

namespace BasicSyncer

section Sends

variable {τ : Type} [Transport τ] [UuidCrate] [SerdeJson] {s : BasicSyncer τ}

theorem handleRequest_send (s : BasicSyncer τ) (now : Nat) {request : SyncerRequest}
    {send : Send} (h : request.asSend = some send) :
    s.handleRequest now request =
      s.handleSend send.kind send.sender now (send.messages s.participants) := by
  cases request with
  | join roomId p => cases h
  | sendPose fromId pose ctx =>
    cases h
    rw [handleRequest, Router.routePose, messages_routeCommon]
    rfl
  | sendChat chat ctx =>
    cases h
    rw [handleRequest, Router.routeChat, messages_routeCommon]
    rfl
  | sendVoiceFrame frame ctx =>
    cases h
    rfl

theorem count_limited_drain (kind : StreamKind) :
    (returned s.drainTransportEvents.2).count (.rateLimited kind) = 0 := by
  rw [List.count_eq_zero]
  cases hroom : s.room with
  | none =>
    rw [drain_none hroom]
    exact List.not_mem_nil
  | some room =>
    rw [returned_drain hroom]
    exact processEvents_not_limited room _ _ _ kind

/-- The limiter turns the send down. -/
def Rejects (s : BasicSyncer τ) (send : Send) (now : Nat) : Prop :=
  (s.rateLimiter.checkAndRecord s.sessionId send.kind now).2 ≠ .allowed

omit [Transport τ] [UuidCrate] [SerdeJson] in
theorem rateLimit_spec (s : BasicSyncer τ) (send : Send) (now : Nat) :
    ∃ rateLimiter, (¬ s.Rejects send now ∧
        s.rateLimit send.kind now = ({ s with rateLimiter }, none)) ∨
      (s.Rejects send now ∧
        s.rateLimit send.kind now = ({ s with rateLimiter }, some (.rateLimited send.kind))) := by
  refine ⟨(s.rateLimiter.checkAndRecord s.sessionId send.kind now).1, ?_⟩
  rcases s.rateLimiter.checkAndRecord_decision s.sessionId send.kind now with hd | hd
  · exact .inl ⟨fun h => h hd, by simp only [rateLimit, hd]⟩
  · refine .inr ⟨fun h => ?_, by simp only [rateLimit, hd]⟩
    cases hd.symm.trans h

/-- A `Join` request has been made since the last `rebind_transport`. -/
def JoinedSince (cs : List (Call τ)) : Prop :=
  ∃ pre now room p post, cs = pre ++ .handle now (.join room p) :: post ∧
    ∀ t, .rebindTransport t ∉ post

omit [Transport τ] [UuidCrate] [SerdeJson] in
theorem not_joinedSince_nil : ¬ JoinedSince ([] : List (Call τ)) := by
  rintro ⟨pre, now, room, p, post, h, -⟩
  simp at h

omit [Transport τ] [UuidCrate] [SerdeJson] in
theorem joinedSince_snoc {cs : List (Call τ)} {c : Call τ} : JoinedSince (cs ++ [c]) ↔
    (∃ now room p, c = .handle now (.join room p)) ∨
      (JoinedSince cs ∧ ∀ t, c ≠ .rebindTransport t) := by
  constructor
  · rintro ⟨pre, now, room, p, post, h, hpost⟩
    rcases snoc_split h with ⟨rfl, rfl, rfl⟩ | ⟨rest, rfl, rfl⟩
    · exact .inl ⟨now, room, p, rfl⟩
    · refine .inr ⟨⟨pre, now, room, p, rest, rfl, fun t ht => ?_⟩, fun t hc => ?_⟩
      · exact hpost t (List.mem_append_left _ ht)
      · exact hpost t (by rw [hc]; simp)
  · rintro (⟨now, room, p, rfl⟩ | ⟨⟨pre, now, room, p, post, rfl, hpost⟩, hc⟩)
    · exact ⟨cs, now, room, p, [], rfl, fun _ => List.not_mem_nil⟩
    · refine ⟨pre, now, room, p, post ++ [c], by simp, fun t ht => ?_⟩
      rcases List.mem_append.mp ht with ht | ht
      · exact hpost t ht
      · exact hc t (List.mem_singleton.mp ht).symm

theorem registered_drain (s : BasicSyncer τ) :
    s.drainTransportEvents.1.transport.registered = s.transport.registered := by
  cases hroom : s.room with
  | none => rw [drain_none hroom]
  | some room =>
    rw [drain_some hroom]
    rfl

omit [UuidCrate] [SerdeJson] in
theorem registered_send (s : BasicSyncer τ) (m : Message) :
    (s.transportSend m).transport.registered = s.transport.registered := by
  simp only [transportSend, FilteringTransport.send]
  split <;> rfl

theorem registered_prim {s s' : BasicSyncer τ} {a : Prim τ} {o : List Act}
    (h : prim s a = some (s', o)) (henter : ∀ room p, a ≠ .enter room p)
    (hrebind : ∀ t, a ≠ .rebind t) : s'.transport.registered = s.transport.registered := by
  cases a with
  | drain =>
    have hdrain := s.registered_drain
    rwa [show s.drainTransportEvents = (s', o) from Option.some.inj h] at hdrain
  | limit streamKind now =>
    obtain ⟨⟨l, rfl⟩, -⟩ := limit_cases h
    rfl
  | enter room p => exact absurd rfl (henter room p)
  | send m =>
    obtain ⟨-, rfl, -⟩ := send_cases h
    exact s.registered_send m
  | push ev => cases h; rfl
  | rebind transport => exact absurd rfl (hrebind transport)

theorem registered_call {s s' : BasicSyncer τ} {call : Call τ} {o : List Act}
    (h : calls s call = some (s', o)) (hjoin : ∀ now room p, call ≠ .handle now (.join room p))
    (hrebind : ∀ t, call ≠ .rebindTransport t) :
    s'.transport.registered = s.transport.registered := by
  obtain ⟨ps, hps, hmakes⟩ := call_runs h
  have henter : ∀ a ∈ ps, ∀ room p, a ≠ .enter room p := by
    rintro a ha room p rfl
    cases call with
    | handle now request => exact hjoin now room p (congrArg _ (hmakes _ ha))
    | pollOnly => cases hmakes _ ha
    | pushTransportEvent ev => cases hmakes _ ha
    | rebindTransport t => cases hmakes _ ha
  have hbind : ∀ a ∈ ps, ∀ t, a ≠ .rebind t := by
    rintro a ha t rfl
    exact hrebind t (Call.rebind_of_makes (hmakes _ ha))
  clear h hmakes
  induction hps with
  | nil => rfl
  | cons ha _ ih =>
    have hfirst := registered_prim ha (henter _ List.mem_cons_self) (hbind _ List.mem_cons_self)
    rw [← hfirst]
    exact ih (fun a h => henter a (List.mem_cons_of_mem _ h))
      fun a h => hbind a (List.mem_cons_of_mem _ h)

theorem registered_join (s : BasicSyncer τ) (now : Nat) (room : RoomId) (p : ParticipantId) :
    (s.handle now (.join room p)).1.transport.registered = true := by
  have henter : ∀ s : BasicSyncer τ, (s.enterRoom room p).1.transport.registered = true := by
    intro s
    exact registered_send _ _
  simp only [handle, handleRequest, registered_drain]
  exact henter _

theorem registered_iff {me : ParticipantId} {transport : τ} {limiter : RateLimiter}
    {cs : List (Call τ)} {acts : List Act}
    (h : Runs calls (withRateLimiter me transport limiter) cs acts s) :
    s.transport.registered = true ↔ JoinedSince cs := by
  refine h.history (I := fun s cs _ => s.transport.registered = true ↔ JoinedSince cs) ?_ ?_
  · exact iff_of_false (by simp [withRateLimiter, FilteringTransport.new]) not_joinedSince_nil
  · intro s cs acts call s' o _ ih hcall
    rw [joinedSince_snoc, ← ih]
    by_cases hjoin : ∃ now room p, call = .handle now (.join room p)
    · obtain ⟨now, room, p, rfl⟩ := hjoin
      cases hcall
      exact iff_of_true (s.registered_join now room p) (.inl ⟨now, room, p, rfl⟩)
    · rw [or_iff_right hjoin]
      by_cases hrebind : ∃ t, call = .rebindTransport t
      · obtain ⟨t, rfl⟩ := hrebind
        cases hcall
        refine iff_of_false (by simp [rebindTransport, FilteringTransport.new]) ?_
        rintro ⟨-, hno⟩
        exact hno t rfl
      · rw [registered_call hcall (fun now room p hc => hjoin ⟨now, room, p, hc⟩)
          fun t hc => hrebind ⟨t, hc⟩]
        exact (and_iff_left fun t hc => hrebind ⟨t, hc⟩).symm

end Sends

section Log

variable {τ : Type} [Transport τ] [UuidCrate] [SerdeJson] {s : BasicSyncer (Logged τ)}

def log (s : BasicSyncer (Logged τ)) : List SendCall := s.transport.inner.sent

theorem log_drain (s : BasicSyncer (Logged τ)) : s.drainTransportEvents.1.log = s.log := by
  cases hroom : s.room with
  | none => rw [drain_none hroom]
  | some room =>
    rw [drain_some hroom]
    rfl

omit [UuidCrate] [SerdeJson] in
theorem log_sendAll (s : BasicSyncer (Logged τ)) (ms : List Message) : (s.sendAll ms).1.log =
    s.log ++ if s.transport.registered then ms.map Message.sendCall else [] := by
  induction ms generalizing s with
  | nil => simp [sendAll]
  | cons m ms ih =>
    rw [sendAll, ih, registered_send]
    cases hreg : s.transport.registered with
    | false => simp [log, transportSend, FilteringTransport.send, hreg]
    | true =>
      simp [log, transportSend, FilteringTransport.send, hreg, Transport.send, Message.sendCall]

omit [UuidCrate] [SerdeJson] in
theorem returned_sendAll (s : BasicSyncer (Logged τ)) (ms : List Message) :
    returned (s.sendAll ms).2 = [] := by
  induction ms generalizing s with
  | nil => rfl
  | cons m ms ih =>
    rw [sendAll, returned_send]
    exact ih _

instance (s : BasicSyncer τ) (send : Send) (now : Nat) : Decidable (s.Rejects send now) :=
  inferInstanceAs (Decidable (_ ≠ _))

/-- The calls of the underlying `send` that a send makes in this state. -/
def expected (s : BasicSyncer τ) (send : Send) (now : Nat) : List SendCall :=
  if s.Rejects send now ∨ send.sender ∉ s.participantsSnapshot ∨ s.transport.registered = false
  then []
  else
    match send.payload with
    | none => []
    | some payload =>
      (s.participantsSnapshot.filter (· ≠ send.sender)).map fun target =>
        ⟨target, payload, .forStream send.kind⟩

omit [Transport τ] [UuidCrate] [SerdeJson] in
theorem map_messages (send : Send) (t : ParticipantTable) :
    (send.messages t).map Message.sendCall = match send.payload with
      | none => []
      | some payload => (t.participants.filter (· ≠ send.sender)).map fun target =>
        ⟨target, payload, .forStream send.kind⟩ := by
  unfold Send.messages
  cases send.payload with
  | none => rfl
  | some payload => rw [List.map_map]; rfl

omit [Transport τ] [UuidCrate] [SerdeJson] in
theorem expected_targets (s : BasicSyncer τ) (send : Send) (now : Nat) :
    (s.expected send now).map SendCall.target = [] ∨
    (s.expected send now).map SendCall.target =
      s.participantsSnapshot.filter (· ≠ send.sender) := by
  unfold expected
  split
  · exact .inl rfl
  · cases send.payload with
    | none => exact .inl rfl
    | some payload =>
      right
      rw [List.map_map]
      exact List.map_id _

theorem handleSend_log (send : Send) (now : Nat) :
    (s.handleSend send.kind send.sender now (send.messages s.participants)).1.log =
      s.log ++ s.expected send now ∧
    ∀ kind, (returned (s.handleSend send.kind send.sender now
        (send.messages s.participants)).2).count (.rateLimited kind) =
      if s.Rejects send now ∧ kind = send.kind then 1 else 0 := by
  obtain ⟨limiter, ⟨hallow, hlimit⟩ | ⟨hreject, hlimit⟩⟩ := s.rateLimit_spec send now
  · have hcount : ∀ kind, ¬ (s.Rejects send now ∧ kind = send.kind) := fun _ h => hallow h.1
    by_cases hreg : send.sender ∈ s.participantsSnapshot
    · have hin : s.participants.isRegistered send.sender = true :=
        ParticipantTable.isRegistered_iff.mpr hreg
      simp only [handleSend, hlimit, hin, if_true, log_drain, log_sendAll, map_messages,
        returned_append, returned_sendAll, List.nil_append, count_limited_drain]
      refine ⟨?_, fun kind => (if_neg (hcount kind)).symm⟩
      cases htr : s.transport.registered with
      | false => simp [expected, htr, log]
      | true =>
        simp only [expected, hallow, hreg, htr, not_true_eq_false, Bool.true_eq_false, or_self,
          if_false, if_true]
        rfl
    · have hout : s.participants.isRegistered send.sender = false := by
        rw [← Bool.not_eq_true, ParticipantTable.isRegistered_iff]
        exact hreg
      simp only [handleSend, hlimit, hout, Bool.false_eq_true, if_false, log_drain,
        count_limited_drain]
      refine ⟨?_, fun kind => (if_neg (hcount kind)).symm⟩
      rw [expected, if_pos (.inr (.inl hreg)), List.append_nil]
      rfl
  · simp only [handleSend, hlimit, log_drain, returned_event, List.count_cons,
      count_limited_drain, Nat.zero_add]
    constructor
    · rw [expected, if_pos (.inl hreject), List.append_nil]
      rfl
    · intro kind
      by_cases hkind : kind = send.kind
      · simp [hreject, hkind]
      · simp [hkind, Ne.symm hkind]

/-- In every run, a send makes the calls of the underlying `send` that the limiter, the table after
the inbound drain and the registration call for, and reports the limit exactly when it hits it. -/
theorem handle_recipients {me : ParticipantId} {transport : Logged τ} {limiter : RateLimiter}
    {cs : List (Call (Logged τ))} {acts : List Act} {request : SyncerRequest} {send : Send}
    (now : Nat) (h : Runs calls (withRateLimiter me transport limiter) cs acts s)
    (hsend : request.asSend = some send) :
    let drained := s.drainTransportEvents.1
    let made := drained.expected send now
    (s.handle now request).1.log = s.log ++ made ∧
    (∀ kind, (returned (s.handle now request).2).count (.rateLimited kind) =
      if drained.Rejects send now ∧ kind = send.kind then 1 else 0) ∧
    (drained.transport.registered = true ↔ JoinedSince cs) ∧
    drained.participantsSnapshot =
      (returned (acts ++ s.drainTransportEvents.2)).foldl ParticipantTable.track [] ∧
    (send.payload = none ↔ ¬ request.Valid) ∧
    (made.map SendCall.target).Nodup ∧ send.sender ∉ made.map SendCall.target := by
  intro drained made
  have hlog := handleSend_log (s := drained) send now
  have hhandle : s.handle now request =
      ((drained.handleSend send.kind send.sender now (send.messages drained.participants)).1,
        s.drainTransportEvents.2 ++ (drained.handleSend send.kind send.sender now
          (send.messages drained.participants)).2) := by
    rw [handle]
    simp only [handleRequest_send _ now hsend]
    rfl
  rw [hhandle]
  refine ⟨?_, ?_, ?_, ?_, SyncerRequest.payload_eq_none_iff hsend, ?_, ?_⟩
  · rw [hlog.1]
    exact congrArg (· ++ made) s.log_drain
  · intro kind
    rw [returned_append, List.count_append, count_limited_drain, Nat.zero_add]
    exact hlog.2 kind
  · rw [← registered_iff h]
    exact iff_of_eq (congrArg (· = true) s.registered_drain)
  · obtain ⟨ps, hps, -⟩ := calls_expand h
    have htrack : (returned acts).foldl ParticipantTable.track [] = s.participantsSnapshot :=
      runs_track hps
    rw [returned_append, List.foldl_append, htrack]
    exact s.drain_track.symm
  · rcases drained.expected_targets send now with hnone | hall
    · rw [hnone]
      exact List.nodup_nil
    · rw [hall]
      exact drained.participants.nodup_participants.filter _
  · rcases drained.expected_targets send now with hnone | hall
    · rw [hnone]
      exact List.not_mem_nil
    · rw [hall, List.mem_filter]
      simp

end Log

def carol : ParticipantId := ⟨3⟩

def loggedEnd [UuidCrate] : Logged WebrtcTransport := ⟨(WebrtcTransport.pair alice bob).1, []⟩

def threeJoin : List (Call (Logged WebrtcTransport)) :=
  [.handle 0 (.join lobby bob), .handle 0 (.join lobby alice), .handle 0 (.join lobby carol)]

def greeting : ChatMessage := ⟨1, 0, 1, "alice", "hello"⟩

def greetingBytes [SerdeJson] : TransportPayload :=
  .bytes (SerdeJson.toVec ⟨1, .chat, greeting.toValue⟩)

/-- What `alice` says goes to the others, in the order they joined. -/
theorem handle_recipients_three_join :
    let _ := hyphenated
    let _ := JsonText.serdeText
    let request := SyncerRequest.sendChat greeting ⟨lobby, alice, .chat⟩
    ∃ s acts, Runs calls (new alice loggedEnd) threeJoin acts s ∧
      (s.handle 0 request).1.log = s.log ++
        [⟨bob, greetingBytes, .forStream .chat⟩, ⟨carol, greetingBytes, .forStream .chat⟩] := by
  intro _ _ request
  have hrun : (run calls (new alice loggedEnd) threeJoin).map
      (fun r => r.1.drainTransportEvents.1.expected ⟨.chat, alice, some greetingBytes⟩ 0) =
      some [⟨bob, greetingBytes, .forStream .chat⟩, ⟨carol, greetingBytes, .forStream .chat⟩] := by
    decide +kernel
  obtain ⟨⟨s, acts⟩, hr, hmade⟩ := Option.map_eq_some_iff.mp hrun
  have hsend : request.asSend = some ⟨.chat, alice, some greetingBytes⟩ := rfl
  have hlog := (handle_recipients 0 (run_sound hr) hsend).1
  rw [hmade] at hlog
  exact ⟨s, acts, run_sound hr, hlog⟩

end BasicSyncer

end Syncer
end Bakopa
