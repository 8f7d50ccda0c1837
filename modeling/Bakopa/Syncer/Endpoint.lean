import Bakopa.Syncer.Delivery

/-!
# Bakopa.Syncer.Endpoint

A `BasicSyncer` on one end of a `WebrtcTransport`, as the bus sees it.

`IsEnd` is what holds of such a syncer whatever is on the bus, and `Proper` what holds of the bus.
`Moves` says what steps of one end do to the two: messages to the peer go on the bus in order,
those from the peer come off it in order and are the ones reported, and each end gets to know the
other through a join on the bus. `call_moves` is that for a whole call, and `handed_call` says
which of the messages of a call have something to deliver.
-/

namespace Bakopa
namespace Syncer

open Lib Lib.Machine

/-! ## The bus -/

def inTransit (p : ParticipantId) (bus : List BusMessage) : List BusMessage :=
  bus.filter (·.target = p)

section Bus

variable [UuidCrate] [SerdeJson]

/-- A message of `p` to `q`, that is the join of `p` or does not concern presence. -/
def BusMessage.Passes (p q : ParticipantId) (m : BusMessage) : Prop :=
  m.fromId = p ∧ m.target = q ∧ ((WebrtcTransport.receivedOf m).presence = none ∨
    (WebrtcTransport.receivedOf m).presence = some (.join p))

def Proper (p q : ParticipantId) (bus : List BusMessage) : Prop :=
  ∀ m ∈ bus, m.Passes p q ∨ m.Passes q p

/-- The join of `p` is on its way to `q`. -/
def Announced (p q : ParticipantId) (bus : List BusMessage) : Prop :=
  ∃ m ∈ inTransit q bus, (WebrtcTransport.receivedOf m).presence = some (.join p)

/-- `q` has `p` in its table, or will. -/
def Known (p q : ParticipantId) (t : ParticipantTable) (bus : List BusMessage) : Prop :=
  p ∈ t.participants ∨ Announced p q bus

theorem Proper.symm {p q : ParticipantId} {bus : List BusMessage} (h : Proper p q bus) :
    Proper q p bus := fun m hm => (h m hm).symm

theorem Proper.incoming {me peer : ParticipantId} {bus : List BusMessage}
    (h : Proper me peer bus) (hne : me ≠ peer) : ∀ m ∈ inTransit me bus, m.Passes peer me := by
  intro m hm
  simp only [inTransit, List.mem_filter, decide_eq_true_eq] at hm
  refine (h m hm.1).resolve_left fun hpass => hne ?_
  rw [← hm.2, hpass.2.1]

theorem Announced.mono {p q : ParticipantId} {bus bus' : List BusMessage}
    (h : Announced p q bus) (hsub : inTransit q bus ⊆ inTransit q bus') : Announced p q bus' := by
  obtain ⟨m, hm, hjoin⟩ := h
  exact ⟨m, hsub hm, hjoin⟩

/-! A message of `p` to `q` at the end of the bus. -/

theorem Proper.post {p q : ParticipantId} {bus : List BusMessage} {payload : TransportPayload}
    (h : Proper p q bus) (hpresence : (TransportEvent.received p payload).presence = none ∨
      (TransportEvent.received p payload).presence = some (.join p)) :
    Proper p q (bus ++ [⟨q, p, payload⟩]) := by
  intro m hm
  rcases List.mem_append.mp hm with hm | hm
  · exact h m hm
  · rw [List.mem_singleton.mp hm]
    exact .inl ⟨rfl, rfl, hpresence⟩

omit [UuidCrate] [SerdeJson] in
theorem inTransit_post {p q : ParticipantId} (hne : p ≠ q) (bus : List BusMessage)
    (payload : TransportPayload) :
    inTransit p (bus ++ [⟨q, p, payload⟩]) = inTransit p bus ∧
    inTransit q (bus ++ [⟨q, p, payload⟩]) = inTransit q bus ++ [⟨q, p, payload⟩] := by
  constructor
  · simp [inTransit, hne.symm]
  · simp [inTransit]

end Bus

namespace BasicSyncer

/-! ## One end -/

def bus (s : BasicSyncer WebrtcTransport) : List BusMessage := s.transport.inner.bus

def withBus (s : BasicSyncer WebrtcTransport) (bus : List BusMessage) :
    BasicSyncer WebrtcTransport :=
  { s with transport := { s.transport with inner := { s.transport.inner with bus } } }

/-- The end of `me` towards `peer`, that injects no failure and takes no events but the bus's. -/
structure IsEnd (me peer : ParticipantId) (s : BasicSyncer WebrtcTransport) : Prop where
  me_eq : s.me = me
  filter_me : s.transport.me = me
  inner_me : s.transport.inner.me = me
  inner_peer : s.transport.inner.peer = peer
  registered : s.transport.registered = s.room.isSome
  inner_registered : s.transport.inner.registered = s.room.isSome
  pending : s.transport.inner.pending = []
  no_failure : s.transport.inner.injectFailureOnce = false
  inbox : s.inbox.events = []
  alone : s.room = none → s.participants.participants = []
  self_mem : s.room.isSome = true → me ∈ s.participants.participants
  members : ∀ p ∈ s.participants.participants, p = me ∨ p = peer

theorem IsEnd.sent {me peer : ParticipantId} {s : BasicSyncer WebrtcTransport}
    (h : IsEnd me peer s) (sentParams : List TransportSendParams) (bus : List BusMessage) :
    IsEnd me peer { s with transport := { s.transport with inner :=
      { s.transport.inner with sentParams, bus } } } :=
  ⟨h.me_eq, h.filter_me, h.inner_me, h.inner_peer, h.registered, h.inner_registered, h.pending,
    h.no_failure, h.inbox, h.alone, h.self_mem, h.members⟩

theorem IsEnd.withBus {me peer : ParticipantId} {s : BasicSyncer WebrtcTransport}
    (h : IsEnd me peer s) (bus : List BusMessage) : IsEnd me peer (s.withBus bus) :=
  h.sent s.transport.inner.sentParams bus

theorem isEnd_new [UuidCrate] (me peer : ParticipantId) (limiter : RateLimiter) :
    IsEnd me peer (withRateLimiter me (WebrtcTransport.new me peer [] false) limiter) where
  me_eq := rfl
  filter_me := rfl
  inner_me := rfl
  inner_peer := rfl
  registered := rfl
  inner_registered := rfl
  pending := rfl
  no_failure := rfl
  inbox := rfl
  alone := fun _ => rfl
  self_mem := fun hsome => nomatch hsome
  members := fun _ hp => nomatch hp

theorem IsEnd.joined_of_mem {me peer p : ParticipantId} {s : BasicSyncer WebrtcTransport}
    (h : IsEnd me peer s) (hp : p ∈ s.participants.participants) : s.room.isSome = true := by
  cases hroom : s.room with
  | none =>
    rw [h.alone hroom] at hp
    cases hp
  | some room => rfl

theorem IsEnd.others {me peer : ParticipantId} {s : BasicSyncer WebrtcTransport}
    (h : IsEnd me peer s) (hne : me ≠ peer) :
    s.participants.participants.filter (· ≠ me) =
      if peer ∈ s.participants.participants then [peer] else [] := by
  have hpeer : s.participants.participants.filter (· ≠ me) =
      s.participants.participants.filter (· == peer) := by
    refine List.filter_congr fun p hp => ?_
    rcases h.members p hp with rfl | rfl
    · simp [hne]
    · simp [hne.symm]
  rw [hpeer, List.filter_beq, s.participants.nodup_participants.count]
  split <;> rfl

section Moves

variable [UuidCrate] [SerdeJson]

/-- What steps of the end of `me` that do `acts` lead to. -/
structure Moves (me peer : ParticipantId) (s : BasicSyncer WebrtcTransport) (acts : List Act)
    (s' : BasicSyncer WebrtcTransport) : Prop where
  isEnd : IsEnd me peer s'
  proper : Proper me peer s'.bus
  outgoing : inTransit peer s'.bus =
    inTransit peer s.bus ++ (handed acts).map fun m => ⟨peer, me, m.payload⟩
  incoming : (returned acts).filterMap (SyncerEvent.heard peer) ++
      (inTransit me s'.bus).filterMap (·.payload.content) =
    (inTransit me s.bus).filterMap (·.payload.content)
  known : Known peer me s.participants s.bus → Known peer me s'.participants s'.bus
  announces : s'.room.isSome = true → s.room.isSome = true ∨ Announced me peer s'.bus
  stays : s.room.isSome = true → s'.room.isSome = true

variable {me peer : ParticipantId} {s s' s'' : BasicSyncer WebrtcTransport}

theorem Moves.refl (h : IsEnd me peer s) (hbus : Proper me peer s.bus) :
    Moves me peer s [] s where
  isEnd := h
  proper := hbus
  outgoing := by simp
  incoming := by simp
  known := id
  announces := .inl
  stays := id

theorem Moves.trans {acts acts' : List Act} (h : Moves me peer s acts s')
    (h' : Moves me peer s' acts' s'') : Moves me peer s (acts ++ acts') s'' where
  isEnd := h'.isEnd
  proper := h'.proper
  outgoing := by
    rw [h'.outgoing, h.outgoing, handed_append, List.map_append, List.append_assoc]
  incoming := by
    rw [returned_append, List.filterMap_append, List.append_assoc, h'.incoming, h.incoming]
  known := fun hs => h'.known (h.known hs)
  announces := by
    intro hs
    rcases h'.announces hs with hs | hs
    · rcases h.announces hs with hs | hs
      · exact .inl hs
      · refine .inr (hs.mono ?_)
        rw [h'.outgoing]
        exact List.subset_append_left _ _
    · exact .inr hs
  stays := fun hs => h'.stays (h.stays hs)

/-- Only what the calls of an end are made of. -/
def Prim.Own (me : ParticipantId) : Prim WebrtcTransport → Prop
  | .drain | .limit _ _ => True
  | .enter _ p => p = me
  | .send m => ∀ fromId, (TransportEvent.received fromId m.payload).presence = none
  | .push _ | .rebind _ => False

omit [UuidCrate] in
theorem poll_isEnd (h : IsEnd me peer s) (hroom : s.room.isSome = true) :
    s.transport.poll = ((s.withBus (s.bus.filter (·.target ≠ me))).transport,
      (inTransit me s.bus).map WebrtcTransport.receivedOf) := by
  have hreg : s.transport.inner.registered = true := h.inner_registered.trans hroom
  have hpoll : Transport.poll s.transport.inner = s.transport.inner.poll := rfl
  simp only [FilteringTransport.poll, hpoll, WebrtcTransport.poll_eq hreg, h.pending, h.inner_me,
    List.nil_append, withBus, bus, inTransit]

omit [UuidCrate] [SerdeJson] in
theorem inTransit_drained (hne : me ≠ peer) (bus : List BusMessage) :
    inTransit me (bus.filter (·.target ≠ me)) = [] ∧
    inTransit peer (bus.filter (·.target ≠ me)) = inTransit peer bus := by
  constructor
  · simp [inTransit, List.filter_filter]
  · simp only [inTransit, List.filter_filter]
    refine List.filter_congr fun m _ => ?_
    by_cases hm : m.target = peer
    · simp [hm, hne.symm]
    · simp [hm]

theorem drain_moves (hne : me ≠ peer) (h : IsEnd me peer s) (hbus : Proper me peer s.bus) :
    Moves me peer s s.drainTransportEvents.2 s.drainTransportEvents.1 := by
  cases hroom : s.room with
  | none =>
    rw [drain_none hroom]
    exact .refl h hbus
  | some room =>
    have hsome : s.room.isSome = true := by rw [hroom]; rfl
    have hpolled : s.polled.events = (inTransit me s.bus).map WebrtcTransport.receivedOf := by
      simp only [polled, poll_isEnd h hsome, h.inbox, List.nil_append]
    have hpasses := hbus.incoming hne
    have hevents : ∀ ev ∈ s.polled.events,
        ev.presence = none ∨ ev.presence = some (.join peer) := by
      rw [hpolled]
      simp only [List.mem_map]
      rintro _ ⟨m, hm, rfl⟩
      exact (hpasses m hm).2.2
    have hmem := fun q => TransportInbox.mem_processEvents room (q := q) hevents
      s.polled.failureEmitted s.participants
    have hheard := TransportInbox.processEvents_heard room (fun m hm => (hpasses m hm).1)
      s.polled.failureEmitted s.participants
    rw [← hpolled] at hheard
    obtain ⟨hmine, hpeers⟩ := inTransit_drained hne s.bus
    rw [drain_some hroom, poll_isEnd h hsome]
    exact {
      isEnd := ⟨h.me_eq, h.filter_me, h.inner_me, h.inner_peer, h.registered, h.inner_registered,
        h.pending, h.no_failure, rfl, fun hnone => absurd hnone (by simp [hroom]),
        fun _ => (hmem me).mpr (.inl (h.self_mem hsome)), fun p hp => by
          rcases (hmem p).mp hp with hp | ⟨rfl, -⟩
          · exact h.members p hp
          · exact .inr rfl⟩
      proper := fun m hm => hbus m (List.mem_of_mem_filter hm)
      outgoing := by
        simp only [handed_append, handed_map_event, handed_drained, handed_nil, List.append_nil,
          List.map_nil]
        exact hpeers
      incoming := by
        simp only [returned_append, returned_map_event, returned_drained, returned_nil,
          List.append_nil, hheard]
        change _ ++ (inTransit me (s.bus.filter (·.target ≠ me))).filterMap _ = _
        rw [hmine, List.filterMap_nil, List.append_nil]
      known := by
        rintro (hp | ⟨m, hm, hjoin⟩)
        · exact .inl ((hmem peer).mpr (.inl hp))
        · refine .inl ((hmem peer).mpr (.inr ⟨rfl, WebrtcTransport.receivedOf m, ?_, hjoin⟩))
          rw [hpolled]
          exact List.mem_map_of_mem hm
      announces := fun _ => .inl hsome
      stays := fun _ => hsome }

theorem limit_moves {streamKind : StreamKind} {now : Nat} {acts : List Act}
    (h : IsEnd me peer s) (hbus : Proper me peer s.bus)
    (hstep : prim s (.limit streamKind now) = some (s', acts)) : Moves me peer s acts s' := by
  obtain ⟨⟨l, rfl⟩, hacts⟩ := limit_cases hstep
  have hend : IsEnd me peer { s with rateLimiter := l } :=
    ⟨h.me_eq, h.filter_me, h.inner_me, h.inner_peer, h.registered, h.inner_registered, h.pending,
      h.no_failure, h.inbox, h.alone, h.self_mem, h.members⟩
  have hmoves : Moves me peer s [] { s with rateLimiter := l } :=
    ⟨hend, hbus, by simp [bus], by simp [bus], id, .inl, id⟩
  rcases hacts with rfl | rfl
  · exact hmoves
  · exact ⟨hend, hbus, hmoves.outgoing, hmoves.incoming, id, .inl, id⟩

omit [UuidCrate] in
theorem transportSend_eq {m : Message} (h : IsEnd me peer s) (hroom : s.room.isSome = true) :
    s.transportSend m =
      { s with transport := { s.transport with inner :=
        { s.transport.inner with
          sentParams := s.transport.inner.sentParams ++ [.forStream m.kind]
          bus := s.bus ++ [⟨peer, me, m.payload⟩] } } } := by
  have hreg : s.transport.registered = true := h.registered.trans hroom
  have hsend : ∀ target payload params, Transport.send s.transport.inner target payload params =
    s.transport.inner.send target payload params := fun _ _ _ => rfl
  simp only [transportSend, FilteringTransport.send, hreg, if_true, hsend,
    WebrtcTransport.send_eq (h.inner_registered.trans hroom) h.no_failure, h.inner_peer,
    h.inner_me, bus]

theorem send_moves {m : Message} {acts : List Act} (hne : me ≠ peer) (h : IsEnd me peer s)
    (hbus : Proper me peer s.bus)
    (hquiet : ∀ fromId, (TransportEvent.received fromId m.payload).presence = none)
    (hstep : prim s (.send m) = some (s', acts)) : Moves me peer s acts s' := by
  obtain ⟨htarget, rfl, rfl⟩ := send_cases hstep
  have hroom := h.joined_of_mem htarget
  obtain ⟨hmine, hpeers⟩ := inTransit_post hne s.bus m.payload
  rw [transportSend_eq h hroom]
  exact {
    isEnd := h.sent _ _
    proper := hbus.post (.inl (hquiet me))
    outgoing := hpeers
    incoming := by
      simp only [returned_send, returned_nil, List.filterMap_nil, List.nil_append]
      exact congrArg _ hmine
    known := by
      rintro (hp | hp)
      · exact .inl hp
      · exact .inr (hp.mono fun m' hm' => by rwa [← hmine] at hm')
    announces := .inl
    stays := id }

omit [UuidCrate] [SerdeJson] in
/-- An end that has joined, before the peer is told. -/
def entered (s : BasicSyncer WebrtcTransport) (roomId : RoomId) : BasicSyncer WebrtcTransport :=
  { s with
    room := some roomId
    transport := { s.transport with
      registered := true, inner := { s.transport.inner with registered := true } }
    participants := (s.participants.applyJoin s.me).1 }

omit [UuidCrate] [SerdeJson] in
theorem entered_isEnd (h : IsEnd me peer s) (roomId : RoomId) :
    IsEnd me peer (s.entered roomId) where
  me_eq := h.me_eq
  filter_me := h.filter_me
  inner_me := h.inner_me
  inner_peer := h.inner_peer
  registered := rfl
  inner_registered := rfl
  pending := h.pending
  no_failure := h.no_failure
  inbox := h.inbox
  alone := fun hnone => nomatch hnone
  self_mem := fun _ => ParticipantTable.mem_applyJoin.mpr (.inl h.me_eq.symm)
  members := by
    intro p hp
    rcases ParticipantTable.mem_applyJoin.mp hp with rfl | hp
    · exact .inl h.me_eq
    · exact h.members p hp

theorem enterRoom_eq (h : IsEnd me peer s) (roomId : RoomId) :
    s.enterRoom roomId me = ((s.entered roomId).transportSend (joinMessage me me),
      .send (joinMessage me me) :: .joining me ::
        ((s.participants.applyJoin me).2 ++ [SyncerEvent.selfJoined roomId me]).map .event) := by
  have hregister : ∀ p, Transport.registerParticipant s.transport.inner p =
    s.transport.inner.registerParticipant p := fun _ => rfl
  have heq : s.transport.register = { s.transport with
      registered := true, inner := { s.transport.inner with registered := true } } := by
    simp only [FilteringTransport.register, hregister, WebrtcTransport.registerParticipant,
      h.filter_me, h.inner_me, if_true]
  simp only [enterRoom, heq, h.me_eq, entered, transportSend]

theorem enter_moves [LawfulUuid] [LosslessJson] (hne : me ≠ peer) (hfits : JoinFits me)
    (h : IsEnd me peer s) (hbus : Proper me peer s.bus) (roomId : RoomId) :
    Moves me peer s (s.enterRoom roomId me).2 (s.enterRoom roomId me).1 := by
  have hend := entered_isEnd h roomId
  have hpresence : (TransportEvent.received me (joinMessage me me).payload).presence =
      some (.join me) := presence_join hfits
  have hheard : ((s.participants.applyJoin me).2 ++ [SyncerEvent.selfJoined roomId me]).filterMap
      (SyncerEvent.heard peer) = [] := by
    rw [ParticipantTable.events_applyJoin]
    split <;> rfl
  obtain ⟨hmine, hpeers⟩ := inTransit_post hne s.bus (joinMessage me me).payload
  rw [enterRoom_eq h, transportSend_eq hend rfl]
  exact {
    isEnd := hend.sent _ _
    proper := hbus.post (.inr hpresence)
    outgoing := by
      simp only [handed_send, handed_joining, handed_map_event, List.map_cons, List.map_nil]
      exact hpeers
    incoming := by
      simp only [returned_send, returned_joining, returned_map_event, hheard, List.nil_append]
      exact congrArg _ hmine
    known := by
      rintro (hp | hp)
      · exact .inl (ParticipantTable.mem_applyJoin.mpr (.inr hp))
      · exact .inr (hp.mono fun m hm => by rwa [← hmine] at hm)
    announces := by
      refine fun _ => .inr ⟨⟨peer, me, (joinMessage me me).payload⟩, ?_, hpresence⟩
      exact hpeers ▸ List.mem_append_right _ List.mem_cons_self
    stays := fun _ => rfl }

theorem prim_moves [LawfulUuid] [LosslessJson] {a : Prim WebrtcTransport} {acts : List Act}
    (hne : me ≠ peer) (hfits : JoinFits me) (h : IsEnd me peer s)
    (hbus : Proper me peer s.bus) (ha : a.Own me) (hstep : prim s a = some (s', acts)) :
    Moves me peer s acts s' := by
  cases a with
  | drain =>
    have hdrain := drain_moves hne h hbus
    rwa [show s.drainTransportEvents = (s', acts) from Option.some.inj hstep] at hdrain
  | limit streamKind now => exact limit_moves h hbus hstep
  | enter roomId p =>
    cases hstep
    rw [show p = me from ha]
    exact enter_moves hne hfits h hbus roomId
  | send m => exact send_moves hne h hbus ha hstep
  | push ev => exact ha.elim
  | rebind transport => exact ha.elim

theorem runs_moves [LawfulUuid] [LosslessJson] {ps : List (Prim WebrtcTransport)}
    {acts : List Act} (hne : me ≠ peer) (hfits : JoinFits me) (h : IsEnd me peer s)
    (hbus : Proper me peer s.bus) (hps : ∀ a ∈ ps, a.Own me)
    (hruns : Runs prim s ps acts s') : Moves me peer s acts s' := by
  induction hruns with
  | nil => exact .refl h hbus
  | @cons _ _ _ a _ _ _ hstep _ ih =>
    have hfirst := prim_moves hne hfits h hbus (hps a List.mem_cons_self) hstep
    exact hfirst.trans (ih hfirst.isEnd hfirst.proper fun b hb => hps b (List.mem_cons_of_mem a hb))

omit [UuidCrate] [SerdeJson] in
/-- Joins, chats and voice frames in the own name, and `poll_only`. -/
def Call.isOwn (me : ParticipantId) : Call WebrtcTransport → Bool
  | .handle _ (.join _ p) => p = me
  | .handle _ (.sendChat _ ctx) => ctx.participantId = me
  | .handle _ (.sendVoiceFrame _ ctx) => ctx.participantId = me
  | .pollOnly => true
  | .handle _ (.sendPose _ _ _) | .pushTransportEvent _ | .rebindTransport _ => false

theorem own_of_makes [LosslessJson] {call : Call WebrtcTransport} {a : Prim WebrtcTransport}
    (hcall : call.isOwn me = true) (ha : call.Makes a) : a.Own me := by
  cases call with
  | handle now request =>
    cases a with
    | drain => trivial
    | limit streamKind now => trivial
    | enter roomId p =>
      obtain rfl : request = .join roomId p := ha
      exact (of_decide_eq_true hcall : p = me)
    | send m =>
      intro fromId
      cases request with
      | join roomId p => exact ha.elim
      | sendPose p pose ctx => cases hcall
      | sendChat chat ctx =>
        obtain ⟨hv, hpayload⟩ := valid_of_payload ha.2
        rw [hpayload]
        exact presence_chat hv fromId
      | sendVoiceFrame frame ctx =>
        rw [show m.payload = .audioFrame frame from ha.2]
        rfl
    | push ev => exact ha.elim
    | rebind transport => exact ha.elim
  | pollOnly =>
    rw [show a = .drain from ha]
    trivial
  | pushTransportEvent ev => cases hcall
  | rebindTransport transport => cases hcall

theorem call_moves [LawfulUuid] [LosslessJson] {call : Call WebrtcTransport} {acts : List Act}
    (hne : me ≠ peer) (hfits : JoinFits me) (h : IsEnd me peer s)
    (hbus : Proper me peer s.bus) (hcall : call.isOwn me = true)
    (hstep : calls s call = some (s', acts)) : Moves me peer s acts s' := by
  obtain ⟨ps, hps, hmakes⟩ := call_runs hstep
  exact runs_moves hne hfits h hbus (fun a ha => own_of_makes hcall (hmakes a ha)) hps

theorem room_drain (s : BasicSyncer WebrtcTransport) : s.drainTransportEvents.1.room = s.room := by
  cases hroom : s.room with
  | none => rw [drain_none hroom, hroom]
  | some room =>
    rw [drain_some hroom]
    exact hroom

theorem room_handle_join (s : BasicSyncer WebrtcTransport) (now : Nat) (roomId : RoomId)
    (p : ParticipantId) : (s.handle now (.join roomId p)).1.room = some roomId := by
  simp only [handle, handleRequest, room_drain]
  rfl

omit [UuidCrate] in
/-- What a request of a syncer brings to `peer`, as the table is when it is routed: what passes the
rate limiter while `peer` is registered, and of the chats the valid ones that fit an envelope. -/
def admits (s : BasicSyncer WebrtcTransport) (peer : ParticipantId) (now : Nat) :
    SyncerRequest → Option Content
  | .sendChat chat _ =>
    if (s.rateLimit .chat now).2 = none ∧ peer ∈ s.participants.participants ∧
        chat.validate = .ok () ∧ chat.envelope.Fits then some (.chat chat)
    else none
  | .sendVoiceFrame frame _ =>
    if (s.rateLimit .voice now).2 = none ∧ peer ∈ s.participants.participants then
      some (.voice frame)
    else none
  | .join _ _ | .sendPose _ _ _ => none

/-- As `admits`, for a call: `handle` takes in what has arrived before it serves the request. -/
def admitted (s : BasicSyncer WebrtcTransport) (peer : ParticipantId) :
    Call WebrtcTransport → Option Content
  | .handle now request => s.drainTransportEvents.1.admits peer now request
  | .pollOnly | .pushTransportEvent _ | .rebindTransport _ => none

theorem handed_drain (s : BasicSyncer WebrtcTransport) : handed s.drainTransportEvents.2 = [] := by
  cases hroom : s.room with
  | none =>
    rw [drain_none hroom]
    rfl
  | some room =>
    rw [drain_some hroom]
    simp only [handed_append, handed_map_event, handed_drained, handed_nil, List.append_nil]

omit [UuidCrate] in
theorem handed_sendAll (s : BasicSyncer WebrtcTransport) (ms : List Message) :
    handed (s.sendAll ms).2 = ms := by
  induction ms generalizing s with
  | nil => rfl
  | cons m ms ih => simp only [sendAll, handed_send, ih]

theorem handed_handleSend (s : BasicSyncer WebrtcTransport) (streamKind : StreamKind)
    (sender : ParticipantId) (now : Nat) (messages : List Message) :
    handed (s.handleSend streamKind sender now messages).2 =
      if (s.rateLimit streamKind now).2 = none ∧ sender ∈ s.participants.participants then messages
      else [] := by
  have hsame : (s.rateLimit streamKind now).1.participants = s.participants := rfl
  unfold handleSend
  split
  · rename_i s₁ ev heq
    simp [heq, handed_drain]
  · rename_i s₁ heq
    rw [heq] at hsame
    have hreg : s₁.participants.isRegistered sender = true ↔
        sender ∈ s.participants.participants := by
      rw [ParticipantTable.isRegistered_iff, show s₁.participants = s.participants from hsame]
    by_cases hm : sender ∈ s.participants.participants
    · simp [heq, hreg, hm, handed_sendAll, handed_drain]
    · simp [heq, hreg, hm, handed_drain]

omit [UuidCrate] in
theorem handed_chat [LosslessJson] (h : IsEnd me peer s) (hne : me ≠ peer) (chat : ChatMessage) :
    (Outbound.messages (Router.routeChat me chat s.participants)).filterMap (·.payload.content) =
      if peer ∈ s.participants.participants ∧ chat.validate = .ok () ∧ chat.envelope.Fits then
        [.chat chat]
      else [] := by
  simp only [Outbound.messages, Router.routeChat, Router.routeCommon, h.others hne]
  by_cases hpeer : peer ∈ s.participants.participants
  · cases hv : chat.validate with
    | ok u =>
      simp only [hpeer, if_true, List.map_cons, List.map_nil, List.filterMap_cons,
        intoTransportPayload_chat, hv, Except.map, content_chat hv, true_and, List.filterMap_nil]
      by_cases hfits : chat.envelope.Fits
      · simp [hfits]
      · simp [hfits]
    | error e => simp [hpeer, intoTransportPayload_chat, hv, Except.map]
  · simp [hpeer]

omit [UuidCrate] in
theorem handed_voice (h : IsEnd me peer s) (hne : me ≠ peer) (frame : List UInt8) :
    (voiceMessages me frame s.participants).filterMap (·.payload.content) =
      if peer ∈ s.participants.participants then [.voice frame] else [] := by
  simp only [voiceMessages, h.others hne]
  split <;> rfl

theorem handed_own {streamKind : StreamKind} {now : Nat} {messages : List Message}
    (h : IsEnd me peer s) (hpeer : peer ∉ s.participants.participants →
      messages.filterMap (·.payload.content) = []) :
    (handed (s.handleSend streamKind me now messages).2).filterMap (·.payload.content) =
      if (s.rateLimit streamKind now).2 = none then messages.filterMap (·.payload.content)
      else [] := by
  rw [handed_handleSend]
  by_cases hme : me ∈ s.participants.participants
  · simp only [hme, and_true]
    split <;> rfl
  · have hempty := hpeer fun hin => hme (h.self_mem (h.joined_of_mem hin))
    simp [hme, hempty]

theorem handed_request [LawfulUuid] [LosslessJson] (hne : me ≠ peer) (hfits : JoinFits me)
    (h : IsEnd me peer s) {now : Nat} {request : SyncerRequest}
    (hown : (Call.handle now request).isOwn me = true) :
    (handed (s.handleRequest now request).2).filterMap (·.payload.content) =
      (s.admits peer now request).toList := by
  cases request with
  | join roomId p =>
    obtain rfl : p = me := of_decide_eq_true hown
    have hpresence : (TransportEvent.received p (joinMessage p p).payload).presence =
      some (.join p) := presence_join hfits
    simp only [handleRequest, enterRoom_eq h, handed_append, handed_drain, handed_send,
      handed_joining, handed_map_event, List.append_nil, List.filterMap_cons, List.filterMap_nil,
      content_of_presence hpresence, admits, Option.toList_none]
  | sendPose p pose ctx => cases hown
  | sendChat chat ctx =>
    have hsender : ctx.participantId = me := of_decide_eq_true hown
    have hcontent := handed_chat h hne chat
    simp only [handleRequest, hsender, admits]
    rw [handed_own h fun hpeer => by rw [hcontent, if_neg fun hc => hpeer hc.1], hcontent,
      ← ite_and, apply_ite Option.toList]
    rfl
  | sendVoiceFrame frame ctx =>
    have hsender : ctx.participantId = me := of_decide_eq_true hown
    have hcontent := handed_voice h hne frame
    simp only [handleRequest, hsender, admits]
    rw [handed_own h fun hpeer => by rw [hcontent, if_neg hpeer], hcontent, ← ite_and,
      apply_ite Option.toList]
    rfl

theorem handed_call [LawfulUuid] [LosslessJson] {call : Call WebrtcTransport} {acts : List Act}
    (hne : me ≠ peer) (hfits : JoinFits me) (h : IsEnd me peer s)
    (hbus : Proper me peer s.bus) (hcall : call.isOwn me = true)
    (hstep : calls s call = some (s', acts)) :
    (handed acts).filterMap (·.payload.content) = (s.admitted peer call).toList := by
  cases call with
  | handle now request =>
    have hdrained := (drain_moves hne h hbus).isEnd
    obtain rfl : s.drainTransportEvents.2 ++
        (s.drainTransportEvents.1.handleRequest now request).2 = acts :=
      congrArg Prod.snd (Option.some.inj hstep)
    rw [handed_append, handed_drain, List.nil_append, handed_request hne hfits hdrained hcall]
    rfl
  | pollOnly =>
    obtain rfl : s.drainTransportEvents.2 = acts := congrArg Prod.snd (Option.some.inj hstep)
    rw [handed_drain]
    rfl
  | pushTransportEvent ev => cases hcall
  | rebindTransport transport => cases hcall

end Moves

end BasicSyncer

end Syncer
end Bakopa
