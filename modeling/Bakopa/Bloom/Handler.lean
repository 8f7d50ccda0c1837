import Bakopa.Bloom.RateLimit
import Bakopa.Bloom.RealCore

/-!
# Bakopa.Bloom.Handler

`WsHandler` of `bloom/ws/src/handler.rs`: one connection's share of the signaling server. The core
is shared by all handlers, so a step takes it and returns it; what a step hands to the handler's
own sink and to the broadcast sink is returned in program order (`Sent`).

`Move` says what a step does to the rooms and to the handler's `room_id`, and
`handleTextMessage_move`, `handleAbnormalClose_move` that every step is one. What a move does to
the membership of a participant is in `mem_members_own` (the one who moves) and
`mem_members_other`.
-/

namespace Bakopa
namespace Bloom

structure WsHandler where
  participantId : ParticipantId
  roomId : Option RoomId
  rateLimiter : Option RateLimiter

inductive Sent where
  /-- `self.sink.send` -/
  | reply (message : ServerToClient)
  /-- `self.broadcast.send_to` -/
  | sendTo (target : ParticipantId) (message : ServerToClient)
deriving DecidableEq, Repr

structure Handled where
  core : RealCore
  handler : WsHandler
  sent : List Sent

def sendError (code : ErrorCode) (message : String) : Sent := .reply (.error code message)

/-- The same message to every participant of a list, in its order. -/
def sendAll (participants : List ParticipantId) (message : ServerToClient) : List Sent :=
  participants.map fun p => .sendTo p message

namespace WsHandler

def new (participantId : ParticipantId) : WsHandler where
  participantId := participantId
  roomId := none
  rateLimiter := some (.fromConfig {})

def withRateLimiter (participantId : ParticipantId) (rateLimiter : RateLimiter) : WsHandler where
  participantId := participantId
  roomId := none
  rateLimiter := some rateLimiter

/-- The flag is `true` when the message is to be dropped. -/
def isRateLimited (h : WsHandler) (now : Nat) : WsHandler × List Sent × Bool :=
  match h.rateLimiter with
  | some limiter =>
    let (limiter, decision) := limiter.check now
    let h := { h with rateLimiter := some limiter }
    if !decision.allowed then (h, [sendError .rateLimited "rate limited"], decision.shouldDrop)
    else (h, [], false)
  | none => (h, [], false)

section Steps

variable [UuidCrate]

def broadcastRoomParticipants (roomIdStr : String) (participants : List ParticipantId) :
    List Sent :=
  sendAll participants (.roomParticipants roomIdStr (participants.map (·.toString)))

/-- What the members that remain are told when `left` has gone from room `r`. -/
def broadcastLeft (left : ParticipantId) (r : RoomId) (remaining : List ParticipantId) :
    List Sent :=
  sendAll remaining (.peerDisconnected left.toString) ++
    sendAll remaining (.roomParticipants r.toString (remaining.map (·.toString)))

/-- The `CreateRoom` arm; `drawn` is what `RoomId::new` returns. -/
def handleCreateRoom (core : RealCore) (h : WsHandler) (drawn : RoomId) : Handled :=
  let (rooms, result) := core.rooms.createRoom drawn h.participantId
  { core := ⟨rooms⟩
    handler := { h with roomId := some result.roomId }
    sent := [.reply (.roomCreated result.roomId.toString result.selfId.toString)] }

def handleJoinRoom (core : RealCore) (h : WsHandler) (roomId : String) : Handled :=
  match RoomId.fromStr roomId with
  | none => ⟨core, h, [sendError .invalidPayload "invalid room_id"]⟩
  | some roomIdParsed =>
    match core.rooms.joinRoom roomIdParsed h.participantId with
    | (rooms, some (.ok participants)) =>
      { core := ⟨rooms⟩
        handler := { h with roomId := some roomIdParsed }
        sent := sendAll participants (.peerConnected h.participantId.toString) ++
          broadcastRoomParticipants roomId participants }
    | (rooms, some (.error .roomFull)) => ⟨⟨rooms⟩, h, [sendError .roomFull "room is full"]⟩
    | (rooms, none) => ⟨⟨rooms⟩, h, [sendError .roomNotFound "room not found"]⟩

def handleLeaveRoom (core : RealCore) (h : WsHandler) : Handled :=
  match h.roomId with
  | none => ⟨core, h, [sendError .invalidPayload "room_id not set"]⟩
  | some roomId =>
    match core.rooms.leaveRoom roomId h.participantId with
    | (rooms, some remaining) =>
      { core := ⟨rooms⟩
        handler := { h with roomId := none }
        sent := broadcastLeft h.participantId roomId remaining }
    | (rooms, none) => ⟨⟨rooms⟩, h, [sendError .internal "room not found"]⟩

/-- The three signaling handlers share their checks; `relay` is the core's function and `failure`
the text of its error. -/
def handleSignaling (h : WsHandler) (target : String)
    (relay : RoomId → ParticipantId → Except ErrorCode RelayAction) (failure : String) :
    List Sent :=
  match h.roomId with
  | none => [sendError .invalidPayload "room_id not set"]
  | some roomId =>
    match ParticipantId.fromStr target with
    | none => [sendError .invalidPayload "invalid to id"]
    | some targetId =>
      match relay roomId targetId with
      | .ok action => [.sendTo action.target action.message]
      | .error code => [sendError code failure]

def handleSignalingOffer (core : RealCore) (h : WsHandler) (target : String)
    (payload : RelaySdp) : List Sent :=
  h.handleSignaling target (fun r t => core.relayOffer r h.participantId t payload)
    "failed to relay offer"

def handleSignalingAnswer (core : RealCore) (h : WsHandler) (target : String)
    (payload : RelaySdp) : List Sent :=
  h.handleSignaling target (fun r t => core.relayAnswer r h.participantId t payload)
    "failed to relay answer"

def handleSignalingIce (core : RealCore) (h : WsHandler) (target : String)
    (payload : RelayIce) : List Sent :=
  h.handleSignaling target (fun r t => core.relayIceCandidate r h.participantId t payload)
    "failed to relay ice"

def handleMessage (core : RealCore) (h : WsHandler) (drawn : RoomId) :
    ClientToServer → Handled
  | .createRoom => handleCreateRoom core h drawn
  | .joinRoom roomId => handleJoinRoom core h roomId
  | .leaveRoom => handleLeaveRoom core h
  | .offer target payload => ⟨core, h, handleSignalingOffer core h target payload⟩
  | .answer target payload => ⟨core, h, handleSignalingAnswer core h target payload⟩
  | .iceCandidate target payload => ⟨core, h, handleSignalingIce core h target payload⟩

def handleTextMessage [BloomJson] (core : RealCore) (h : WsHandler) (now : Nat) (drawn : RoomId)
    (text : String) : Handled :=
  let (h, limited, drop) := h.isRateLimited now
  if drop then ⟨core, h, limited⟩
  else
    match BloomJson.clientFromStr text with
    | none => ⟨core, h, limited ++ [sendError .invalidPayload "invalid payload"]⟩
    | some message =>
      let handled := handleMessage core h drawn message
      { handled with sent := limited ++ handled.sent }

def handleAbnormalClose (core : RealCore) (h : WsHandler) : Handled :=
  match h.roomId with
  | none => ⟨core, h, []⟩
  | some roomId =>
    let (rooms, remaining) := core.rooms.leaveRoom roomId h.participantId
    { core := ⟨rooms⟩
      handler := { h with roomId := none }
      sent :=
        match remaining with
        | some rem => broadcastLeft h.participantId roomId rem
        | none => [] }

/-- The binary-frame arm of `process_messages`: the room id is forgotten, the core is not asked. -/
def handleBinary (h : WsHandler) : WsHandler := { h with roomId := none }

/-- The request that gets past the limiter and the parser, if any. -/
def request [BloomJson] (h : WsHandler) (now : Nat) (text : String) : Option ClientToServer :=
  if (h.isRateLimited now).2.2 then none else BloomJson.clientFromStr text

omit [UuidCrate] in
theorem isRateLimited_handler (h : WsHandler) (now : Nat) :
    ∃ limiter, (h.isRateLimited now).1 = { h with rateLimiter := limiter } := by
  unfold isRateLimited
  cases h.rateLimiter with
  | none => exact ⟨h.rateLimiter, rfl⟩
  | some limiter =>
    simp only []
    split <;> exact ⟨_, rfl⟩

omit [UuidCrate] in
theorem isRateLimited_cases (h : WsHandler) (now : Nat) :
    (h.isRateLimited now).2 = ([], false) ∨
    (h.isRateLimited now).2 = ([sendError .rateLimited "rate limited"], true) := by
  unfold isRateLimited
  cases h.rateLimiter with
  | none => exact .inl rfl
  | some limiter =>
    simp only []
    split
    · rename_i hd
      have := limiter.check_shouldDrop now
      rw [hd] at this
      exact .inr (by rw [this])
    · exact .inl rfl

/-- A text is either answered with one error, or handled as its request. -/
theorem handleTextMessage_request [BloomJson] (core : RealCore) (h : WsHandler) (now : Nat)
    (drawn : RoomId) (text : String) :
    ∃ limiter,
      (h.request now text = none ∧ ∃ code message,
        handleTextMessage core h now drawn text =
          ⟨core, { h with rateLimiter := limiter }, [sendError code message]⟩ ∧
        code ≠ .internal) ∨
      ∃ message, h.request now text = some message ∧
        handleTextMessage core h now drawn text =
          handleMessage core { h with rateLimiter := limiter } drawn message := by
  obtain ⟨limiter, hl⟩ := h.isRateLimited_handler now
  refine ⟨limiter, ?_⟩
  unfold handleTextMessage request
  rcases h.isRateLimited_cases now with hc | hc
  · simp only [hl, hc]
    cases BloomJson.clientFromStr text with
    | none => exact .inl ⟨rfl, .invalidPayload, _, rfl, by decide⟩
    | some message => exact .inr ⟨message, rfl, by simp⟩
  · simp only [hl, hc]
    exact .inl ⟨rfl, .rateLimited, _, rfl, by decide⟩

end Steps

end WsHandler

/-- What a step does to the rooms and to the `room_id` of the handler that takes it. -/
inductive Move where
  | create (drawn : RoomId)
  | join (r : RoomId)
  | leave (r : RoomId)
  | forget
  | stay

namespace Move

def apply (p : ParticipantId) (rooms : RoomManager) (at_ : Option RoomId) :
    Move → RoomManager × Option RoomId
  | .create drawn => ((rooms.createRoom drawn p).1, some drawn)
  | .join r => ((rooms.joinRoom r p).1, some r)
  | .leave r => ((rooms.leaveRoom r p).1, none)
  | .forget => (rooms, none)
  | .stay => (rooms, at_)

/-- When a move is made: a join only of a room that admits, a leave only of the handler's room.
`RoomId::new` never repeats, so what it draws is not the id of an existing room. -/
def Enabled (p : ParticipantId) (rooms : RoomManager) (at_ : Option RoomId) : Move → Prop
  | .create drawn => rooms.participants drawn = none
  | .join r => ∃ l, rooms.participants r = some l ∧ RoomManager.Admits l p
  | .leave r => at_ = some r
  | .forget | .stay => True

/-- Whether room `r` lists the one who moves afterwards, given whether it did before. -/
def Lists (r : RoomId) (before : Prop) : Move → Prop
  | .create drawn => r = drawn ∨ before
  | .join r' => r = r' ∨ before
  | .leave r' => r ≠ r' ∧ before
  | .forget | .stay => before

variable {p q : ParticipantId} {rooms : RoomManager} {at_ : Option RoomId} {mv : Move}
  {r : RoomId}

theorem mem_members_own (h : mv.Enabled p rooms at_) :
    p ∈ (mv.apply p rooms at_).1.members r ↔ mv.Lists r (p ∈ rooms.members r) := by
  cases mv with
  | create drawn =>
    simp only [apply, Lists, RoomManager.members_createRoom]
    split <;> rename_i hr <;> simp [hr]
  | join r' =>
    obtain ⟨l, hl, ha⟩ := h
    simp only [apply, Lists, RoomManager.members_joinRoom_ok hl ha]
    split <;> rename_i hr
    · simp [hr, RoomManager.mem_joined]
    · simp [hr]
  | leave r' =>
    simp only [apply, Lists, RoomManager.members_leaveRoom]
    split <;> rename_i hr <;> simp [hr]
  | forget => rfl
  | stay => rfl

theorem mem_members_other (h : mv.Enabled p rooms at_) (hq : q ≠ p) :
    q ∈ (mv.apply p rooms at_).1.members r ↔ q ∈ rooms.members r := by
  cases mv with
  | create drawn =>
    simp only [apply, RoomManager.members_createRoom]
    split
    · rename_i hr
      subst hr
      have : rooms.members r = [] := by
        change rooms.participants r = none at h
        simp [RoomManager.members, h]
      simp [this, hq]
    · rfl
  | join r' =>
    obtain ⟨l, hl, ha⟩ := h
    simp only [apply, RoomManager.members_joinRoom_ok hl ha]
    split
    · rename_i hr
      subst hr
      rw [RoomManager.mem_joined, RoomManager.members_of_participants hl]
      simp [hq]
    · rfl
  | leave r' =>
    simp only [apply, RoomManager.members_leaveRoom]
    split
    · rename_i hr
      subst hr
      simp [hq]
    · rfl
  | forget => rfl
  | stay => rfl

theorem participants_ne_nil (h : mv.Enabled p rooms at_)
    (hrooms : ∀ r, rooms.participants r ≠ some []) :
    (mv.apply p rooms at_).1.participants r ≠ some [] := by
  cases mv with
  | create drawn =>
    simp only [apply, RoomManager.participants_createRoom]
    split
    · simp
    · exact hrooms r
  | join r' =>
    obtain ⟨l, hl, ha⟩ := h
    simp only [apply, RoomManager.participants_joinRoom_ok hl ha]
    split
    · have hp : p ∈ RoomManager.joined l p := RoomManager.mem_joined.mpr (.inr rfl)
      intro he
      rw [Option.some.inj he] at hp
      cases hp
    · exact hrooms r
  | leave r' =>
    cases hl : rooms.participants r' with
    | none => simp only [apply, RoomManager.leaveRoom_none hl]; exact hrooms r
    | some l =>
      simp only [apply, RoomManager.participants_leaveRoom hl]
      split
      · split
        · simp
        · rename_i he
          intro heq
          rw [Option.some.inj heq] at he
          exact he rfl
      · exact hrooms r
  | forget => exact hrooms r
  | stay => exact hrooms r

end Move

namespace WsHandler

section Moves

variable [UuidCrate]

/-- The move a request makes. -/
def moveOf (rooms : RoomManager) (h : WsHandler) (drawn : RoomId) : Option ClientToServer → Move
  | some .createRoom => .create drawn
  | some (.joinRoom roomId) =>
    match RoomId.fromStr roomId with
    | none => .stay
    | some r =>
      match rooms.participants r with
      | none => .stay
      | some l => if RoomManager.Admits l h.participantId then .join r else .stay
  | some .leaveRoom =>
    match h.roomId with
    | none => .stay
    | some r => if (rooms.participants r).isSome then .leave r else .stay
  | _ => .stay

theorem handleMessage_move (core : RealCore) (h : WsHandler) (drawn : RoomId)
    (message : ClientToServer) :
    ((handleMessage core h drawn message).core.rooms,
      (handleMessage core h drawn message).handler.roomId) =
      (moveOf core.rooms h drawn (some message)).apply h.participantId core.rooms h.roomId ∧
    (handleMessage core h drawn message).handler.participantId = h.participantId := by
  cases message with
  | createRoom => exact ⟨rfl, rfl⟩
  | joinRoom roomId =>
    simp only [handleMessage, handleJoinRoom, moveOf]
    cases RoomId.fromStr roomId with
    | none => exact ⟨rfl, rfl⟩
    | some r =>
      simp only []
      rcases RoomManager.joinRoom_cases core.rooms r h.participantId with
        ⟨hl, hj⟩ | ⟨l, hl, ha, hj⟩ | ⟨l, hl, ha, hj⟩
      · simp only [hj, hl]; exact ⟨rfl, trivial⟩
      · simp only [hj, hl, if_neg ha]; exact ⟨rfl, trivial⟩
      · simp only [hl, if_pos ha, Move.apply]
        rw [hj]; exact ⟨rfl, rfl⟩
  | leaveRoom =>
    simp only [handleMessage, handleLeaveRoom, moveOf]
    cases hr : h.roomId with
    | none => exact ⟨by simp [Move.apply, hr], rfl⟩
    | some r =>
      simp only []
      cases hl : core.rooms.participants r with
      | none =>
        simp only [RoomManager.leaveRoom_none hl, Option.isSome_none, Bool.false_eq_true, if_false]
        exact ⟨by simp [Move.apply, hr], trivial⟩
      | some l =>
        have ha := RoomManager.leaveRoom_answer (p := h.participantId) hl
        cases hleave : core.rooms.leaveRoom r h.participantId with
        | mk rooms answer =>
          rw [hleave] at ha
          simp only at ha
          subst ha
          simp only [Option.isSome_some, if_true, Move.apply, hleave]
          exact ⟨trivial, trivial⟩
  | offer target payload => exact ⟨rfl, rfl⟩
  | answer target payload => exact ⟨rfl, rfl⟩
  | iceCandidate target payload => exact ⟨rfl, rfl⟩

theorem handleTextMessage_move [BloomJson] (core : RealCore) (h : WsHandler) (now : Nat)
    (drawn : RoomId) (text : String) :
    ((handleTextMessage core h now drawn text).core.rooms,
      (handleTextMessage core h now drawn text).handler.roomId) =
      (moveOf core.rooms h drawn (h.request now text)).apply h.participantId core.rooms
        h.roomId ∧
    (handleTextMessage core h now drawn text).handler.participantId = h.participantId := by
  obtain ⟨limiter, ⟨hreq, code, message, hh, -⟩ | ⟨message, hreq, hh⟩⟩ :=
    handleTextMessage_request core h now drawn text
  · rw [hh, hreq]; exact ⟨rfl, rfl⟩
  · rw [hh, hreq]
    exact handleMessage_move core { h with rateLimiter := limiter } drawn message

theorem moveOf_enabled {core : RealCore} {h : WsHandler} {drawn : RoomId}
    {req : Option ClientToServer}
    (hdrawn : req = some .createRoom → core.rooms.participants drawn = none) :
    (moveOf core.rooms h drawn req).Enabled h.participantId core.rooms h.roomId := by
  match req with
  | none => trivial
  | some .createRoom => exact hdrawn rfl
  | some (.joinRoom roomId) =>
    simp only [moveOf]
    split
    · trivial
    · split
      · trivial
      · rename_i l hl
        split
        · rename_i ha
          exact ⟨l, hl, ha⟩
        · trivial
  | some .leaveRoom =>
    simp only [moveOf]
    split
    · trivial
    · rename_i r hr
      split
      · exact hr
      · trivial
  | some (.offer _ _) => trivial
  | some (.answer _ _) => trivial
  | some (.iceCandidate _ _) => trivial

/-- The move of an abnormal close: out of the handler's room, whatever that room is. -/
def closeMove (h : WsHandler) : Move :=
  match h.roomId with
  | none => .stay
  | some r => .leave r

theorem handleAbnormalClose_move (core : RealCore) (h : WsHandler) :
    ((handleAbnormalClose core h).core.rooms, (handleAbnormalClose core h).handler.roomId) =
      h.closeMove.apply h.participantId core.rooms h.roomId ∧
    (handleAbnormalClose core h).handler.participantId = h.participantId := by
  unfold handleAbnormalClose closeMove
  cases hr : h.roomId with
  | none => exact ⟨by simp [Move.apply, hr], rfl⟩
  | some r => exact ⟨rfl, rfl⟩

omit [UuidCrate] in
theorem closeMove_enabled (core : RealCore) (h : WsHandler) :
    h.closeMove.Enabled h.participantId core.rooms h.roomId := by
  unfold closeMove
  cases hr : h.roomId with
  | none => trivial
  | some r => rfl

end Moves

section Listed

variable [UuidCrate] {core : RealCore} {h : WsHandler} {r : RoomId}

theorem handleLeaveRoom_listed (hr : h.roomId = some r)
    (hp : h.participantId ∈ core.rooms.members r) :
    handleLeaveRoom core h =
      { core := ⟨(core.rooms.leaveRoom r h.participantId).1⟩
        handler := { h with roomId := none }
        sent := broadcastLeft h.participantId r
          ((core.rooms.members r).filter (· ≠ h.participantId)) } := by
  obtain ⟨l, hl, -⟩ := RoomManager.exists_of_mem_members hp
  have ha := RoomManager.leaveRoom_answer (p := h.participantId) hl
  rw [RoomManager.members_of_participants hl]
  simp only [handleLeaveRoom, hr]
  cases hleave : core.rooms.leaveRoom r h.participantId with
  | mk rooms answer =>
    rw [hleave] at ha
    simp only at ha
    subst ha
    rfl

/-- Whom an offer, an answer or a candidate is for, and what that participant is told. -/
def relayed (sender : ParticipantId) : ClientToServer → Option (String × ServerToClient)
  | .offer target payload => some (target, shapeOfferEvent sender payload)
  | .answer target payload => some (target, shapeAnswerEvent sender payload)
  | .iceCandidate target payload => some (target, shapeIceEvent sender payload)
  | .createRoom | .joinRoom _ | .leaveRoom => none

theorem handleSignaling_listed {target : String} {t : ParticipantId} {event : ServerToClient}
    (failure : String) (hr : h.roomId = some r) (hp : h.participantId ∈ core.rooms.members r)
    (ht : ParticipantId.fromStr target = some t) :
    h.handleSignaling target (fun r t => core.relay r h.participantId t event) failure =
      if t ∈ core.rooms.members r then [.sendTo t event]
      else [sendError .participantNotFound failure] := by
  simp only [handleSignaling, hr, ht, RealCore.relay_of_mem hp]
  by_cases hin : t ∈ core.rooms.members r
  · simp only [if_pos hin]
  · simp only [if_neg hin]

/-- A relay reaches its target, or is refused because the target is not in the room. -/
theorem handleMessage_relayed (drawn : RoomId) {message : ClientToServer} {target : String}
    {t : ParticipantId} {event : ServerToClient}
    (hm : relayed h.participantId message = some (target, event)) (hr : h.roomId = some r)
    (hp : h.participantId ∈ core.rooms.members r) (ht : ParticipantId.fromStr target = some t) :
    ∃ failure, (handleMessage core h drawn message).sent =
      if t ∈ core.rooms.members r then [.sendTo t event]
      else [sendError .participantNotFound failure] := by
  cases message with
  | createRoom => cases hm
  | joinRoom roomId => cases hm
  | leaveRoom => cases hm
  | offer target payload =>
    cases hm
    exact ⟨_, handleSignaling_listed "failed to relay offer" hr hp ht⟩
  | answer target payload =>
    cases hm
    exact ⟨_, handleSignaling_listed "failed to relay answer" hr hp ht⟩
  | iceCandidate target payload =>
    cases hm
    exact ⟨_, handleSignaling_listed "failed to relay ice" hr hp ht⟩

omit [UuidCrate] in
theorem internal_not_mem_sendAll (l : List ParticipantId) (message : ServerToClient)
    (text : String) : sendError .internal text ∉ sendAll l message := by
  simp [sendAll, sendError]

omit [UuidCrate] in
theorem relay_error_code {sender t : ParticipantId} {event : ServerToClient} {code : ErrorCode}
    (he : core.relay r sender t event = .error code) : code = .participantNotFound := by
  simp only [RealCore.relay] at he
  split at he
  · cases he; rfl
  · split at he
    · cases he; rfl
    · cases he

theorem handleSignaling_not_internal {target failure : String} {event : ServerToClient}
    (text : String) :
    sendError .internal text ∉
      h.handleSignaling target (fun r t => core.relay r h.participantId t event) failure := by
  simp only [handleSignaling]
  split
  · simp [sendError]
  · split
    · simp [sendError]
    · split
      · simp [sendError]
      · rename_i he
        rw [relay_error_code he]
        simp [sendError]

/-- The one internal error is a leave of a room that is gone. -/
theorem handleMessage_not_internal {drawn : RoomId} (message : ClientToServer) (text : String)
    (hheld : ∀ r, h.roomId = some r → h.participantId ∈ core.rooms.members r) :
    sendError .internal text ∉ (handleMessage core h drawn message).sent := by
  cases message with
  | createRoom => simp [handleMessage, handleCreateRoom, sendError]
  | joinRoom roomId =>
    simp only [handleMessage, handleJoinRoom]
    split
    · simp [sendError]
    · split
      · simp [internal_not_mem_sendAll, broadcastRoomParticipants]
      · simp [sendError]
      · simp [sendError]
  | leaveRoom =>
    cases hr : h.roomId with
    | none => simp [handleMessage, handleLeaveRoom, hr, sendError]
    | some r =>
      simp only [handleMessage, handleLeaveRoom_listed hr (hheld r hr), broadcastLeft]
      simp [internal_not_mem_sendAll]
  | offer target payload => exact handleSignaling_not_internal text
  | answer target payload => exact handleSignaling_not_internal text
  | iceCandidate target payload => exact handleSignaling_not_internal text

theorem peerDisconnected_mem_handleAbnormalClose {q : ParticipantId} :
    .sendTo q (.peerDisconnected h.participantId.toString) ∈ (handleAbnormalClose core h).sent ↔
      ∃ r, h.roomId = some r ∧ q ∈ core.rooms.members r ∧ q ≠ h.participantId := by
  unfold handleAbnormalClose
  cases hr : h.roomId with
  | none => simp
  | some r =>
    cases hl : core.rooms.participants r with
    | none => simp [RoomManager.leaveRoom_none hl, RoomManager.members, hl]
    | some l =>
      have ha := RoomManager.leaveRoom_answer (p := h.participantId) hl
      have hm := RoomManager.members_of_participants hl
      cases hleave : core.rooms.leaveRoom r h.participantId with
      | mk rooms answer =>
        rw [hleave] at ha
        simp only at ha
        subst ha
        simp [hleave, hm, broadcastLeft, sendAll]

end Listed

end WsHandler

end Bloom
end Bakopa
