import Bakopa.Bloom.Handler

/-!
# Bakopa.Bloom.Atomic

A text is refused with one error, or its request is carried out in full.

`Effect` says what carrying a request out is: the participants of every room, the `room_id` and
everything handed to the two sinks. `text_atomic` is about every core and every handler, also those
that no run of the server reaches.
-/

namespace Bakopa
namespace Bloom

def Sent.IsReply : Sent → Prop
  | .reply _ => True
  | .sendTo _ _ => False

instance : DecidablePred Sent.IsReply := fun m => by
  cases m <;> simp only [Sent.IsReply] <;> infer_instance

section Effect

variable [UuidCrate]

/-- What the request of `p`, whose handler names the room `at_`, comes to: the rooms and the
`room_id` afterwards, and what is sent. -/
inductive Effect (rooms : RoomManager) (p : ParticipantId) (at_ : Option RoomId) (drawn : RoomId) :
    ClientToServer → RoomManager → Option RoomId → List Sent → Prop where
  | createRoom {after : RoomManager} :
      (∀ r, after.participants r = if r = drawn then some [p] else rooms.participants r) →
      Effect rooms p at_ drawn .createRoom after (some drawn)
        [.reply (.roomCreated drawn.toString p.toString)]
  | joinRoom {roomId : String} {r : RoomId} {l : List ParticipantId} {after : RoomManager} :
      RoomId.fromStr roomId = some r → rooms.participants r = some l → RoomManager.Admits l p →
      (∀ r', after.participants r' =
        if r' = r then some (RoomManager.joined l p) else rooms.participants r') →
      Effect rooms p at_ drawn (.joinRoom roomId) after (some r)
        (sendAll (RoomManager.joined l p) (.peerConnected p.toString) ++
          sendAll (RoomManager.joined l p) (.roomParticipants roomId
            ((RoomManager.joined l p).map (·.toString))))
  | leaveRoom {r : RoomId} {l : List ParticipantId} {after : RoomManager} :
      at_ = some r → rooms.participants r = some l →
      (∀ r', after.participants r' =
        if r' = r then
          (if (l.filter (· ≠ p)).isEmpty then none else some (l.filter (· ≠ p)))
        else rooms.participants r') →
      Effect rooms p at_ drawn .leaveRoom after none
        (sendAll (l.filter (· ≠ p)) (.peerDisconnected p.toString) ++
          sendAll (l.filter (· ≠ p)) (.roomParticipants r.toString
            ((l.filter (· ≠ p)).map (·.toString))))
  | relay {message : ClientToServer} {target : String} {event : ServerToClient}
      {t : ParticipantId} {r : RoomId} {l : List ParticipantId} :
      WsHandler.relayed p message = some (target, event) → at_ = some r →
      ParticipantId.fromStr target = some t → rooms.participants r = some l → p ∈ l → t ∈ l →
      Effect rooms p at_ drawn message rooms at_ [.sendTo t event]

/-- The message is refused: one error, and nothing else. -/
def Refused (rooms : RoomManager) (at_ : Option RoomId) (handled : Handled) : Prop :=
  handled.core.rooms = rooms ∧ handled.handler.roomId = at_ ∧
    ∃ code text, handled.sent = [sendError code text]

/-- The request is carried out. -/
def Done (rooms : RoomManager) (p : ParticipantId) (at_ : Option RoomId) (drawn : RoomId)
    (message : ClientToServer) (handled : Handled) : Prop :=
  Effect rooms p at_ drawn message handled.core.rooms handled.handler.roomId handled.sent

namespace WsHandler

variable {core : RealCore} {h : WsHandler} {drawn : RoomId}

theorem handleJoinRoom_outcome (core : RealCore) (h : WsHandler) (drawn : RoomId)
    (roomId : String) :
    Refused core.rooms h.roomId (handleJoinRoom core h roomId) ∨
      Done core.rooms h.participantId h.roomId drawn (.joinRoom roomId)
        (handleJoinRoom core h roomId) := by
  unfold handleJoinRoom
  cases hparse : RoomId.fromStr roomId with
  | none => exact .inl ⟨rfl, rfl, _, _, rfl⟩
  | some r =>
    rcases RoomManager.joinRoom_cases core.rooms r h.participantId with
      ⟨-, hj⟩ | ⟨l, -, -, hj⟩ | ⟨l, hl, ha, hj⟩
    · simp only [hj]
      exact .inl ⟨rfl, rfl, _, _, rfl⟩
    · simp only [hj]
      exact .inl ⟨rfl, rfl, _, _, rfl⟩
    · simp only [hj]
      exact .inr (.joinRoom hparse hl ha fun r' => RoomManager.participants_insert)

theorem handleLeaveRoom_outcome (core : RealCore) (h : WsHandler) (drawn : RoomId) :
    Refused core.rooms h.roomId (handleLeaveRoom core h) ∨
      Done core.rooms h.participantId h.roomId drawn .leaveRoom (handleLeaveRoom core h) := by
  unfold handleLeaveRoom
  cases hr : h.roomId with
  | none => exact .inl ⟨rfl, hr, _, _, rfl⟩
  | some r =>
    cases hl : core.rooms.participants r with
    | none =>
      simp only [RoomManager.leaveRoom_none hl]
      exact .inl ⟨rfl, hr, _, _, rfl⟩
    | some l =>
      have hanswer := RoomManager.leaveRoom_answer (p := h.participantId) hl
      have hrooms : ∀ r', (core.rooms.leaveRoom r h.participantId).1.participants r' = _ :=
        fun r' => RoomManager.participants_leaveRoom hl
      cases hleave : core.rooms.leaveRoom r h.participantId with
      | mk rooms answer =>
        rw [hleave] at hanswer hrooms
        simp only at hanswer
        subst hanswer
        simp only [hleave]
        exact .inr (.leaveRoom rfl hl hrooms)

theorem handleSignaling_outcome {message : ClientToServer} {target : String}
    {event : ServerToClient} (failure : String)
    (hm : relayed h.participantId message = some (target, event)) :
    Refused core.rooms h.roomId ⟨core, h, h.handleSignaling target
        (fun r t => core.relay r h.participantId t event) failure⟩ ∨
      Done core.rooms h.participantId h.roomId drawn message ⟨core, h, h.handleSignaling target
        (fun r t => core.relay r h.participantId t event) failure⟩ := by
  unfold handleSignaling
  cases hr : h.roomId with
  | none => exact .inl ⟨rfl, hr, _, _, rfl⟩
  | some r =>
    cases ht : ParticipantId.fromStr target with
    | none => exact .inl ⟨rfl, hr, _, _, rfl⟩
    | some t =>
      cases hl : core.rooms.participants r with
      | none =>
        simp only [RealCore.relay, hl]
        exact .inl ⟨rfl, hr, _, _, rfl⟩
      | some l =>
        by_cases hin : h.participantId ∉ l ∨ t ∉ l
        · simp only [RealCore.relay, hl, if_pos hin]
          exact .inl ⟨rfl, hr, _, _, rfl⟩
        · simp only [RealCore.relay, hl, if_neg hin]
          rw [not_or, not_not, not_not] at hin
          have heffect : Effect core.rooms h.participantId (some r) drawn message core.rooms
            (some r) [.sendTo t event] := .relay hm rfl ht hl hin.1 hin.2
          exact .inr (by rw [Done, hr]; exact heffect)

theorem handleMessage_outcome (core : RealCore) (h : WsHandler) (drawn : RoomId)
    (message : ClientToServer) :
    Refused core.rooms h.roomId (handleMessage core h drawn message) ∨
      Done core.rooms h.participantId h.roomId drawn message
        (handleMessage core h drawn message) := by
  cases message with
  | createRoom => exact .inr (.createRoom fun r => RoomManager.participants_createRoom)
  | joinRoom roomId => exact handleJoinRoom_outcome core h drawn roomId
  | leaveRoom => exact handleLeaveRoom_outcome core h drawn
  | offer target payload => exact handleSignaling_outcome "failed to relay offer" rfl
  | answer target payload => exact handleSignaling_outcome "failed to relay answer" rfl
  | iceCandidate target payload => exact handleSignaling_outcome "failed to relay ice" rfl

theorem handleTextMessage_outcome [BloomJson] (core : RealCore) (h : WsHandler) (now : Nat)
    (drawn : RoomId) (text : String) :
    Refused core.rooms h.roomId (handleTextMessage core h now drawn text) ∨
      ∃ message, h.request now text = some message ∧
        Done core.rooms h.participantId h.roomId drawn message
          (handleTextMessage core h now drawn text) := by
  obtain ⟨limiter, ⟨-, code, reason, hh, -⟩ | ⟨message, hm, hh⟩⟩ :=
    handleTextMessage_request core h now drawn text
  · rw [hh]
    exact .inl ⟨rfl, rfl, code, reason, rfl⟩
  · rw [hh]
    rcases handleMessage_outcome core { h with rateLimiter := limiter } drawn message with
      hrefused | hdone
    · exact .inl hrefused
    · exact .inr ⟨message, hm, hdone⟩

end WsHandler

variable {rooms after : RoomManager} {p : ParticipantId} {at_ to_ : Option RoomId} {drawn : RoomId}
  {message : ClientToServer} {sent : List Sent}

omit [UuidCrate] in
theorem not_isReply_of_mem_sendAll {l : List ParticipantId} {event : ServerToClient} {m : Sent}
    (hm : m ∈ sendAll l event) : ¬ m.IsReply := by
  obtain ⟨q, -, rfl⟩ := List.mem_map.mp hm
  exact id

theorem Effect.reply_eq (he : Effect rooms p at_ drawn message after to_ sent) {m : Sent}
    (hm : m ∈ sent) (hreply : m.IsReply) :
    sent = [.reply (.roomCreated drawn.toString p.toString)] := by
  cases he with
  | createRoom => rfl
  | joinRoom =>
    rcases List.mem_append.mp hm with hm | hm
    · exact absurd hreply (not_isReply_of_mem_sendAll hm)
    · exact absurd hreply (not_isReply_of_mem_sendAll hm)
  | leaveRoom =>
    rcases List.mem_append.mp hm with hm | hm
    · exact absurd hreply (not_isReply_of_mem_sendAll hm)
    · exact absurd hreply (not_isReply_of_mem_sendAll hm)
  | relay =>
    rw [List.mem_singleton] at hm
    rw [hm] at hreply
    exact hreply.elim

theorem Effect.count_replies_le (he : Effect rooms p at_ drawn message after to_ sent) :
    (sent.filter (·.IsReply)).length ≤ 1 := by
  cases hl : sent.filter (·.IsReply) with
  | nil => exact Nat.zero_le 1
  | cons m rest =>
    have hm : m ∈ sent.filter (·.IsReply) := by rw [hl]; exact List.mem_cons_self
    rw [List.mem_filter, decide_eq_true_eq] at hm
    rw [← hl, he.reply_eq hm.1 hm.2]
    exact Nat.le_refl 1

theorem Effect.not_error (he : Effect rooms p at_ drawn message after to_ sent) (code : ErrorCode)
    (text : String) : sendError code text ∉ sent := by
  intro hm
  have hsent := he.reply_eq hm trivial
  rw [hsent, List.mem_singleton] at hm
  cases hm

/-- On every core and every handler, a text is answered by at most one message. Either that is an
error, and then the rooms, the `room_id` and the participant are as before and nothing else is
sent; or no error is sent, and the request is carried out in full. -/
theorem text_atomic [BloomJson] (core : RealCore) (h : WsHandler) (now : Nat) (drawn : RoomId)
    (text : String) :
    let handled := h.handleTextMessage core now drawn text
    (handled.sent.filter (·.IsReply)).length ≤ 1 ∧
    handled.handler.participantId = h.participantId ∧
    ((handled.core.rooms = core.rooms ∧ handled.handler.roomId = h.roomId ∧
        ∃ code reason, handled.sent = [sendError code reason]) ∨
      (∀ code reason, sendError code reason ∉ handled.sent) ∧
        ∃ message, h.request now text = some message ∧
          Effect core.rooms h.participantId h.roomId drawn message handled.core.rooms
            handled.handler.roomId handled.sent) := by
  intro handled
  have hpid := (h.handleTextMessage_move core now drawn text).2
  rcases h.handleTextMessage_outcome core now drawn text with hrefused | ⟨message, hm, hdone⟩
  · refine ⟨?_, hpid, .inl hrefused⟩
    obtain ⟨-, -, code, reason, hsent⟩ := hrefused
    rw [hsent]
    exact Nat.le_refl 1
  · exact ⟨hdone.count_replies_le, hpid, .inr ⟨hdone.not_error, message, hm, hdone⟩⟩

end Effect

end Bloom
end Bakopa
