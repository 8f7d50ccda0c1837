import Bakopa.Bloom.Handlers
import Bakopa.Bloom.RoomModel

/-!
# Bakopa.Bloom.Notices

Whom a step tells what.

* `Notices`      — what a step hands out is fixed by the move it makes and the rooms after it.
* `Announced`    — the members of a room are told of exactly the membership changes in it. It holds
  of a step unless the step is `Misheard` (`announced_iff`).
* `rooms_isolated` — what a step hands out stays in the room it acts on, and no other room changes.
-/

namespace Bakopa
namespace Bloom

open Lib

/-- An offer, an answer or a candidate, on its way to its target. -/
def ServerToClient.IsRelay : ServerToClient → Prop
  | .offer _ _ | .answer _ _ | .iceCandidate _ _ => True
  | _ => False

/-- The room a move makes, enters or leaves. -/
def Move.room : Move → Option RoomId
  | .create r | .join r | .leave r => some r
  | .forget | .stay => none

def Move.calls (p : ParticipantId) : Move → List RoomCall
  | .create r => [.createRoom r p]
  | .join r => [.joinRoom r p]
  | .leave r => [.leaveRoom r p]
  | .forget | .stay => []

theorem RoomManager.calls_append (m : RoomManager) (cs ds : List RoomCall) :
    (m.calls (cs ++ ds)).1 = ((m.calls cs).1.calls ds).1 := by
  induction cs generalizing m with
  | nil => rfl
  | cons c cs ih => exact ih _

section Notices

variable [UuidCrate]

/-- What `p`, whose handler names the room `at_`, hands out with the request `req` and the move;
`after` are the rooms afterwards. -/
inductive Notices (p : ParticipantId) (at_ : Option RoomId) (req : Option ClientToServer)
    (after : RoomManager) : Move → List Sent → Prop where
  | create {drawn : RoomId} (message : ServerToClient) :
      Notices p at_ req after (.create drawn) [.reply message]
  | join {roomId : String} {r : RoomId} : RoomId.fromStr roomId = some r →
      Notices p at_ req after (.join r) (sendAll (after.members r) (.peerConnected p.toString) ++
        WsHandler.broadcastRoomParticipants roomId (after.members r))
  | leave {r : RoomId} :
      Notices p at_ req after (.leave r) (WsHandler.broadcastLeft p r (after.members r))
  | relay {message : ClientToServer} {target : String} {event : ServerToClient}
      {t : ParticipantId} {r : RoomId} : req = some message →
      WsHandler.relayed p message = some (target, event) → ParticipantId.fromStr target = some t →
      at_ = some r → p ∈ after.members r → t ∈ after.members r →
      Notices p at_ req after .stay [.sendTo t event]
  | refused (code : ErrorCode) (text : String) :
      Notices p at_ req after .stay [sendError code text]
  | silent : Notices p at_ req after .stay []
  | forget : Notices p at_ req after .forget []

namespace WsHandler

variable {core : RealCore} {h : WsHandler}

theorem handleJoinRoom_notices (core : RealCore) (h : WsHandler) (drawn : RoomId)
    (roomId : String) (req : Option ClientToServer) :
    Notices h.participantId h.roomId req (handleJoinRoom core h roomId).core.rooms
      (moveOf core.rooms h drawn (some (.joinRoom roomId)))
      (handleJoinRoom core h roomId).sent := by
  simp only [handleJoinRoom, moveOf]
  cases hparse : RoomId.fromStr roomId with
  | none => exact .refused _ _
  | some r =>
    simp only []
    rcases RoomManager.joinRoom_cases core.rooms r h.participantId with
      ⟨hl, hj⟩ | ⟨l, hl, ha, hj⟩ | ⟨l, hl, ha, hj⟩
    · simp only [hj, hl]
      exact .refused _ _
    · simp only [hj, hl, if_neg ha]
      exact .refused _ _
    · have hmembers : (core.rooms.joinRoom r h.participantId).1.members r = _ :=
        RoomManager.members_joinRoom_ok hl ha
      simp only [hj, if_true] at hmembers
      simp only [hj, hl, if_pos ha]
      have hnotices : Notices h.participantId h.roomId req
          ⟨core.rooms.rooms.insert r ⟨RoomManager.joined l h.participantId⟩⟩ (.join r) _ :=
        .join hparse
      rwa [hmembers] at hnotices

theorem handleLeaveRoom_notices (drawn : RoomId) (req : Option ClientToServer)
    (hheld : ∀ r, h.roomId = some r → h.participantId ∈ core.rooms.members r) :
    Notices h.participantId h.roomId req (handleLeaveRoom core h).core.rooms
      (moveOf core.rooms h drawn (some .leaveRoom)) (handleLeaveRoom core h).sent := by
  cases hr : h.roomId with
  | none =>
    simp only [handleLeaveRoom, moveOf, hr]
    exact .refused _ _
  | some r =>
    have hp := hheld r hr
    obtain ⟨l, hl, -⟩ := RoomManager.exists_of_mem_members hp
    have hmembers : (core.rooms.leaveRoom r h.participantId).1.members r = _ :=
      RoomManager.members_leaveRoom
    rw [if_pos rfl] at hmembers
    simp only [handleLeaveRoom_listed hr hp, moveOf, hr, hl, Option.isSome_some, if_true,
      ← hmembers]
    exact .leave

theorem handleSignaling_notices {message : ClientToServer} {target : String}
    {event : ServerToClient} (failure : String)
    (hm : relayed h.participantId message = some (target, event))
    (hheld : ∀ r, h.roomId = some r → h.participantId ∈ core.rooms.members r) :
    Notices h.participantId h.roomId (some message) core.rooms .stay
      (h.handleSignaling target (fun r t => core.relay r h.participantId t event) failure) := by
  cases hr : h.roomId with
  | none =>
    simp only [handleSignaling, hr]
    exact .refused _ _
  | some r =>
    cases ht : ParticipantId.fromStr target with
    | none =>
      simp only [handleSignaling, hr, ht]
      exact .refused _ _
    | some t =>
      rw [handleSignaling_listed failure hr (hheld r hr) ht]
      split
      · rename_i hin
        exact .relay rfl hm ht rfl (hheld r hr) hin
      · exact .refused _ _

theorem handleMessage_notices (drawn : RoomId) (message : ClientToServer)
    (hheld : ∀ r, h.roomId = some r → h.participantId ∈ core.rooms.members r) :
    Notices h.participantId h.roomId (some message) (handleMessage core h drawn message).core.rooms
      (moveOf core.rooms h drawn (some message)) (handleMessage core h drawn message).sent := by
  cases message with
  | createRoom => exact .create _
  | joinRoom roomId => exact handleJoinRoom_notices core h drawn roomId _
  | leaveRoom => exact handleLeaveRoom_notices drawn _ hheld
  | offer target payload => exact handleSignaling_notices "failed to relay offer" rfl hheld
  | answer target payload => exact handleSignaling_notices "failed to relay answer" rfl hheld
  | iceCandidate target payload => exact handleSignaling_notices "failed to relay ice" rfl hheld

theorem handleAbnormalClose_notices
    (hheld : ∀ r, h.roomId = some r → h.participantId ∈ core.rooms.members r) :
    Notices h.participantId h.roomId none (handleAbnormalClose core h).core.rooms h.closeMove
      (handleAbnormalClose core h).sent := by
  cases hr : h.roomId with
  | none =>
    simp only [handleAbnormalClose, closeMove, hr]
    exact .silent
  | some r =>
    obtain ⟨l, hl, -⟩ := RoomManager.exists_of_mem_members (hheld r hr)
    have hanswer := RoomManager.leaveRoom_answer (p := h.participantId) hl
    have hmembers : (core.rooms.leaveRoom r h.participantId).1.members r = _ :=
      RoomManager.members_leaveRoom
    rw [if_pos rfl, RoomManager.members_of_participants hl] at hmembers
    simp only [handleAbnormalClose, closeMove, hr, hanswer, ← hmembers]
    exact .leave

end WsHandler

namespace Handlers

variable [BloomJson] {ι : Type} {s s' : Handlers ι} {a : HandlerCall ι} {o : List (ι × Sent)}

/-- The request behind a call, if it is a text that gets to the handler. -/
def requestOf (s : Handlers ι) : HandlerCall ι → Option ClientToServer
  | .text c now _ text => (s.handler c).request now text
  | .binary _ | .abnormalClose _ => none

theorem step_notices [DecidableEq ι] (hs : Tracked s) (h : step s a = some (s', o)) :
    ∃ sent, o = sent.map (fun m => (a.conn, m)) ∧
      Notices (s.pid a.conn) (s.roomId a.conn) (s.requestOf a) s'.core.rooms (s.moveAt a) sent := by
  cases a with
  | text c now drawn text =>
    simp only [step] at h
    split at h
    · cases h
    · cases h
      refine ⟨_, rfl, ?_⟩
      simp only [HandlerCall.conn, requestOf, moveAt]
      obtain ⟨limiter, ⟨hnone, code, message, hh, -⟩ | ⟨message, hm, hh⟩⟩ :=
        WsHandler.handleTextMessage_request s.core (s.handler c) now drawn text
      · rw [hh, hnone]
        exact .refused _ _
      · rw [hh, hm]
        exact WsHandler.handleMessage_notices (h := { s.handler c with rateLimiter := limiter })
          drawn message (hs.held c)
  | binary c =>
    cases h
    exact ⟨[], rfl, .forget⟩
  | abnormalClose c =>
    cases h
    exact ⟨_, rfl, WsHandler.handleAbnormalClose_notices (hs.held c)⟩

end Handlers

end Notices

/-! ## Rooms are isolated -/

theorem Move.participants_other {p : ParticipantId} {rooms : RoomManager} {at_ : Option RoomId}
    {mv : Move} {r : RoomId} (h : mv.Enabled p rooms at_) (hr : mv.room ≠ some r) :
    (mv.apply p rooms at_).1.participants r = rooms.participants r := by
  cases mv with
  | create drawn =>
    have hne : ¬ r = drawn := fun he => hr (congrArg some he.symm)
    exact RoomManager.participants_createRoom.trans (if_neg hne)
  | join r' =>
    obtain ⟨l, hl, ha⟩ := h
    have hne : ¬ r = r' := fun he => hr (congrArg some he.symm)
    exact (RoomManager.participants_joinRoom_ok hl ha).trans (if_neg hne)
  | leave r' =>
    have hne : ¬ r = r' := fun he => hr (congrArg some he.symm)
    cases hl : rooms.participants r' with
    | none => simp only [apply, RoomManager.leaveRoom_none hl]
    | some l => exact (RoomManager.participants_leaveRoom hl).trans (if_neg hne)
  | forget => rfl
  | stay => rfl

theorem mem_sendAll {l : List ParticipantId} {message m : ServerToClient} {q : ParticipantId} :
    .sendTo q m ∈ sendAll l message ↔ q ∈ l ∧ m = message := by
  simp [sendAll, eq_comm]

theorem count_sendAll {l : List ParticipantId} {message m : ServerToClient} {q : ParticipantId}
    (hl : l.Nodup) :
    (sendAll l message).count (.sendTo q m) = if m = message ∧ q ∈ l then 1 else 0 := by
  by_cases hm : m = message
  · subst hm
    have hinj : Function.Injective fun p => Sent.sendTo p m := by
      intro p p' heq
      cases heq
      rfl
    rw [sendAll, List.count_map_of_injective _ _ hinj, hl.count]
    simp
  · rw [if_neg (fun h => hm h.1), List.count_eq_zero]
    exact fun h => hm (mem_sendAll.mp h).2

section Isolation

variable [UuidCrate] {p q : ParticipantId} {at_ : Option RoomId} {req : Option ClientToServer}
  {after : RoomManager} {mv : Move} {sent : List Sent} {m : ServerToClient}

/-- Where what is handed to `send_to` goes, and that a relay is the only thing a step hands out. -/
theorem Notices.sendTo (h : Notices p at_ req after mv sent) (hm : .sendTo q m ∈ sent) :
    (∃ r, (mv.room = some r ∨ mv.room = none ∧ at_ = some r) ∧ q ∈ after.members r) ∧
    (m.IsRelay → mv = .stay ∧ ∃ message target r, req = some message ∧
      WsHandler.relayed p message = some (target, m) ∧ ParticipantId.fromStr target = some q ∧
      at_ = some r ∧ p ∈ after.members r ∧ q ∈ after.members r ∧ sent = [.sendTo q m]) := by
  cases h with
  | create message => simp at hm
  | @join roomId r hparse =>
    simp only [WsHandler.broadcastRoomParticipants, List.mem_append, mem_sendAll] at hm
    rcases hm with ⟨hq, rfl⟩ | ⟨hq, rfl⟩
    · exact ⟨⟨r, .inl rfl, hq⟩, False.elim⟩
    · exact ⟨⟨r, .inl rfl, hq⟩, False.elim⟩
  | @leave r =>
    simp only [WsHandler.broadcastLeft, List.mem_append, mem_sendAll] at hm
    rcases hm with ⟨hq, rfl⟩ | ⟨hq, rfl⟩
    · exact ⟨⟨r, .inl rfl, hq⟩, False.elim⟩
    · exact ⟨⟨r, .inl rfl, hq⟩, False.elim⟩
  | @relay message target event t r hreq hrelay htarget hat hp ht =>
    rw [List.mem_singleton, Sent.sendTo.injEq] at hm
    obtain ⟨rfl, rfl⟩ := hm
    exact ⟨⟨r, .inr ⟨rfl, hat⟩, ht⟩,
      fun _ => ⟨rfl, message, target, r, hreq, hrelay, htarget, hat, hp, ht, rfl⟩⟩
  | refused code text => simp [sendError] at hm
  | silent => cases hm
  | forget => cases hm

end Isolation

namespace Handlers

section Runs

variable {ι : Type} [DecidableEq ι] [UuidCrate] [BloomJson]

/-- The room a step acts on: the one it makes, enters or leaves, or else the handler's. -/
def actsOn (s : Handlers ι) (a : HandlerCall ι) : Option RoomId :=
  match (s.moveAt a).room with
  | some r => some r
  | none => s.roomId a.conn

/-- In every run, what a step hands to `send_to` goes to members of the room it acts on; a relay
goes, once and alone, from a member of the handler's room to another; and only the room that the
step makes, enters or leaves changes. -/
theorem rooms_isolated {s₀ s s' : Handlers ι} {as : List (HandlerCall ι)} {os : List (ι × Sent)}
    {a : HandlerCall ι} {o : List (ι × Sent)} (h₀ : Initial s₀) (hd : Function.Injective s₀.pid)
    (hr : Machine.Runs step s₀ as os s) (h : step s a = some (s', o)) :
    (∀ c q m, (c, .sendTo q m) ∈ o → c = a.conn ∧
      ∃ r, s.actsOn a = some r ∧ q ∈ s'.members r) ∧
    (∀ c q m, (c, .sendTo q m) ∈ o → m.IsRelay → o = [(a.conn, .sendTo q m)] ∧
      ∃ message target r, s.requestOf a = some message ∧
        WsHandler.relayed (s.pid a.conn) message = some (target, m) ∧
        ParticipantId.fromStr target = some q ∧ s.roomId a.conn = some r ∧
        s.pid a.conn ∈ s.members r ∧ q ∈ s.members r) ∧
    (∀ r, (s.moveAt a).room ≠ some r →
      s'.core.rooms.participants r = s.core.rooms.participants r) := by
  have hs : Tracked s := hr.invariant (fun _ _ _ _ => step_tracked) (h₀.tracked hd)
  have htook := step_took h
  obtain ⟨sent, rfl, hnotices⟩ := step_notices hs h
  have hsent : ∀ c q m, (c, Sent.sendTo q m) ∈ sent.map (fun m => (a.conn, m)) →
      c = a.conn ∧ .sendTo q m ∈ sent := by
    intro c q m hmem
    obtain ⟨m', hm', heq⟩ := List.mem_map.mp hmem
    cases heq
    exact ⟨rfl, hm'⟩
  refine ⟨?_, ?_, ?_⟩
  · intro c q m hmem
    obtain ⟨hc, hm⟩ := hsent c q m hmem
    obtain ⟨⟨r, hroom, hq⟩, -⟩ := hnotices.sendTo hm
    refine ⟨hc, r, ?_, hq⟩
    rcases hroom with hroom | ⟨hnone, hat⟩
    · simp only [actsOn, hroom]
    · simp only [actsOn, hnone, hat]
  · intro c q m hmem hrelay
    obtain ⟨-, hm⟩ := hsent c q m hmem
    obtain ⟨hstay, message, target, r, hreq, hrelayed, htarget, hat, hp, hq, hone⟩ :=
      (hnotices.sendTo hm).2 hrelay
    have hrooms : s'.core.rooms = s.core.rooms := by
      rw [htook.rooms, hstay]
      rfl
    rw [hrooms] at hp hq
    exact ⟨by rw [hone]; rfl, message, target, r, hreq, hrelayed, htarget, hat, hp, hq⟩
  · intro r hne
    rw [htook.rooms]
    exact Move.participants_other htook.enabled hne

end Runs

section Samples

def offerText : String :=
  "\x7b\"type\":\"Offer\",\"to\":\"00000000-0000-0000-0000-000000000002\",\"sdp\":\"v=0\"\x7d"

@[reducible] def relayJson : BloomJson where
  clientFromStr text :=
    if text = offerText then some (.offer "00000000-0000-0000-0000-000000000002" ⟨"v=0"⟩)
    else taggedJson.clientFromStr text

def createAndJoin : List (HandlerCall Bool) :=
  [.text true 0 ⟨7⟩ createRoomText, .text false 0 ⟨8⟩ joinRoomText]

theorem rooms_isolated_offer :
    let _ := hyphenated
    let _ := relayJson
    ∃ s os s' o, Machine.Runs step twoClients createAndJoin os s ∧
      step s (.text true 0 ⟨8⟩ offerText) = some (s', o) ∧
      o = [(true, .sendTo ⟨2⟩ (.offer (ParticipantId.mk 1).toString ⟨"v=0"⟩))] ∧
      (∀ c q m, (c, .sendTo q m) ∈ o → c = true ∧
        ∃ r, s.actsOn (.text true 0 ⟨8⟩ offerText) = some r ∧ q ∈ s'.members r) := by
  intro _ _
  have hrun : ((Machine.run step twoClients createAndJoin).bind fun r =>
      (step r.1 (.text true 0 ⟨8⟩ offerText)).map fun r' => r'.2) =
      some [(true, .sendTo ⟨2⟩ (.offer (ParticipantId.mk 1).toString ⟨"v=0"⟩))] := by
    decide +kernel
  obtain ⟨⟨s, os⟩, hr, hnext⟩ := Option.bind_eq_some_iff.mp hrun
  obtain ⟨⟨s', o⟩, hoffer, ho⟩ := Option.map_eq_some_iff.mp hnext
  exact ⟨s, os, s', o, Machine.run_sound hr, hoffer, ho,
    (rooms_isolated twoClients_initial twoClients_distinct (Machine.run_sound hr) hoffer).1⟩

end Samples

section Calls

variable {ι : Type} [DecidableEq ι] [UuidCrate] [BloomJson]

omit [DecidableEq ι] [UuidCrate] [BloomJson] in
theorem Took.calls {s s' : Handlers ι} {c : ι} {mv : Move} (h : Took s s' c mv) :
    s'.core.rooms = (s.core.rooms.calls (mv.calls (s.pid c))).1 := by
  rw [h.rooms]
  cases mv <;> rfl

/-- The calls of the room manager that change rooms, in the order a run makes them. -/
def callsMade : Handlers ι → List (HandlerCall ι) → List RoomCall
  | _, [] => []
  | s, a :: as =>
    match step s a with
    | none => []
    | some (s', _) => (s.moveAt a).calls (s.pid a.conn) ++ callsMade s' as

theorem runs_calls {s s' : Handlers ι} {as : List (HandlerCall ι)} {os : List (ι × Sent)}
    (h : Machine.Runs step s as os s') :
    s'.core.rooms = (s.core.rooms.calls (callsMade s as)).1 := by
  induction h with
  | nil => rfl
  | cons ha _ ih =>
    rw [ih, (step_took ha).calls, ← RoomManager.calls_append]
    simp only [callsMade, ha]

theorem runs_shows {s₀ s : Handlers ι} {as : List (HandlerCall ι)} {os : List (ι × Sent)}
    (h₀ : Initial s₀) (hr : Machine.Runs step s₀ as os s) :
    Shows s.core.rooms (RoomModel.empty.calls (callsMade s₀ as)).1 := by
  rw [runs_calls hr, h₀.core]
  exact shows_calls_new _

theorem nodup_members {s₀ s : Handlers ι} {as : List (HandlerCall ι)} {os : List (ι × Sent)}
    (h₀ : Initial s₀) (hr : Machine.Runs step s₀ as os s) (r : RoomId) : (s.members r).Nodup := by
  unfold members RoomManager.members
  cases hl : s.core.rooms.participants r with
  | none => exact List.nodup_nil
  | some l => exact ((runs_shows h₀ hr).of_some hl).2.2.nodup

end Calls

end Handlers

/-! ## Membership changes are announced -/

section Presence

variable [UuidCrate] [LawfulUuid] {p p' q : ParticipantId} {at_ : Option RoomId}
  {req : Option ClientToServer} {after : RoomManager} {mv : Move} {sent : List Sent}

omit [LawfulUuid] in
theorem count_relay {message : ClientToServer} {target : String} {event m : ServerToClient}
    {t : ParticipantId} (h : WsHandler.relayed p message = some (target, event))
    (hm : ¬ m.IsRelay) : [Sent.sendTo t event].count (.sendTo q m) = 0 := by
  rw [List.count_eq_zero, List.mem_singleton, Sent.sendTo.injEq]
  rintro ⟨-, rfl⟩
  cases message <;> cases h <;> exact hm trivial

omit [UuidCrate] [LawfulUuid] in
theorem ite_eq_ite_iff {A B : Prop} [Decidable A] [Decidable B] :
    (if A then 1 else 0) = (if B then 1 else 0) ↔ (A ↔ B) := by
  by_cases hA : A <;> by_cases hB : B <;> simp [hA, hB]

/-- A step hands `q` a `PeerConnected` of `p'` once if it is a join of `p'` that `q` hears of, and
never otherwise. -/
theorem Notices.connected (h : Notices p at_ req after mv sent)
    (hnodup : ∀ r, (after.members r).Nodup) {B : Prop} [Decidable B] :
    sent.count (.sendTo q (.peerConnected p'.toString)) = (if B then 1 else 0) ↔
      (p' = p ∧ (∃ r, mv = .join r ∧ q ∈ after.members r) ↔ B) := by
  have hzero : ∀ {n : Nat}, n = 0 → (∀ r, mv ≠ .join r) → (n = (if B then 1 else 0) ↔
      (p' = p ∧ (∃ r, mv = .join r ∧ q ∈ after.members r) ↔ B)) := by
    rintro n rfl hmv
    simp [hmv]
  cases h with
  | create message => exact hzero rfl (by simp)
  | @join roomId r hparse =>
    simp only [WsHandler.broadcastRoomParticipants, List.count_append, count_sendAll (hnodup r),
      ServerToClient.peerConnected.injEq, ParticipantId.toString_inj, reduceCtorEq, false_and,
      if_false, Nat.add_zero, ite_eq_ite_iff, Move.join.injEq, exists_eq_left']
  | @leave r =>
    refine hzero ?_ (by simp)
    simp only [WsHandler.broadcastLeft, List.count_append, count_sendAll (hnodup r), reduceCtorEq,
      false_and, if_false]
  | relay hreq hrelay htarget hat hp ht => exact hzero (count_relay hrelay id) (by simp)
  | refused code text => exact hzero rfl (by simp)
  | silent => exact hzero rfl (by simp)
  | forget => exact hzero rfl (by simp)

theorem Notices.disconnected (h : Notices p at_ req after mv sent)
    (hnodup : ∀ r, (after.members r).Nodup) {B : Prop} [Decidable B] :
    sent.count (.sendTo q (.peerDisconnected p'.toString)) = (if B then 1 else 0) ↔
      (p' = p ∧ (∃ r, mv = .leave r ∧ q ∈ after.members r) ↔ B) := by
  have hzero : ∀ {n : Nat}, n = 0 → (∀ r, mv ≠ .leave r) → (n = (if B then 1 else 0) ↔
      (p' = p ∧ (∃ r, mv = .leave r ∧ q ∈ after.members r) ↔ B)) := by
    rintro n rfl hmv
    simp [hmv]
  cases h with
  | create message => exact hzero rfl (by simp)
  | @join roomId r hparse =>
    refine hzero ?_ (by simp)
    simp only [WsHandler.broadcastRoomParticipants, List.count_append, count_sendAll (hnodup r),
      reduceCtorEq, false_and, if_false]
  | @leave r =>
    simp only [WsHandler.broadcastLeft, List.count_append, count_sendAll (hnodup r),
      ServerToClient.peerDisconnected.injEq, ParticipantId.toString_inj, reduceCtorEq, false_and,
      if_false, Nat.add_zero, ite_eq_ite_iff, Move.leave.injEq, exists_eq_left']
  | relay hreq hrelay htarget hat hp ht => exact hzero (count_relay hrelay id) (by simp)
  | refused code text => exact hzero rfl (by simp)
  | silent => exact hzero rfl (by simp)
  | forget => exact hzero rfl (by simp)

end Presence

namespace Handlers

variable {ι : Type} {s s' : Handlers ι} {a : HandlerCall ι} {o : List (ι × Sent)}

/-- The members of a room, other than the one it is about, are handed exactly the changes of its
membership that the step made. -/
def Announced [UuidCrate] (s s' : Handlers ι) (o : List (ι × Sent)) : Prop :=
  ∀ r p q, q ∈ s'.members r → q ≠ p →
    (o.map Prod.snd).count (.sendTo q (.peerConnected p.toString)) =
      (if p ∈ s'.members r ∧ p ∉ s.members r then 1 else 0) ∧
    (o.map Prod.snd).count (.sendTo q (.peerDisconnected p.toString)) =
      (if p ∈ s.members r ∧ p ∉ s'.members r then 1 else 0)

/-- A rejoin that somebody else hears of, or a join or a leave that is heard of by a member who is
also listed in another room. -/
def Misheard [UuidCrate] [BloomJson] (s : Handlers ι) (a : HandlerCall ι) : Prop :=
  match s.moveAt a with
  | .join r => ∃ q ∈ s.members r, q ≠ s.pid a.conn ∧
      (s.pid a.conn ∈ s.members r ∨ ∃ r' ≠ r, q ∈ s.members r')
  | .leave r => ∃ q ∈ s.members r, q ≠ s.pid a.conn ∧ ∃ r' ≠ r, q ∈ s.members r'
  | .create _ | .forget | .stay => False

section Announcements

variable [DecidableEq ι] [UuidCrate] [BloomJson] {p q : ParticipantId} {r r' : RoomId}

omit [DecidableEq ι] [UuidCrate] [BloomJson] in
theorem Took.changes {c : ι} {mv : Move} (h : Took s s' c mv) (hs : Tracked s) :
    (p ∈ s'.members r ∧ p ∉ s.members r ↔
      (mv = .create r ∨ mv = .join r) ∧ p = s.pid c ∧ p ∉ s.members r) ∧
    (p ∈ s.members r ∧ p ∉ s'.members r ↔ mv = .leave r ∧ p = s.pid c) := by
  by_cases hp : p = s.pid c
  · subst hp
    have hown := h.mem_own (r := r)
    rw [h.pid] at hown
    cases mv with
    | create drawn => simp [hown, Move.Lists, eq_comm]; tauto
    | join r₀ => simp [hown, Move.Lists, eq_comm]; tauto
    | leave r₀ =>
      have hin : s.pid c ∈ s.members r₀ := hs.held c r₀ h.enabled
      simp only [hown, Move.Lists, Move.leave.injEq, reduceCtorEq]
      refine ⟨by tauto, ⟨fun hleft => ⟨?_, trivial⟩, ?_⟩⟩
      · by_contra hne
        exact hleft.2 ⟨fun he => hne he.symm, hleft.1⟩
      · rintro ⟨rfl, -⟩
        exact ⟨hin, fun hstill => hstill.1 rfl⟩
    | forget => simp [hown, Move.Lists]
    | stay => simp [hown, Move.Lists]
  · have hother := h.mem_other (r := r) hp
    simp [hother, hp]

omit [DecidableEq ι] [BloomJson] in
/-- What a step announces, with whom it makes enter and leave. -/
theorem announced_of_notices [LawfulUuid] {c : ι} {mv : Move} {sent : List Sent}
    {req : Option ClientToServer} (htook : Took s s' c mv) (hs : Tracked s)
    (hnodup : ∀ r, (s'.members r).Nodup)
    (h : Notices (s.pid c) (s.roomId c) req s'.core.rooms mv sent) :
    Announced s s' (sent.map fun m => (c, m)) ↔ ∀ r p q, q ∈ s'.members r → q ≠ p →
      (p = s.pid c ∧ (∃ r₀, mv = .join r₀ ∧ q ∈ s'.members r₀) ↔
        (mv = .create r ∨ mv = .join r) ∧ p = s.pid c ∧ p ∉ s.members r) ∧
      (p = s.pid c ∧ (∃ r₀, mv = .leave r₀ ∧ q ∈ s'.members r₀) ↔
        mv = .leave r ∧ p = s.pid c) := by
  have hsnd : (sent.map fun m => (c, m)).map Prod.snd = sent := by simp
  simp only [Announced, hsnd, h.connected hnodup, h.disconnected hnodup, (htook.changes hs).1,
    (htook.changes hs).2]
  rfl

theorem step_announced [LawfulUuid] (hs : Tracked s) (hnodup : ∀ r, (s'.members r).Nodup)
    (h : step s a = some (s', o)) : Announced s s' o ↔ ¬ Misheard s a := by
  have htook := step_took h
  obtain ⟨sent, rfl, hnotices⟩ := step_notices hs h
  rw [announced_of_notices htook hs hnodup hnotices]
  unfold Misheard
  have hother : ∀ {q : ParticipantId} (r), q ≠ s.pid a.conn →
      (q ∈ s'.members r ↔ q ∈ s.members r) := fun r hq => htook.mem_other hq
  cases hmv : s.moveAt a with
  | create drawn =>
    refine ⟨fun _ => id, fun _ r p q hq hne => ⟨?_, by simp⟩⟩
    simp only [reduceCtorEq, false_and, exists_false, and_false, or_false, false_iff, not_and,
      Move.create.injEq]
    rintro rfl rfl
    -- the new room has no other member
    have hnew : s.core.rooms.participants drawn = none := by
      have henabled := htook.enabled
      rwa [hmv] at henabled
    rw [hother drawn hne, members, RoomManager.members, hnew] at hq
    cases hq
  | join r₀ =>
    constructor
    · rintro hall ⟨q, hq, hne, hin | ⟨r, hr, hin⟩⟩
      · have := (hall r₀ (s.pid a.conn) q ((hother r₀ hne).mpr hq) hne).1
        simp [hin, hother r₀ hne, hq] at this
      · have := (hall r (s.pid a.conn) q ((hother r hne).mpr hin) hne).1
        simp [hother r₀ hne, hq, Ne.symm hr] at this
    · intro hheard r p q hq hne
      refine ⟨?_, by simp⟩
      simp only [Move.join.injEq, exists_eq_left', reduceCtorEq, false_or]
      constructor
      · rintro ⟨rfl, hq₀⟩
        rw [hother _ hne] at hq hq₀
        have hr : r₀ = r := by
          by_contra hr
          exact hheard ⟨q, hq₀, hne, .inr ⟨r, fun he => hr he.symm, hq⟩⟩
        subst hr
        exact ⟨rfl, rfl, fun hin => hheard ⟨q, hq₀, hne, .inl hin⟩⟩
      · rintro ⟨rfl, rfl, -⟩
        exact ⟨rfl, hq⟩
  | leave r₀ =>
    constructor
    · rintro hall ⟨q, hq, hne, r, hr, hin⟩
      have := (hall r (s.pid a.conn) q ((hother r hne).mpr hin) hne).2
      simp [hother r₀ hne, hq, Ne.symm hr] at this
    · intro hheard r p q hq hne
      refine ⟨by simp, ?_⟩
      simp only [Move.leave.injEq, exists_eq_left']
      constructor
      · rintro ⟨rfl, hq₀⟩
        rw [hother _ hne] at hq hq₀
        refine ⟨?_, rfl⟩
        by_contra hr
        exact hheard ⟨q, hq₀, hne, r, fun he => hr he.symm, hq⟩
      · rintro ⟨rfl, rfl⟩
        exact ⟨rfl, hq⟩
  | forget => simp
  | stay => simp

/-- In every run, a step announces exactly its membership changes unless it is misheard. -/
theorem announced_iff [LawfulUuid] {s₀ : Handlers ι} {as : List (HandlerCall ι)}
    {os : List (ι × Sent)} (h₀ : Initial s₀) (hd : Function.Injective s₀.pid)
    (hr : Machine.Runs step s₀ as os s) (h : step s a = some (s', o)) :
    Announced s s' o ↔ ¬ Misheard s a := by
  have hs : Tracked s := hr.invariant (fun _ _ _ _ => step_tracked) (h₀.tracked hd)
  exact step_announced hs (nodup_members h₀ (hr.trans (Machine.Runs.single h))) h

end Announcements

section Samples

theorem announced_iff_create_and_join :
    let _ := hyphenated
    let _ := taggedJson
    ∃ s os s' o, Machine.Runs step twoClients [.text true 0 ⟨7⟩ createRoomText] os s ∧
      step s (.text false 0 ⟨8⟩ joinRoomText) = some (s', o) ∧ s'.members ⟨7⟩ = [⟨1⟩, ⟨2⟩] ∧
      (Announced s s' o ↔ ¬ Misheard s (.text false 0 ⟨8⟩ joinRoomText)) := by
  intro _ _
  have hlawful := hyphenated_lawful
  have hrun : ((Machine.run step twoClients [.text true 0 ⟨7⟩ createRoomText]).bind fun r =>
      (step r.1 (.text false 0 ⟨8⟩ joinRoomText)).map fun r' => r'.1.members ⟨7⟩) =
      some [⟨1⟩, ⟨2⟩] := by decide +kernel
  obtain ⟨⟨s, os⟩, hr, hnext⟩ := Option.bind_eq_some_iff.mp hrun
  obtain ⟨⟨s', o⟩, hjoin, hmembers⟩ := Option.map_eq_some_iff.mp hnext
  exact ⟨s, os, s', o, Machine.run_sound hr, hjoin, hmembers,
    announced_iff twoClients_initial twoClients_distinct (Machine.run_sound hr) hjoin⟩

/-- A second join of the same client changes nothing and is announced again. -/
theorem rejoin_announced_again :
    let _ := hyphenated
    let _ := taggedJson
    ∃ s os s' o, Machine.Runs step twoClients createAndJoin os s ∧
      step s (.text false 0 ⟨8⟩ joinRoomText) = some (s', o) ∧
      s.members ⟨7⟩ = [⟨1⟩, ⟨2⟩] ∧ s'.members ⟨7⟩ = [⟨1⟩, ⟨2⟩] ∧
      (o.map Prod.snd).count (.sendTo ⟨1⟩ (.peerConnected (ParticipantId.mk 2).toString)) = 1 ∧
      ¬ Announced s s' o := by
  intro _ _
  have hrun : ((Machine.run step twoClients createAndJoin).bind fun r =>
      (step r.1 (.text false 0 ⟨8⟩ joinRoomText)).map fun r' =>
        (r.1.members ⟨7⟩, r'.1.members ⟨7⟩, (r'.2.map Prod.snd).count
          (.sendTo ⟨1⟩ (.peerConnected (ParticipantId.mk 2).toString)))) =
      some ([⟨1⟩, ⟨2⟩], [⟨1⟩, ⟨2⟩], 1) := by decide +kernel
  obtain ⟨⟨s, os⟩, hr, hnext⟩ := Option.bind_eq_some_iff.mp hrun
  obtain ⟨⟨s', o⟩, hjoin, hs⟩ := Option.map_eq_some_iff.mp hnext
  simp only [Prod.mk.injEq] at hs
  obtain ⟨hbefore, hafter, hcount⟩ := hs
  refine ⟨s, os, s', o, Machine.run_sound hr, hjoin, hbefore, hafter, hcount, fun hann => ?_⟩
  have hone := (hann ⟨7⟩ ⟨2⟩ ⟨1⟩ (by rw [hafter]; decide) (by decide)).1
  rw [hcount, hbefore, if_neg (fun h => h.2 (by decide))] at hone
  cases hone

end Samples

end Handlers

end Bloom
end Bakopa
