import Bakopa.Bloom.Atomic
import Bakopa.Bloom.Handlers

/-!
# Bakopa.Bloom.RoomTexts

How a room's id is written in the messages about the room.

`RoomCreated` and the `RoomParticipants` of a leave or an abnormal close print the `RoomId` that
the handler holds. The `RoomParticipants` of a join repeats the `room_id` of the request, in
whatever form the client wrote it. `room_texts_iff` says that nothing else differs.
-/

namespace Bakopa
namespace Bloom

open Lib

def Sent.message : Sent → ServerToClient
  | .reply message => message
  | .sendTo _ message => message

/-- The `room_id` of a `RoomCreated` or a `RoomParticipants`. -/
def ServerToClient.roomText : ServerToClient → Option String
  | .roomCreated roomId _ => some roomId
  | .roomParticipants roomId _ => some roomId
  | .peerConnected _ | .peerDisconnected _ | .offer _ _ | .answer _ _ | .iceCandidate _ _
  | .error _ _ => none

section Displayed

variable [UuidCrate] {m : Sent} {r : RoomId}

/-- If the message is a `RoomCreated` or `RoomParticipants` about a room, its `room_id` is the
`Display` form of the room's id. -/
def Displayed (m : Sent) : Prop :=
  ∀ roomId r, m.message.roomText = some roomId → RoomId.fromStr roomId = some r →
    roomId = r.toString

theorem displayed_of_none (h : m.message.roomText = none) : Displayed m := by
  intro roomId r hroom
  cases h.symm.trans hroom

theorem displayed_of_toString [LawfulUuid] (h : m.message.roomText = some r.toString) :
    Displayed m := by
  intro roomId r' hroom hparse
  cases h.symm.trans hroom
  rw [RoomId.fromStr_toString] at hparse
  rw [Option.some.inj hparse]

theorem displayed_sendAll {l : List ParticipantId} {event : ServerToClient}
    (h : ∀ q, Displayed (.sendTo q event)) (hm : m ∈ sendAll l event) : Displayed m := by
  obtain ⟨q, -, rfl⟩ := List.mem_map.mp hm
  exact h q

theorem displayed_broadcastLeft [LawfulUuid] {p : ParticipantId} {l : List ParticipantId}
    (hm : m ∈ WsHandler.broadcastLeft p r l) : Displayed m := by
  rcases List.mem_append.mp hm with hm | hm
  · exact displayed_sendAll (fun _ => displayed_of_none rfl) hm
  · exact displayed_sendAll (fun _ => displayed_of_toString rfl) hm

theorem Effect.displayed [LawfulUuid] {rooms after : RoomManager} {p : ParticipantId}
    {at_ to_ : Option RoomId} {drawn : RoomId} {message : ClientToServer} {sent : List Sent}
    (he : Effect rooms p at_ drawn message after to_ sent)
    (hjoin : ∀ roomId r l, message = .joinRoom roomId → RoomId.fromStr roomId = some r →
      rooms.participants r = some l → RoomManager.Admits l p → roomId = r.toString)
    (hm : m ∈ sent) : Displayed m := by
  cases he with
  | createRoom =>
    rw [List.mem_singleton] at hm
    subst hm
    exact displayed_of_toString rfl
  | @joinRoom roomId r l after hparse hl ha =>
    have hroom := hjoin roomId r l rfl hparse hl ha
    rcases List.mem_append.mp hm with hm | hm
    · exact displayed_sendAll (fun _ => displayed_of_none rfl) hm
    · refine displayed_sendAll (fun q => displayed_of_toString (r := r) ?_) hm
      rw [← hroom]
      rfl
  | leaveRoom => exact displayed_broadcastLeft hm
  | @relay message target event t r l hrelayed =>
    rw [List.mem_singleton] at hm
    subst hm
    refine displayed_of_none ?_
    cases message with
    | offer target payload => cases hrelayed; rfl
    | answer target payload => cases hrelayed; rfl
    | iceCandidate target payload => cases hrelayed; rfl
    | createRoom => cases hrelayed
    | joinRoom roomId => cases hrelayed
    | leaveRoom => cases hrelayed

theorem displayed_handleAbnormalClose [LawfulUuid] {core : RealCore} {h : WsHandler}
    (hm : m ∈ (h.handleAbnormalClose core).sent) : Displayed m := by
  unfold WsHandler.handleAbnormalClose at hm
  cases hr : h.roomId with
  | none =>
    simp only [hr] at hm
    cases hm
  | some r =>
    simp only [hr] at hm
    cases hanswer : (core.rooms.leaveRoom r h.participantId).2 with
    | none =>
      simp only [hanswer] at hm
      cases hm
    | some remaining =>
      simp only [hanswer] at hm
      exact displayed_broadcastLeft hm

end Displayed

namespace Handlers

section Runs

variable {ι : Type} [DecidableEq ι] [UuidCrate] [BloomJson] {s s' : Handlers ι}
  {a : HandlerCall ι} {o : List (ι × Sent)}

/-- A `JoinRoom` that is let in writes the room's id in its `Display` form. -/
def JoinsByDisplay (s : Handlers ι) : HandlerCall ι → Prop
  | .text c now _ text => ∀ roomId r l, (s.handler c).request now text = some (.joinRoom roomId) →
      RoomId.fromStr roomId = some r → s.core.rooms.participants r = some l →
      RoomManager.Admits l (s.pid c) → roomId = r.toString
  | .binary _ | .abnormalClose _ => True

/-- A `JoinRoom` that is let in tells the joiner who is in the room, by the text of the request. -/
theorem roomParticipants_mem_join {core : RealCore} {h : WsHandler} {now : Nat} (drawn : RoomId)
    {text roomId : String} {r : RoomId} {l : List ParticipantId}
    (hm : h.request now text = some (.joinRoom roomId)) (hparse : RoomId.fromStr roomId = some r)
    (hl : core.rooms.participants r = some l) (ha : RoomManager.Admits l h.participantId) :
    .sendTo h.participantId (.roomParticipants roomId
      ((RoomManager.joined l h.participantId).map (·.toString))) ∈
      (h.handleTextMessage core now drawn text).sent := by
  obtain ⟨limiter, ⟨hnone, -⟩ | ⟨message, hsome, hh⟩⟩ :=
    h.handleTextMessage_request core now drawn text
  · cases hnone.symm.trans hm
  · cases hsome.symm.trans hm
    have hp : h.participantId ∈ RoomManager.joined l h.participantId :=
      RoomManager.mem_joined.mpr (.inr rfl)
    simp only [hh, WsHandler.handleMessage, WsHandler.handleJoinRoom, hparse,
      RoomManager.joinRoom_ok hl ha, List.mem_append]
    exact .inr (List.mem_map.mpr ⟨h.participantId, hp, rfl⟩)

theorem step_displayed_iff [LawfulUuid] (h : step s a = some (s', o)) :
    (∀ x ∈ o, Displayed x.2) ↔ JoinsByDisplay s a := by
  cases a with
  | text c now drawn text =>
    simp only [step] at h
    split at h
    · cases h
    · cases h
      constructor
      · intro hall roomId r l hm hparse hl ha
        have hsent := roomParticipants_mem_join drawn hm hparse hl ha
        exact hall _ (List.mem_map.mpr ⟨_, hsent, rfl⟩) roomId r rfl hparse
      · intro hjoin x hx
        obtain ⟨m, hm, rfl⟩ := List.mem_map.mp hx
        rcases (s.handler c).handleTextMessage_outcome s.core now drawn text with
          ⟨-, -, code, reason, hsent⟩ | ⟨message, hreq, hdone⟩
        · rw [hsent, List.mem_singleton] at hm
          subst hm
          exact displayed_of_none rfl
        · refine hdone.displayed ?_ hm
          rintro roomId r l rfl hparse hl ha
          exact hjoin roomId r l hreq hparse hl ha
  | binary c =>
    cases h
    refine ⟨fun _ => trivial, fun _ x hx => ?_⟩
    cases hx
  | abnormalClose c =>
    cases h
    refine ⟨fun _ => trivial, fun _ x hx => ?_⟩
    obtain ⟨m, hm, rfl⟩ := List.mem_map.mp hx
    exact displayed_handleAbnormalClose hm

/-- In every run, all `RoomCreated` and `RoomParticipants` messages about a room carry the
`Display` form of its id, exactly when every `JoinRoom` that is let in is written in that form. -/
theorem room_texts_iff [LawfulUuid] {s₀ : Handlers ι} {as : List (HandlerCall ι)}
    {os : List (ι × Sent)} (hr : Machine.Runs step s₀ as os s) :
    (∀ x ∈ os, Displayed x.2) ↔ Machine.Each step JoinsByDisplay s₀ as :=
  hr.outputs_iff_each fun _ _ _ _ => step_displayed_iff

end Runs

def joinUpperText : String :=
  "\x7b\"type\":\"JoinRoom\",\"room_id\":\"00000000-0000-0000-0000-00000000000A\"\x7d"

def joinLowerText : String :=
  "\x7b\"type\":\"JoinRoom\",\"room_id\":\"00000000-0000-0000-0000-00000000000a\"\x7d"

@[reducible] def casedJson : BloomJson where
  clientFromStr text :=
    if text = createRoomText then some .createRoom
    else if text = joinUpperText then some (.joinRoom "00000000-0000-0000-0000-00000000000A")
    else if text = joinLowerText then some (.joinRoom "00000000-0000-0000-0000-00000000000a")
    else none

/-- Room 10 is created by the one client and joined by the other. -/
def createAndJoinAs (joinText : String) : List (HandlerCall Bool) :=
  [.text true 0 ⟨10⟩ createRoomText, .text false 0 ⟨11⟩ joinText]

theorem room_texts_iff_lower_case :
    let _ := hyphenated
    let _ := casedJson
    ∃ s os, Machine.Runs step twoClients (createAndJoinAs joinLowerText) os s ∧
      ∀ x ∈ os, Displayed x.2 := by
  intro _ _
  let _ := hyphenated_lawful
  have hrun : ∃ s os, Machine.Runs step twoClients (createAndJoinAs joinLowerText) os s :=
    ⟨_, _, Machine.run_sound rfl⟩
  obtain ⟨s, os, hr⟩ := hrun
  refine ⟨s, os, hr, (room_texts_iff hr).mpr ?_⟩
  refine .step rfl ?_ (.step rfl ?_ trivial)
  · intro roomId r l hreq
    have hcreate : some ClientToServer.createRoom = some (.joinRoom roomId) := hreq
    cases hcreate
  · intro roomId r l hreq hparse _ _
    have hjoin : some (ClientToServer.joinRoom "00000000-0000-0000-0000-00000000000a") =
        some (.joinRoom roomId) := hreq
    cases hjoin
    have hten : RoomId.fromStr "00000000-0000-0000-0000-00000000000a" = some ⟨10⟩ := by
      decide +kernel
    cases hten.symm.trans hparse
    decide +kernel

/-- The one client is told of the room in lower case, and then of who is in it in upper case. -/
theorem join_in_upper_case :
    let _ := hyphenated
    let _ := casedJson
    let lower := "00000000-0000-0000-0000-00000000000a"
    let upper := "00000000-0000-0000-0000-00000000000A"
    let alice := "00000000-0000-0000-0000-000000000001"
    let bob := "00000000-0000-0000-0000-000000000002"
    ∃ s os, Machine.Runs step twoClients (createAndJoinAs joinUpperText) os s ∧
      RoomId.fromStr lower = some ⟨10⟩ ∧ RoomId.fromStr upper = some ⟨10⟩ ∧
      (true, .reply (.roomCreated lower alice)) ∈ os ∧
      (false, .sendTo ⟨1⟩ (.roomParticipants upper [alice, bob])) ∈ os ∧
      ¬ ∀ x ∈ os, Displayed x.2 := by
  intro _ _ lower upper alice bob
  have hrun : (Machine.run step twoClients (createAndJoinAs joinUpperText)).map
      (fun r => decide ((true, .reply (.roomCreated lower alice)) ∈ r.2 ∧
        (false, .sendTo ⟨1⟩ (.roomParticipants upper [alice, bob])) ∈ r.2)) = some true := by
    decide +kernel
  obtain ⟨⟨s, os⟩, hr, hsent⟩ := Option.map_eq_some_iff.mp hrun
  obtain ⟨hcreated, hlisted⟩ := of_decide_eq_true hsent
  have hupper : RoomId.fromStr upper = some ⟨10⟩ := by decide +kernel
  refine ⟨s, os, Machine.run_sound hr, by decide +kernel, hupper, hcreated, hlisted, fun hall => ?_⟩
  have hsame : upper = RoomId.toString ⟨10⟩ := hall _ hlisted upper ⟨10⟩ rfl hupper
  exact absurd hsame (by decide +kernel)

end Handlers

end Bloom
end Bakopa
