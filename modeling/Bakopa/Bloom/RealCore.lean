import Bakopa.Bloom.Api
import Bakopa.Bloom.Room

/-!
# Bakopa.Bloom.RealCore

`RealCore` of `bloom/ws/src/real_core.rs`, the core the server runs: the room manager, and the
relaying of offers, answers and ICE candidates between two members of a room.
-/

namespace Bakopa
namespace Bloom

variable [UuidCrate]

def shapeOfferEvent (sender : ParticipantId) (payload : RelaySdp) : ServerToClient :=
  .offer sender.toString payload

def shapeAnswerEvent (sender : ParticipantId) (payload : RelaySdp) : ServerToClient :=
  .answer sender.toString payload

def shapeIceEvent (sender : ParticipantId) (payload : RelayIce) : ServerToClient :=
  .iceCandidate sender.toString payload

structure RelayAction where
  target : ParticipantId
  message : ServerToClient

structure RealCore where
  rooms : RoomManager

namespace RealCore

omit [UuidCrate] in
def new : RealCore := ⟨.new⟩

omit [UuidCrate] in
/-- The three relays share their checks; `message` is the shaped event. -/
def relay (core : RealCore) (roomId : RoomId) (sender target : ParticipantId)
    (message : ServerToClient) : Except ErrorCode RelayAction :=
  match core.rooms.participants roomId with
  | none => .error .participantNotFound
  | some participants =>
    if sender ∉ participants ∨ target ∉ participants then .error .participantNotFound
    else .ok ⟨target, message⟩

def relayOffer (core : RealCore) (roomId : RoomId) (sender target : ParticipantId)
    (payload : RelaySdp) : Except ErrorCode RelayAction :=
  core.relay roomId sender target (shapeOfferEvent sender payload)

def relayAnswer (core : RealCore) (roomId : RoomId) (sender target : ParticipantId)
    (payload : RelaySdp) : Except ErrorCode RelayAction :=
  core.relay roomId sender target (shapeAnswerEvent sender payload)

def relayIceCandidate (core : RealCore) (roomId : RoomId) (sender target : ParticipantId)
    (payload : RelayIce) : Except ErrorCode RelayAction :=
  core.relay roomId sender target (shapeIceEvent sender payload)

omit [UuidCrate] in
theorem relay_of_mem {core : RealCore} {r : RoomId} {sender target : ParticipantId}
    {message : ServerToClient} (h : sender ∈ core.rooms.members r) :
    core.relay r sender target message =
      if target ∈ core.rooms.members r then .ok ⟨target, message⟩
      else .error .participantNotFound := by
  obtain ⟨l, hl, hs⟩ := RoomManager.exists_of_mem_members h
  rw [RoomManager.members_of_participants hl]
  by_cases ht : target ∈ l <;> simp [relay, hl, hs, ht]

end RealCore

end Bloom
end Bakopa
