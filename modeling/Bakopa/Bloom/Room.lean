import Bakopa.Bloom.Id

/-!
# Bakopa.Bloom.Room

`RoomManager` of `bloom/core/src/room.rs`: a map from room ids to the list of participants in
join order. Every operation returns the new manager and the source's return value.

Each operation is followed by what it does to the list of every room (`participants_*`), which is
all later modules use of it.
-/

namespace Bakopa
namespace Bloom

def maxParticipants : Nat := 8

structure RoomState where
  participants : List ParticipantId

structure RoomManager where
  rooms : Finmap fun _ : RoomId => RoomState

structure CreateRoomResult where
  roomId : RoomId
  selfId : ParticipantId
  participants : List ParticipantId
deriving DecidableEq

inductive JoinRoomError where
  | roomFull
deriving DecidableEq

namespace RoomManager

def new : RoomManager := ⟨∅⟩

/-- `RoomId::new` is called inside; `roomId` is what it returned. -/
def createRoom (m : RoomManager) (roomId : RoomId) (roomOwner : ParticipantId) :
    RoomManager × CreateRoomResult :=
  let selfId := roomOwner
  let participants := [selfId]
  (⟨m.rooms.insert roomId ⟨participants⟩⟩, ⟨roomId, selfId, participants⟩)

def joinRoom (m : RoomManager) (roomId : RoomId) (participant : ParticipantId) :
    RoomManager × Option (Except JoinRoomError (List ParticipantId)) :=
  match m.rooms.lookup roomId with
  | none => (m, none)
  | some room =>
    if room.participants.length ≥ maxParticipants ∧ participant ∉ room.participants then
      (m, some (.error .roomFull))
    else
      let list :=
        if participant ∉ room.participants then room.participants ++ [participant]
        else room.participants
      (⟨m.rooms.insert roomId ⟨list⟩⟩, some (.ok list))

def leaveRoom (m : RoomManager) (roomId : RoomId) (participant : ParticipantId) :
    RoomManager × Option (List ParticipantId) :=
  match m.rooms.lookup roomId with
  | none => (m, none)
  | some room =>
    let list := room.participants.filter (· ≠ participant)
    if list.isEmpty then (⟨m.rooms.erase roomId⟩, some [])
    else (⟨m.rooms.insert roomId ⟨list⟩⟩, some list)

def participants (m : RoomManager) (roomId : RoomId) : Option (List ParticipantId) :=
  (m.rooms.lookup roomId).map RoomState.participants

/-- The members of a room, none when it does not exist. -/
def members (m : RoomManager) (r : RoomId) : List ParticipantId := (m.participants r).getD []

section Lists

variable {m : RoomManager} {r r' : RoomId} {p q : ParticipantId} {l : List ParticipantId}

theorem members_of_participants (h : m.participants r = some l) : m.members r = l := by
  simp [members, h]

theorem exists_of_mem_members (h : p ∈ m.members r) : ∃ l, m.participants r = some l ∧ p ∈ l := by
  cases hl : m.participants r with
  | none => simp [members, hl] at h
  | some l => exact ⟨l, rfl, by simpa [members, hl] using h⟩

@[simp] theorem participants_new : new.participants r = none := by
  simp [participants, new]

theorem lookup_eq_none (h : m.participants r = none) : m.rooms.lookup r = none := by
  simpa [participants] using h

theorem lookup_eq_some (h : m.participants r = some l) : m.rooms.lookup r = some ⟨l⟩ := by
  simp only [participants, Option.map_eq_some_iff] at h
  obtain ⟨room, hroom, rfl⟩ := h
  exact hroom

theorem participants_insert :
    (⟨m.rooms.insert r ⟨l⟩⟩ : RoomManager).participants r' =
      if r' = r then some l else m.participants r' := by
  by_cases h : r' = r
  · subst h; simp [participants]
  · simp [participants, h, Finmap.lookup_insert_of_ne]

theorem participants_erase :
    (⟨m.rooms.erase r⟩ : RoomManager).participants r' =
      if r' = r then none else m.participants r' := by
  by_cases h : r' = r
  · subst h; simp [participants]
  · simp [participants, h, Finmap.lookup_erase_ne]

theorem participants_createRoom :
    (m.createRoom r p).1.participants r' = if r' = r then some [p] else m.participants r' :=
  participants_insert

theorem joinRoom_none (h : m.participants r = none) : m.joinRoom r p = (m, none) := by
  simp [joinRoom, lookup_eq_none h]

theorem joinRoom_full (h : m.participants r = some l) (hlen : maxParticipants ≤ l.length)
    (hp : p ∉ l) : m.joinRoom r p = (m, some (.error .roomFull)) := by
  simp [joinRoom, lookup_eq_some h, hlen, hp]

/-- A join that is not refused puts the joiner at the end, or leaves the list as it was. -/
def joined (l : List ParticipantId) (p : ParticipantId) : List ParticipantId :=
  if p ∉ l then l ++ [p] else l

/-- `join_room` accepts a joiner when the room has space or the joiner is in it. -/
def Admits (l : List ParticipantId) (p : ParticipantId) : Prop :=
  l.length < maxParticipants ∨ p ∈ l

instance : Decidable (Admits l p) := inferInstanceAs (Decidable (_ ∨ _))

theorem joinRoom_ok (h : m.participants r = some l) (ha : Admits l p) :
    m.joinRoom r p = (⟨m.rooms.insert r ⟨joined l p⟩⟩, some (.ok (joined l p))) := by
  have : ¬ (l.length ≥ maxParticipants ∧ p ∉ l) := by
    rintro ⟨hlen, hp⟩
    rcases ha with ha | ha
    · omega
    · exact hp ha
  simp only [joinRoom, lookup_eq_some h, if_neg this, joined]

theorem participants_joinRoom_ok (h : m.participants r = some l) (ha : Admits l p) :
    (m.joinRoom r p).1.participants r' =
      if r' = r then some (joined l p) else m.participants r' := by
  rw [joinRoom_ok h ha]; exact participants_insert

theorem mem_joined : q ∈ joined l p ↔ q ∈ l ∨ q = p := by
  unfold joined
  split
  · simp
  · rename_i hp
    rw [not_not] at hp
    constructor
    · exact Or.inl
    · rintro (h | rfl)
      · exact h
      · exact hp

theorem joinRoom_cases (m : RoomManager) (r : RoomId) (p : ParticipantId) :
    (m.participants r = none ∧ m.joinRoom r p = (m, none)) ∨
    (∃ l, m.participants r = some l ∧ ¬ Admits l p ∧
      m.joinRoom r p = (m, some (.error .roomFull))) ∨
    (∃ l, m.participants r = some l ∧ Admits l p ∧
      m.joinRoom r p = (⟨m.rooms.insert r ⟨joined l p⟩⟩, some (.ok (joined l p)))) := by
  cases h : m.participants r with
  | none => exact .inl ⟨rfl, joinRoom_none h⟩
  | some l =>
    by_cases ha : Admits l p
    · exact .inr (.inr ⟨l, rfl, ha, joinRoom_ok h ha⟩)
    · have hfull := ha
      simp only [Admits, not_or, not_lt] at hfull
      exact .inr (.inl ⟨l, rfl, ha, joinRoom_full h hfull.1 hfull.2⟩)

theorem leaveRoom_none (h : m.participants r = none) : m.leaveRoom r p = (m, none) := by
  simp [leaveRoom, lookup_eq_none h]

theorem leaveRoom_answer (h : m.participants r = some l) :
    (m.leaveRoom r p).2 = some (l.filter (· ≠ p)) := by
  simp only [leaveRoom, lookup_eq_some h]
  split
  · rename_i he
    rw [List.isEmpty_iff] at he
    rw [he]
  · rfl

theorem participants_leaveRoom (h : m.participants r = some l) :
    (m.leaveRoom r p).1.participants r' =
      if r' = r then (if (l.filter (· ≠ p)).isEmpty then none else some (l.filter (· ≠ p)))
      else m.participants r' := by
  simp only [leaveRoom, lookup_eq_some h]
  split
  · rw [participants_erase]
  · rw [participants_insert]

theorem members_createRoom :
    (m.createRoom r p).1.members r' = if r' = r then [p] else m.members r' := by
  simp only [members, participants_createRoom]
  split <;> rfl

theorem members_joinRoom_ok (h : m.participants r = some l) (ha : Admits l p) :
    (m.joinRoom r p).1.members r' = if r' = r then joined l p else m.members r' := by
  simp only [members, participants_joinRoom_ok h ha]
  split <;> rfl

theorem members_leaveRoom :
    (m.leaveRoom r p).1.members r' =
      if r' = r then (m.members r).filter (· ≠ p) else m.members r' := by
  cases h : m.participants r with
  | none =>
    rw [leaveRoom_none h]
    split
    · rename_i hr; subst hr; simp [members, h]
    · rfl
  | some l =>
    simp only [members, participants_leaveRoom h, h, Option.getD_some]
    split
    · split
      · rename_i he
        rw [List.isEmpty_iff] at he
        rw [he]; rfl
      · rfl
    · rfl

end Lists

end RoomManager

end Bloom
end Bakopa
