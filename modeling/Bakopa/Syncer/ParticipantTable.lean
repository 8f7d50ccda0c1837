import Bakopa.Syncer.Api

/-!
# Bakopa.Syncer.ParticipantTable

`ParticipantTable` of `syncer/src/participant_table.rs`: the sessions by participant, and the
participants in join order. That the order lists exactly the participants with a session, each
once, is part of the type.

The events of an operation tell what it does to the order (`track_applyJoin`, `track_applyLeave`):
`PeerLeft` deletes a participant, `PeerJoined` appends one.
-/

namespace Bakopa
namespace Syncer

structure ParticipantTable where
  sessions : Finmap fun _ : ParticipantId => UInt64
  order : List ParticipantId
  nextSession : UInt64
  nodup : order.Nodup
  mem_order : ∀ p, p ∈ order ↔ p ∈ sessions

namespace ParticipantTable

def new : ParticipantTable where
  sessions := ∅
  order := []
  nextSession := 1
  nodup := List.nodup_nil
  mem_order := by
    intro p
    simp only [List.not_mem_nil, Finmap.notMem_empty]

def isRegistered (t : ParticipantTable) (p : ParticipantId) : Bool := p ∈ t.sessions

def len (t : ParticipantTable) : Nat := t.sessions.keys.card

/-- A snapshot, in join order. -/
def participants (t : ParticipantTable) : List ParticipantId := t.order

/-- `sessions.remove`, and `remove_from_order`. -/
def remove (t : ParticipantTable) (p : ParticipantId) : ParticipantTable where
  sessions := t.sessions.erase p
  order := t.order.erase p
  nextSession := t.nextSession
  nodup := t.nodup.erase p
  mem_order := by
    intro q
    rw [t.nodup.mem_erase_iff, Finmap.mem_erase, t.mem_order]

theorem not_mem_remove (t : ParticipantTable) (p : ParticipantId) : p ∉ (t.remove p).sessions := by
  intro h
  exact (Finmap.mem_erase.mp h).1 rfl

/-- A new session of a participant that has none. -/
def insert (t : ParticipantTable) (p : ParticipantId) (h : p ∉ t.sessions) : ParticipantTable where
  sessions := t.sessions.insert p t.nextSession
  order := t.order ++ [p]
  nextSession := t.nextSession + 1
  nodup := by
    refine t.nodup.append (List.nodup_singleton p) ?_
    intro q hq hqp
    rw [List.mem_singleton] at hqp
    rw [hqp, t.mem_order] at hq
    exact h hq
  mem_order := by
    intro q
    rw [List.mem_append, List.mem_singleton, Finmap.mem_insert, t.mem_order, or_comm]

def applyJoin (t : ParticipantTable) (p : ParticipantId) : ParticipantTable × List SyncerEvent :=
  if h : p ∈ t.sessions then
    ((t.remove p).insert p (t.not_mem_remove p), [.peerLeft p, .peerJoined p])
  else (t.insert p h, [.peerJoined p])

def applyLeave (t : ParticipantTable) (p : ParticipantId) : ParticipantTable × List SyncerEvent :=
  if p ∈ t.sessions then (t.remove p, [.peerLeft p]) else (t, [])

def applyPendingPeerEvent [UuidCrate] (t : ParticipantTable) (event : PendingPeerEvent) :
    ParticipantTable × List SyncerEvent :=
  match ParticipantId.fromStr event.participantId with
  | none => (t, [.error (.invalidParticipantId event.participantId)])
  | some p =>
    match event.kind with
    | .joined => t.applyJoin p
    | .left => t.applyLeave p

variable {t : ParticipantTable} {p q : ParticipantId}

theorem mem_participants : p ∈ t.participants ↔ p ∈ t.sessions := t.mem_order p

theorem nodup_participants (t : ParticipantTable) : t.participants.Nodup := t.nodup

theorem isRegistered_iff : t.isRegistered p = true ↔ p ∈ t.participants := by
  rw [isRegistered, decide_eq_true_iff, mem_participants]

theorem len_eq (t : ParticipantTable) : t.len = t.participants.length := by
  have hkeys : t.sessions.keys = t.participants.toFinset := by
    ext p
    rw [Finmap.mem_keys, List.mem_toFinset, mem_participants]
  rw [len, hkeys, List.toFinset_card_of_nodup t.nodup_participants]

/-- The map and the list hold the same participants, each once. -/
structure Consistent (t : ParticipantTable) : Prop where
  nodup : t.participants.Nodup
  keys : ∀ p, p ∈ t.participants ↔ p ∈ t.sessions
  len : t.len = t.participants.length
  isRegistered : ∀ p, t.isRegistered p = true ↔ p ∈ t.participants

theorem consistent (t : ParticipantTable) : t.Consistent :=
  ⟨t.nodup_participants, fun _ => mem_participants, t.len_eq, fun _ => isRegistered_iff⟩

theorem participants_applyJoin :
    (t.applyJoin p).1.participants = t.participants.erase p ++ [p] := by
  unfold applyJoin
  split
  · rfl
  · rename_i h
    rw [← mem_participants] at h
    rw [List.erase_of_not_mem h]
    rfl

theorem participants_applyLeave : (t.applyLeave p).1.participants = t.participants.erase p := by
  unfold applyLeave
  split
  · rfl
  · rename_i h
    rw [← mem_participants] at h
    rw [List.erase_of_not_mem h]

theorem events_applyJoin :
    (t.applyJoin p).2 =
      if p ∈ t.participants then [.peerLeft p, .peerJoined p] else [.peerJoined p] := by
  simp only [applyJoin, mem_participants]
  split <;> rfl

theorem events_applyLeave :
    (t.applyLeave p).2 = if p ∈ t.participants then [.peerLeft p] else [] := by
  simp only [applyLeave, mem_participants]
  split <;> rfl

theorem mem_applyJoin :
    q ∈ (t.applyJoin p).1.participants ↔ q = p ∨ q ∈ t.participants := by
  rw [participants_applyJoin, List.mem_append, List.mem_singleton,
    t.nodup_participants.mem_erase_iff]
  by_cases h : q = p
  · simp [h]
  · simp [h]

theorem mem_applyLeave :
    q ∈ (t.applyLeave p).1.participants ↔ q ≠ p ∧ q ∈ t.participants := by
  rw [participants_applyLeave, t.nodup_participants.mem_erase_iff]

theorem lookup_applyJoin :
    (t.applyJoin p).1.sessions.lookup q =
      if q = p then some t.nextSession else t.sessions.lookup q := by
  have hinsert : ∀ s : Finmap fun _ : ParticipantId => UInt64,
      (s.insert p t.nextSession).lookup q = if q = p then some t.nextSession else s.lookup q := by
    intro s
    split
    · rename_i hqp
      rw [hqp, Finmap.lookup_insert]
    · rename_i hqp
      exact Finmap.lookup_insert_of_ne s hqp
  unfold applyJoin
  split
  · refine (hinsert _).trans ?_
    by_cases hqp : q = p
    · rw [if_pos hqp, if_pos hqp]
    · rw [if_neg hqp, if_neg hqp]
      exact Finmap.lookup_erase_ne hqp
  · exact hinsert _

theorem lookup_applyLeave :
    (t.applyLeave p).1.sessions.lookup q = if q = p then none else t.sessions.lookup q := by
  unfold applyLeave
  split
  · by_cases hqp : q = p
    · rw [if_pos hqp, hqp]
      exact Finmap.lookup_erase p t.sessions
    · rw [if_neg hqp]
      exact Finmap.lookup_erase_ne hqp
  · rename_i hp
    by_cases hqp : q = p
    · rw [if_pos hqp, hqp]
      exact Finmap.lookup_eq_none.mpr hp
    · rw [if_neg hqp]

@[simp] theorem nextSession_applyJoin : (t.applyJoin p).1.nextSession = t.nextSession + 1 := by
  unfold applyJoin
  split <;> rfl

@[simp] theorem nextSession_applyLeave : (t.applyLeave p).1.nextSession = t.nextSession := by
  unfold applyLeave
  split <;> rfl

/-- What a listener does with the events: `PeerLeft` deletes, `PeerJoined` appends. -/
def track (l : List ParticipantId) : SyncerEvent → List ParticipantId
  | .peerLeft p => l.erase p
  | .peerJoined p => l ++ [p]
  | _ => l

theorem track_applyJoin :
    (t.applyJoin p).2.foldl track t.participants = (t.applyJoin p).1.participants := by
  rw [participants_applyJoin, events_applyJoin]
  split
  · rfl
  · rename_i h
    rw [List.erase_of_not_mem h]
    rfl

theorem track_applyLeave :
    (t.applyLeave p).2.foldl track t.participants = (t.applyLeave p).1.participants := by
  rw [participants_applyLeave, events_applyLeave]
  split
  · rfl
  · rename_i h
    rw [List.erase_of_not_mem h]
    rfl

end ParticipantTable

end Syncer
end Bakopa
