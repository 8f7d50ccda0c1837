import Bakopa.Bloom.Room
import Bakopa.Lib.Seniority

/-!
# Bakopa.Bloom.RoomModel

What a room manager is for, and that `RoomManager` is one.

In the model (`RoomModel`) nothing is stored but who is in which room, and since when: a room is
the group of its current members, shown in the order of their latest effective join; it exists
while it has members. `RoomModel.call` answers every call from that alone.

`calls_refine`: a manager and the model that show the same rooms (`Shows`) give the same answers
to any calls and show the same rooms after them. `participants_calls_filter`: the list of a room
is what the calls naming it make of it.
-/

namespace Bakopa
namespace Bloom

open Lib

inductive RoomCall where
  | createRoom (roomId : RoomId) (roomOwner : ParticipantId)
  | joinRoom (roomId : RoomId) (participant : ParticipantId)
  | leaveRoom (roomId : RoomId) (participant : ParticipantId)
  | participants (roomId : RoomId)

inductive RoomAnswer where
  | created (result : CreateRoomResult)
  | joined (result : Option (Except JoinRoomError (List ParticipantId)))
  | left (result : Option (List ParticipantId))
  | listed (result : Option (List ParticipantId))

/-- The room a call names; `create_room` names the one it makes. -/
def RoomCall.room : RoomCall → RoomId
  | .createRoom r _ | .joinRoom r _ | .leaveRoom r _ | .participants r => r

def RoomManager.call (m : RoomManager) : RoomCall → RoomManager × RoomAnswer
  | .createRoom r p => ((m.createRoom r p).1, .created (m.createRoom r p).2)
  | .joinRoom r p => ((m.joinRoom r p).1, .joined (m.joinRoom r p).2)
  | .leaveRoom r p => ((m.leaveRoom r p).1, .left (m.leaveRoom r p).2)
  | .participants r => (m, .listed (m.participants r))

def RoomManager.calls : RoomManager → List RoomCall → RoomManager × List RoomAnswer
  | m, [] => (m, [])
  | m, c :: cs => (((m.call c).1.calls cs).1, (m.call c).2 :: ((m.call c).1.calls cs).2)

/-! ## The model -/

/-- Who is in which room, and since when. Every time is before `clock`. -/
structure RoomModel where
  clock : Nat
  since : RoomId → Since ParticipantId
  since_lt : ∀ r p t, since r p = some t → t < clock

namespace RoomModel

def empty : RoomModel where
  clock := 0
  since _ := Since.none
  since_lt := by simp [Since.none]

def members (s : RoomModel) (r : RoomId) : Set ParticipantId := (s.since r).members

noncomputable def list (s : RoomModel) (r : RoomId) : List ParticipantId := (s.since r).listing

def create (s : RoomModel) (r : RoomId) (p : ParticipantId) : RoomModel where
  clock := s.clock + 1
  since := Function.update s.since r (Since.none.enter p s.clock)
  since_lt r' q t h := by
    by_cases hr : r' = r
    · subst hr
      by_cases hq : q = p
      · subst hq
        rw [Function.update_self, Since.enter_self] at h; cases h
        omega
      · rw [Function.update_self, Since.enter_of_ne hq] at h; cases h
    · rw [Function.update_of_ne hr] at h
      have := s.since_lt r' q t h
      omega

def enter (s : RoomModel) (r : RoomId) (p : ParticipantId) : RoomModel where
  clock := s.clock + 1
  since := Function.update s.since r ((s.since r).enter p s.clock)
  since_lt r' q t h := by
    by_cases hr : r' = r
    · subst hr
      by_cases hq : q = p
      · subst hq
        rw [Function.update_self, Since.enter_self] at h; cases h
        omega
      · rw [Function.update_self, Since.enter_of_ne hq] at h
        have := s.since_lt r' q t h
        omega
    · rw [Function.update_of_ne hr] at h
      have := s.since_lt r' q t h
      omega

def leave (s : RoomModel) (r : RoomId) (p : ParticipantId) : RoomModel where
  clock := s.clock
  since := Function.update s.since r ((s.since r).leave p)
  since_lt r' q t h := by
    by_cases hr : r' = r
    · subst hr
      by_cases hq : q = p
      · subst hq
        rw [Function.update_self, Since.leave_self] at h; cases h
      · rw [Function.update_self, Since.leave_of_ne hq] at h
        exact s.since_lt r' q t h
    · rw [Function.update_of_ne hr] at h
      exact s.since_lt r' q t h

open Classical in
noncomputable def call (s : RoomModel) : RoomCall → RoomModel × RoomAnswer
  | .createRoom r p => (s.create r p, .created ⟨r, p, [p]⟩)
  | .joinRoom r p =>
    if s.members r = ∅ then (s, .joined none)
    else if p ∈ s.members r then (s, .joined (some (.ok (s.list r))))
    else if (s.members r).ncard = maxParticipants then (s, .joined (some (.error .roomFull)))
    else (s.enter r p, .joined (some (.ok ((s.enter r p).list r))))
  | .leaveRoom r p =>
    if s.members r = ∅ then (s, .left none)
    else (s.leave r p, .left (some ((s.leave r p).list r)))
  | .participants r => (s, .listed (if s.members r = ∅ then none else some (s.list r)))

noncomputable def calls : RoomModel → List RoomCall → RoomModel × List RoomAnswer
  | s, [] => (s, [])
  | s, c :: cs => (((s.call c).1.calls cs).1, (s.call c).2 :: ((s.call c).1.calls cs).2)

end RoomModel

/-! ## The manager refines the model -/

/-- A stored list, or its absence, shows a group: no room without members, none over capacity. -/
def ShowsRoom (stored : Option (List ParticipantId)) (since : Since ParticipantId) : Prop :=
  match stored with
  | none => since.members = ∅
  | some l => l ≠ [] ∧ l.length ≤ maxParticipants ∧ Listing since l

def Shows (m : RoomManager) (s : RoomModel) : Prop :=
  ∀ r, ShowsRoom (m.participants r) (s.since r)

section Refinement

variable {m : RoomManager} {s : RoomModel} {r : RoomId} {p : ParticipantId}
  {l : List ParticipantId}

theorem Shows.of_none (h : Shows m s) (hr : m.participants r = none) : s.members r = ∅ := by
  have := h r
  rwa [hr] at this

theorem Shows.of_some (h : Shows m s) (hr : m.participants r = some l) :
    l ≠ [] ∧ l.length ≤ maxParticipants ∧ Listing (s.since r) l := by
  have := h r
  rwa [hr] at this

theorem Shows.members_ne_empty (h : Shows m s) (hr : m.participants r = some l) :
    s.members r ≠ ∅ := by
  obtain ⟨hne, -, hl⟩ := h.of_some hr
  exact fun he => hne (hl.nil_iff.mpr he)

theorem shows_empty : Shows .new .empty := by
  intro r
  rw [RoomManager.participants_new]
  simp [ShowsRoom, RoomModel.empty, Since.members, Since.none]

theorem Shows.update (h : Shows m s) {m' : RoomManager} {s' : RoomModel}
    {stored : Option (List ParticipantId)} {w : Since ParticipantId}
    (hm : ∀ r', m'.participants r' = if r' = r then stored else m.participants r')
    (hs : s'.since = Function.update s.since r w) (hr : ShowsRoom stored w) :
    Shows m' s' := by
  intro r'
  rw [hm, hs]
  by_cases hrr : r' = r
  · subst hrr; rwa [if_pos rfl, Function.update_self]
  · rw [if_neg hrr, Function.update_of_ne hrr]; exact h r'

theorem shows_createRoom (h : Shows m s) : Shows (m.createRoom r p).1 (s.create r p) := by
  refine h.update (fun r' => RoomManager.participants_createRoom) rfl ⟨by simp, ?_, ?_⟩
  · simp [maxParticipants]
  · have := Listing.nil.enter (a := p) (t := s.clock) (by simp [Since.members, Since.none])
      (by simp [Since.none])
    simpa using this

theorem shows_enter (h : Shows m s) (hr : m.participants r = some l)
    (hlen : l.length < maxParticipants) (hp : p ∉ l) :
    Shows (m.joinRoom r p).1 (s.enter r p) := by
  obtain ⟨-, -, hl⟩ := h.of_some hr
  have hjoined : RoomManager.joined l p = l ++ [p] := if_pos hp
  refine h.update (fun r' => RoomManager.participants_joinRoom_ok hr (.inl hlen)) rfl ?_
  rw [hjoined]
  refine ⟨by simp, by simpa using hlen, hl.enter ?_ (s.since_lt r)⟩
  exact fun hmem => hp ((hl.mem_iff p).mpr hmem)

theorem shows_rejoin (h : Shows m s) (hr : m.participants r = some l) (hp : p ∈ l) :
    Shows (m.joinRoom r p).1 s := by
  have hjoined : RoomManager.joined l p = l := if_neg (not_not.mpr hp)
  refine h.update (r := r) (w := s.since r)
    (fun r' => RoomManager.participants_joinRoom_ok hr (.inr hp)) ?_ ?_
  · rw [Function.update_eq_self]
  · rw [hjoined]; exact h.of_some hr

theorem shows_leave (h : Shows m s) (hr : m.participants r = some l) :
    Shows (m.leaveRoom r p).1 (s.leave r p) := by
  obtain ⟨-, hlen, hl⟩ := h.of_some hr
  refine h.update (fun r' => RoomManager.participants_leaveRoom hr) rfl ?_
  have hleft := hl.leave p
  split
  · rename_i he
    rw [List.isEmpty_iff] at he
    exact hleft.nil_iff.mp he
  · rename_i he
    rw [List.isEmpty_iff] at he
    exact ⟨he, (List.length_filter_le _ _).trans hlen, hleft⟩

/-- One call: the same answer, and the same rooms after it. -/
theorem call_refines (h : Shows m s) (c : RoomCall) :
    (m.call c).2 = (s.call c).2 ∧ Shows (m.call c).1 (s.call c).1 := by
  cases c with
  | createRoom r p => exact ⟨rfl, shows_createRoom h⟩
  | joinRoom r p =>
    rcases RoomManager.joinRoom_cases m r p with ⟨hr, hj⟩ | ⟨l, hr, ha, hj⟩ | ⟨l, hr, ha, hj⟩
    · have hempty := h.of_none hr
      simp only [RoomManager.call, RoomModel.call, hj, if_pos hempty]
      exact ⟨trivial, h⟩
    · obtain ⟨-, hmax, hl⟩ := h.of_some hr
      rw [RoomManager.Admits, not_or, not_lt] at ha
      have hcard : (s.members r).ncard = maxParticipants := by
        rw [RoomModel.members, hl.ncard_eq]; omega
      have hmem : p ∉ s.members r := fun hmem => ha.2 ((hl.mem_iff p).mpr hmem)
      simp only [RoomManager.call, RoomModel.call, hj, if_neg (h.members_ne_empty hr),
        if_neg hmem, if_pos hcard]
      exact ⟨trivial, h⟩
    · obtain ⟨-, hmax, hl⟩ := h.of_some hr
      by_cases hp : p ∈ l
      · have hjoined : RoomManager.joined l p = l := if_neg (not_not.mpr hp)
        have hmem : p ∈ s.members r := (hl.mem_iff p).mp hp
        have hshows := shows_rejoin h hr hp
        rw [hj] at hshows
        simp only [RoomManager.call, RoomModel.call, hj, if_neg (h.members_ne_empty hr),
          if_pos hmem]
        exact ⟨by rw [hjoined, RoomModel.list, hl.listing_eq], hshows⟩
      · have hlen : l.length < maxParticipants := ha.resolve_right hp
        have hcard : ¬ (s.members r).ncard = maxParticipants := by
          rw [RoomModel.members, hl.ncard_eq]; omega
        have hmem : p ∉ s.members r := fun hmem => hp ((hl.mem_iff p).mpr hmem)
        have hshows := shows_enter h hr hlen hp
        have hlist := (hshows.of_some
          ((RoomManager.participants_joinRoom_ok hr ha).trans (if_pos rfl))).2.2.listing_eq
        rw [hj] at hshows
        simp only [RoomManager.call, RoomModel.call, hj, if_neg (h.members_ne_empty hr),
          if_neg hmem, if_neg hcard]
        exact ⟨by rw [RoomModel.list, hlist], hshows⟩
  | leaveRoom r p =>
    cases hr : m.participants r with
    | none =>
      have hempty := h.of_none hr
      simp only [RoomManager.call, RoomModel.call, RoomManager.leaveRoom_none hr, if_pos hempty]
      exact ⟨trivial, h⟩
    | some l =>
      have hlist : (s.leave r p).list r = l.filter (· ≠ p) := by
        have hsince : (s.leave r p).since r = (s.since r).leave p := Function.update_self ..
        rw [RoomModel.list, hsince]
        exact ((h.of_some hr).2.2.leave p).listing_eq
      simp only [RoomManager.call, RoomModel.call, RoomManager.leaveRoom_answer hr,
        if_neg (h.members_ne_empty hr), hlist]
      exact ⟨trivial, shows_leave h hr⟩
  | participants r =>
    cases hr : m.participants r with
    | none =>
      simp only [RoomManager.call, RoomModel.call, hr, if_pos (h.of_none hr)]
      exact ⟨trivial, h⟩
    | some l =>
      have hlist : s.list r = l := (h.of_some hr).2.2.listing_eq
      simp only [RoomManager.call, RoomModel.call, hr, if_neg (h.members_ne_empty hr), hlist]
      exact ⟨trivial, h⟩

theorem calls_refine (cs : List RoomCall) :
    ∀ {m : RoomManager} {s : RoomModel}, Shows m s →
      (m.calls cs).2 = (s.calls cs).2 ∧ Shows (m.calls cs).1 (s.calls cs).1 := by
  induction cs with
  | nil => intro m s h; exact ⟨rfl, h⟩
  | cons c cs ih =>
    intro m s h
    obtain ⟨hanswer, hshows⟩ := call_refines h c
    obtain ⟨hanswers, hend⟩ := ih hshows
    simp only [RoomManager.calls, RoomModel.calls]
    exact ⟨by rw [hanswer, hanswers], hend⟩

end Refinement

theorem participants_call_of_ne {m : RoomManager} {c : RoomCall} {r : RoomId} (h : c.room ≠ r) :
    (m.call c).1.participants r = m.participants r := by
  have hr : ¬ r = c.room := fun e => h e.symm
  cases c with
  | createRoom r' p => exact RoomManager.participants_createRoom.trans (if_neg hr)
  | joinRoom r' p =>
    rcases RoomManager.joinRoom_cases m r' p with ⟨-, hj⟩ | ⟨l, -, -, hj⟩ | ⟨l, hl, ha, -⟩
    · simp only [RoomManager.call, hj]
    · simp only [RoomManager.call, hj]
    · exact (RoomManager.participants_joinRoom_ok hl ha).trans (if_neg hr)
  | leaveRoom r' p =>
    cases hl : m.participants r' with
    | none => simp only [RoomManager.call, RoomManager.leaveRoom_none hl]
    | some l => exact (RoomManager.participants_leaveRoom hl).trans (if_neg hr)
  | participants r' => rfl

/-- What a call makes of the room it names depends on that room only. -/
theorem participants_call_congr {m m' : RoomManager} {c : RoomCall}
    (h : m.participants c.room = m'.participants c.room) :
    (m.call c).1.participants c.room = (m'.call c).1.participants c.room := by
  cases c with
  | createRoom r p =>
    exact (RoomManager.participants_createRoom.trans (if_pos rfl)).trans
      (RoomManager.participants_createRoom.trans (if_pos rfl)).symm
  | joinRoom r p =>
    change m.participants r = m'.participants r at h
    change (m.joinRoom r p).1.participants r = (m'.joinRoom r p).1.participants r
    rcases RoomManager.joinRoom_cases m r p with ⟨hr, hj⟩ | ⟨l, hr, ha, hj⟩ | ⟨l, hr, ha, -⟩
    · rw [hj, RoomManager.joinRoom_none (h ▸ hr)]; exact h
    · rw [RoomManager.Admits, not_or, not_lt] at ha
      rw [hj, RoomManager.joinRoom_full (h ▸ hr) ha.1 ha.2]; exact h
    · rw [RoomManager.participants_joinRoom_ok hr ha,
        RoomManager.participants_joinRoom_ok (h ▸ hr) ha, if_pos rfl, if_pos rfl]
  | leaveRoom r p =>
    change m.participants r = m'.participants r at h
    change (m.leaveRoom r p).1.participants r = (m'.leaveRoom r p).1.participants r
    cases hr : m.participants r with
    | none => rw [RoomManager.leaveRoom_none hr, RoomManager.leaveRoom_none (h ▸ hr)]; exact h
    | some l =>
      rw [RoomManager.participants_leaveRoom hr, RoomManager.participants_leaveRoom (h ▸ hr),
        if_pos rfl, if_pos rfl]
  | participants r => exact h

theorem participants_calls_filter (cs : List RoomCall) (r : RoomId) :
    ∀ {m m' : RoomManager}, m.participants r = m'.participants r →
      (m.calls cs).1.participants r =
        (m'.calls (cs.filter (·.room = r))).1.participants r := by
  induction cs with
  | nil => intro m m' h; exact h
  | cons c cs ih =>
    intro m m' h
    by_cases hc : c.room = r
    · rw [List.filter_cons_of_pos (by simpa using hc)]
      subst hc
      exact ih (participants_call_congr h)
    · rw [List.filter_cons_of_neg (by simpa using hc)]
      exact ih ((participants_call_of_ne hc).trans h)

theorem shows_calls_new (cs : List RoomCall) :
    Shows (RoomManager.new.calls cs).1 (RoomModel.empty.calls cs).1 :=
  (calls_refine cs shows_empty).2

/-- What `join_room` answers and does, said from the rooms alone. -/
theorem joinRoom_spec {m : RoomManager} (hmax : ∀ r l, m.participants r = some l →
    l.length ≤ maxParticipants) (r : RoomId) (p : ParticipantId) :
    ((m.joinRoom r p).2 = none ↔ m.participants r = none) ∧
    ((m.joinRoom r p).2 = some (.error .roomFull) ↔
      ∃ l, m.participants r = some l ∧ l.length = maxParticipants ∧ p ∉ l) ∧
    ((m.joinRoom r p).2 = some (.error .roomFull) → (m.joinRoom r p).1 = m) ∧
    ∀ l', (m.joinRoom r p).2 = some (.ok l') →
      (m.joinRoom r p).1.participants r = some l' ∧
      ∃ l, m.participants r = some l ∧ (p ∈ l ∧ l' = l ∨ p ∉ l ∧ l' = l ++ [p]) := by
  rcases RoomManager.joinRoom_cases m r p with ⟨hr, hj⟩ | ⟨l, hr, ha, hj⟩ | ⟨l, hr, ha, hj⟩
  · simp [hj, hr]
  · rw [RoomManager.Admits, not_or, not_lt] at ha
    have hlen : l.length = maxParticipants := le_antisymm (hmax r l hr) ha.1
    simp [hj, hr, hlen, ha.2]
  · refine ⟨by simp [hj, hr], ?_, by simp [hj], ?_⟩
    · have : ¬ (l.length = maxParticipants ∧ p ∉ l) := by
        rintro ⟨hlen, hp⟩
        exact ha.elim (fun h => by omega) hp
      simpa [hj, hr] using this
    · intro l' hl'
      have hl'' : RoomManager.joined l p = l' := by simpa [hj] using hl'
      refine ⟨?_, l, hr, ?_⟩
      · rw [RoomManager.participants_joinRoom_ok hr ha, if_pos rfl, hl'']
      · by_cases hp : p ∈ l
        · exact .inl ⟨hp, by rw [← hl'', RoomManager.joined, if_neg (not_not.mpr hp)]⟩
        · exact .inr ⟨hp, by rw [← hl'', RoomManager.joined, if_pos hp]⟩

/-- **Any calls on a fresh manager.** The answers are the model's; a room exists exactly when the
model has members in it, and then its list is theirs in the order of their latest effective join,
never empty, without duplicates, at most `maxParticipants` long; `join_room` and `leave_room`
answer from that list; and the list of a room is what the calls naming it make of it. -/
theorem roomManager_behaves_as_model (cs : List RoomCall) :
    (RoomManager.new.calls cs).2 = (RoomModel.empty.calls cs).2 ∧
    (∀ r, ((RoomManager.new.calls cs).1.participants r).isSome ↔
      ((RoomModel.empty.calls cs).1.members r).Nonempty) ∧
    (∀ r l, (RoomManager.new.calls cs).1.participants r = some l →
      l = (RoomModel.empty.calls cs).1.list r ∧ Listing ((RoomModel.empty.calls cs).1.since r) l ∧
      l ≠ [] ∧ l.Nodup ∧ l.length ≤ maxParticipants) ∧
    (∀ r p,
      (((RoomManager.new.calls cs).1.joinRoom r p).2 = none ↔
        (RoomManager.new.calls cs).1.participants r = none) ∧
      (((RoomManager.new.calls cs).1.joinRoom r p).2 = some (.error .roomFull) ↔
        ∃ l, (RoomManager.new.calls cs).1.participants r = some l ∧
          l.length = maxParticipants ∧ p ∉ l) ∧
      (((RoomManager.new.calls cs).1.joinRoom r p).2 = some (.error .roomFull) →
        ((RoomManager.new.calls cs).1.joinRoom r p).1 = (RoomManager.new.calls cs).1) ∧
      ∀ l', ((RoomManager.new.calls cs).1.joinRoom r p).2 = some (.ok l') →
        ((RoomManager.new.calls cs).1.joinRoom r p).1.participants r = some l' ∧
        ∃ l, (RoomManager.new.calls cs).1.participants r = some l ∧
          (p ∈ l ∧ l' = l ∨ p ∉ l ∧ l' = l ++ [p])) ∧
    (∀ r p l, (RoomManager.new.calls cs).1.participants r = some l →
      ((RoomManager.new.calls cs).1.leaveRoom r p).2 = some (l.filter (· ≠ p)) ∧
      ((RoomManager.new.calls cs).1.leaveRoom r p).1.participants r =
        if (l.filter (· ≠ p)).isEmpty then none else some (l.filter (· ≠ p))) ∧
    (∀ r ds, cs.filter (·.room = r) = ds.filter (·.room = r) →
      (RoomManager.new.calls cs).1.participants r =
        (RoomManager.new.calls ds).1.participants r) := by
  have hshows := shows_calls_new cs
  refine ⟨(calls_refine cs shows_empty).1, ?_, ?_, ?_, ?_, ?_⟩
  · intro r
    rw [Set.nonempty_iff_ne_empty]
    cases hr : (RoomManager.new.calls cs).1.participants r with
    | none => simpa using hshows.of_none hr
    | some l => simpa using hshows.members_ne_empty hr
  · intro r l hr
    obtain ⟨hne, hmax, hl⟩ := hshows.of_some hr
    exact ⟨hl.listing_eq.symm, hl, hne, hl.nodup, hmax⟩
  · exact joinRoom_spec fun r l hr => (hshows.of_some hr).2.1
  · intro r p l hr
    refine ⟨RoomManager.leaveRoom_answer hr, ?_⟩
    rw [RoomManager.participants_leaveRoom hr, if_pos rfl]
  · intro r ds hds
    rw [participants_calls_filter cs r rfl, hds, ← participants_calls_filter ds r rfl]

end Bloom
end Bakopa
