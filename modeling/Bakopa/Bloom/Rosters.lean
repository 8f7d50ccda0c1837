import Bakopa.Bloom.Notices

/-!
# Bakopa.Bloom.Rosters

Every member of a room ends with the true list of its members.

A step that changes a room sends the new list to everyone in it (`Notices.roster`), and no other
step sends a list of that room (`Notices.no_roster`). So over a run the latest list a member was
sent is the stored one, unless the room is as its `create_room` left it (`members_know_roster`).
-/

namespace Bakopa
namespace Bloom

open Lib

section Latest

variable [UuidCrate] {p q : ParticipantId} {at_ : Option RoomId} {req : Option ClientToServer}
  {after : RoomManager} {mv : Move} {sent : List Sent} {r : RoomId}

/-- The list in a `RoomParticipants` for `q` whose `room_id` denotes `r`. -/
def rosterFor (r : RoomId) (q : ParticipantId) : Sent → Option (List String)
  | .sendTo target (.roomParticipants roomId participants) =>
    if target = q ∧ RoomId.fromStr roomId = some r then some participants else none
  | _ => none

def latestRoster {ι : Type} (r : RoomId) (q : ParticipantId) (os : List (ι × Sent)) :
    Option (List String) :=
  (os.filterMap fun x => rosterFor r q x.2).getLast?

/-- The participants as the messages name them. -/
def names (l : List ParticipantId) : List String := l.map (·.toString)

omit [UuidCrate] in
theorem getLast?_of_forall_eq {α : Type} {l : List α} {a : α} (hne : l ≠ []) (h : ∀ b ∈ l, b = a) :
    l.getLast? = some a := by
  rw [List.getLast?_eq_getLast_of_ne_nil hne, h _ (List.getLast_mem hne)]

theorem filterMap_sendAll_eq_nil {l : List ParticipantId} {message : ServerToClient}
    (h : ∀ p, rosterFor r q (.sendTo p message) = none) :
    (sendAll l message).filterMap (rosterFor r q) = [] := by
  rw [List.filterMap_eq_nil_iff]
  intro x hx
  obtain ⟨p, -, rfl⟩ := List.mem_map.mp hx
  exact h p

theorem getLast?_sendAll {l : List ParticipantId} {roomId : String} {participants : List String}
    (hr : RoomId.fromStr roomId = some r) (hq : q ∈ l) :
    ((sendAll l (.roomParticipants roomId participants)).filterMap (rosterFor r q)).getLast? =
      some participants := by
  refine getLast?_of_forall_eq (List.ne_nil_of_mem (a := participants) ?_) ?_
  · rw [List.mem_filterMap]
    exact ⟨_, mem_sendAll.mpr ⟨hq, rfl⟩, by simp [rosterFor, hr]⟩
  · intro b hb
    obtain ⟨x, hx, hb⟩ := List.mem_filterMap.mp hb
    obtain ⟨p, -, rfl⟩ := List.mem_map.mp hx
    simp only [rosterFor, Option.ite_none_right_eq_some, Option.some.injEq] at hb
    exact hb.2.symm

theorem Notices.roster [LawfulUuid] (h : Notices p at_ req after mv sent)
    (hmv : mv = .join r ∨ mv = .leave r) (hq : q ∈ after.members r) :
    (sent.filterMap (rosterFor r q)).getLast? = some (names (after.members r)) := by
  rcases hmv with rfl | rfl
  · cases h with
    | join hparse =>
      rw [List.filterMap_append, filterMap_sendAll_eq_nil fun _ => rfl, List.nil_append]
      exact getLast?_sendAll hparse hq
  · cases h with
    | leave =>
      rw [WsHandler.broadcastLeft, List.filterMap_append, filterMap_sendAll_eq_nil fun _ => rfl,
        List.nil_append]
      exact getLast?_sendAll (RoomId.fromStr_toString r) hq

theorem rosterFor_of_ne {r' : RoomId} {roomId : String} {participants : List String}
    (hr : RoomId.fromStr roomId = some r') (hne : r' ≠ r) :
    rosterFor r q (.sendTo p (.roomParticipants roomId participants)) = none := by
  have : ¬ (p = q ∧ RoomId.fromStr roomId = some r) := by
    rintro ⟨-, h⟩
    rw [hr] at h
    exact hne (Option.some.inj h)
  simp only [rosterFor, if_neg this]

theorem Notices.no_roster [LawfulUuid] (h : Notices p at_ req after mv sent)
    (hmv : ¬ (mv = .join r ∨ mv = .leave r)) : sent.filterMap (rosterFor r q) = [] := by
  cases h with
  | create message => rfl
  | @join roomId r' hparse =>
    have hne : r' ≠ r := fun he => hmv (.inl (congrArg Move.join he))
    rw [List.filterMap_append, filterMap_sendAll_eq_nil fun _ => rfl, List.nil_append]
    exact filterMap_sendAll_eq_nil fun _ => rosterFor_of_ne hparse hne
  | @leave r' =>
    have hne : r' ≠ r := fun he => hmv (.inr (congrArg Move.leave he))
    rw [WsHandler.broadcastLeft, List.filterMap_append, filterMap_sendAll_eq_nil fun _ => rfl,
      List.nil_append]
    exact filterMap_sendAll_eq_nil fun _ => rosterFor_of_ne (RoomId.fromStr_toString r') hne
  | @relay message target event t r' hreq hrelay =>
    cases message <;> cases hrelay <;> rfl
  | refused code text => rfl
  | silent => rfl
  | forget => rfl

end Latest

namespace Handlers

section Runs

variable {ι : Type} [DecidableEq ι] [UuidCrate] [BloomJson] {s₀ s s' : Handlers ι}
  {as : List (HandlerCall ι)} {os o : List (ι × Sent)} {a : HandlerCall ι} {r : RoomId}
  {q : ParticipantId}

/-- The run has a step that creates `r`, and the list of `r` has been the same ever since. -/
def UnchangedSinceCreate (s₀ : Handlers ι) (as : List (HandlerCall ι)) (s : Handlers ι)
    (r : RoomId) : Prop :=
  ∃ pre a post s₁ s₂ os₁ o os₂, as = pre ++ a :: post ∧
    Machine.Runs step s₀ pre os₁ s₁ ∧ step s₁ a = some (s₂, o) ∧ s₁.moveAt a = .create r ∧
    Machine.Runs step s₂ post os₂ s ∧
    Machine.Always step (fun t => t.core.rooms.participants r = s₂.core.rooms.participants r)
      s₂ post

theorem unchanged_of_create (hr : Machine.Runs step s₀ as os s) (h : step s a = some (s', o))
    (hmv : s.moveAt a = .create r) : UnchangedSinceCreate s₀ (as ++ [a]) s' r :=
  ⟨as, a, [], s, s', os, o, [], rfl, hr, h, hmv, .nil, rfl⟩

theorem UnchangedSinceCreate.next (hu : UnchangedSinceCreate s₀ as s r)
    (h : step s a = some (s', o))
    (hsame : s'.core.rooms.participants r = s.core.rooms.participants r) :
    UnchangedSinceCreate s₀ (as ++ [a]) s' r := by
  obtain ⟨pre, b, post, s₁, s₂, os₁, ob, os₂, rfl, hpre, hb, hmv, hpost, halways⟩ := hu
  refine ⟨pre, b, post ++ [a], s₁, s₂, os₁, ob, os₂ ++ o, by simp, hpre, hb, hmv,
    hpost.trans (Machine.Runs.single h), halways.snoc hpost fun s'' o' h' => ?_⟩
  rw [h] at h'
  cases h'
  rw [hsame]
  exact halways.last hpost

/-- What a run gives the member `q` of `r`. -/
def Knows (s₀ : Handlers ι) (s : Handlers ι) (as : List (HandlerCall ι)) (os : List (ι × Sent))
    (r : RoomId) (q : ParticipantId) : Prop :=
  UnchangedSinceCreate s₀ as s r ∨ latestRoster r q os = some (names (s.members r))

omit [DecidableEq ι] [BloomJson] in
theorem latestRoster_append (os o : List (ι × Sent)) :
    latestRoster r q (os ++ o) = (latestRoster r q o).or (latestRoster r q os) := by
  simp only [latestRoster, List.filterMap_append, List.getLast?_append]

omit [DecidableEq ι] [BloomJson] in
theorem latestRoster_map (c : ι) (sent : List Sent) :
    latestRoster r q (sent.map fun m => (c, m)) = (sent.filterMap (rosterFor r q)).getLast? := by
  simp only [latestRoster, List.filterMap_map, Function.comp_def]

theorem knows_step [LawfulUuid] (hs : Tracked s) (hr : Machine.Runs step s₀ as os s)
    (hknows : q ∈ s.members r → Knows s₀ s as os r q) (h : step s a = some (s', o))
    (hq : q ∈ s'.members r) : Knows s₀ s' (as ++ [a]) (os ++ o) r q := by
  have htook := step_took h
  obtain ⟨sent, rfl, hnotices⟩ := step_notices hs h
  by_cases hmv : s.moveAt a = .join r ∨ s.moveAt a = .leave r
  · refine .inr ?_
    rw [latestRoster_append, latestRoster_map, hnotices.roster hmv hq]
    rfl
  · have hnone := hnotices.no_roster (q := q) hmv
    rw [not_or] at hmv
    by_cases hcreate : s.moveAt a = .create r
    · exact .inl (unchanged_of_create hr h hcreate)
    · have hroom : (s.moveAt a).room ≠ some r := by
        intro he
        cases hm : s.moveAt a <;> simp_all [Move.room]
      have hsame : s'.core.rooms.participants r = s.core.rooms.participants r := by
        rw [htook.rooms]
        exact Move.participants_other htook.enabled hroom
      have hmembers : s'.members r = s.members r := by
        simp only [members, RoomManager.members, hsame]
      rw [hmembers] at hq
      rcases hknows hq with hu | hlatest
      · exact .inl (hu.next h hsame)
      · refine .inr ?_
        rw [latestRoster_append, latestRoster_map, hnone, hmembers, ← hlatest]
        rfl

/-- In every run, for every room and every member of it: the latest list of the room that the
member was sent is the stored one, in join order, unless the room is as it was created. -/
theorem members_know_roster [LawfulUuid] (h₀ : Initial s₀) (hd : Function.Injective s₀.pid)
    (hr : Machine.Runs step s₀ as os s) :
    ∀ r l, s.core.rooms.participants r = some l →
      l = (RoomModel.empty.calls (callsMade s₀ as)).1.list r ∧
      ∀ q ∈ l, UnchangedSinceCreate s₀ as s r ∨ latestRoster r q os = some (names l) := by
  intro r l hl
  refine ⟨((runs_shows h₀ hr).of_some hl).2.2.listing_eq.symm, fun q hq => ?_⟩
  have hmembers : s.members r = l := RoomManager.members_of_participants hl
  rw [← hmembers] at hq ⊢
  have hall : ∀ q, q ∈ s.members r → Knows s₀ s as os r q :=
    hr.history (I := fun s as os => ∀ q, q ∈ s.members r → Knows s₀ s as os r q)
      (fun q hq => by rw [h₀.members r] at hq; cases hq)
      (fun s as os a s' o hrun ih h q hq => by
        have hs : Tracked s := hrun.invariant (fun _ _ _ _ => step_tracked) (h₀.tracked hd)
        exact knows_step hs hrun (ih q) h hq)
  exact hall q hq

end Runs

theorem members_know_roster_create_and_join :
    let _ := hyphenated
    let _ := taggedJson
    ∃ s os, Machine.Runs step twoClients createAndJoin os s ∧
      s.core.rooms.participants ⟨7⟩ = some [⟨1⟩, ⟨2⟩] ∧
      ∀ r l, s.core.rooms.participants r = some l →
        l = (RoomModel.empty.calls (callsMade twoClients createAndJoin)).1.list r ∧
        ∀ q ∈ l, UnchangedSinceCreate twoClients createAndJoin s r ∨
          latestRoster r q os = some (names l) := by
  intro _ _
  have hlawful := hyphenated_lawful
  have hrun : (Machine.run step twoClients createAndJoin).map
      (fun r => r.1.core.rooms.participants ⟨7⟩) = some (some [⟨1⟩, ⟨2⟩]) := by decide +kernel
  obtain ⟨⟨s, os⟩, hr, hroom⟩ := Option.map_eq_some_iff.mp hrun
  exact ⟨s, os, Machine.run_sound hr, hroom,
    members_know_roster twoClients_initial twoClients_distinct (Machine.run_sound hr)⟩

end Handlers

end Bloom
end Bakopa
