import Bakopa.Bloom.Handlers

/-!
# Bakopa.Bloom.Membership

Whoever is listed in a room has that room as its `room_id`, so that a leave or an abnormal close
takes it out of every room it is in.

`Handlers.Tracked` is half of this. The other half (`Settled`) is kept by every move except the
ones that stray: `create` and `join` overwrite the `room_id` without leaving the room it named.
`settled_iff_no_abandon` says so for whole runs, in terms of the requests.
-/

namespace Bakopa
namespace Bloom

open Lib

/-- The moves after which the participant is still in a room its handler no longer names. -/
def Move.Strays (at_ : Option RoomId) : Move → Prop
  | .create _ | .forget => ∃ r₀, at_ = some r₀
  | .join r => ∃ r₀, at_ = some r₀ ∧ r ≠ r₀
  | .leave _ | .stay => False

namespace Handlers

variable {ι : Type} {s s' : Handlers ι} {a : HandlerCall ι} {o : List (ι × Sent)} {c c' : ι}
  {mv : Move} {r : RoomId}

/-- Every room that lists the participant of `c` is the room of its handler. -/
def SettledAt (s : Handlers ι) (c : ι) : Prop :=
  ∀ r, s.pid c ∈ s.members r → s.roomId c = some r

theorem Took.settledAt_other (h : Took s s' c mv) (hs : Tracked s) (hc : c' ≠ c) :
    SettledAt s' c' ↔ SettledAt s c' := by
  have hne : s.pid c' ≠ s.pid c := fun heq => hc (hs.distinct heq)
  simp only [SettledAt, h.pid, h.mem_other hne, h.others c' hc]

/-- The one step lemma: a settled handler stays settled unless its move strays. -/
theorem Took.settledAt_own (h : Took s s' c mv) (ht : Tracked s) (hs : SettledAt s c) :
    SettledAt s' c ↔ ¬ mv.Strays (s.roomId c) := by
  have hmem : ∀ r, s'.pid c ∈ s'.members r ↔ mv.Lists r (s.pid c ∈ s.members r) :=
    fun r => h.mem_own
  simp only [SettledAt, hmem, h.room]
  cases mv with
  | create drawn =>
    -- the drawn room is new, so the room the handler had is another one
    have hfresh : s.pid c ∉ s.members drawn := by
      have he : s.core.rooms.participants drawn = none := h.enabled
      simp [members, RoomManager.members, he]
    constructor
    · rintro hall ⟨r₀, hr₀⟩
      have hin := ht.held c r₀ hr₀
      have heq := hall r₀ (.inr hin)
      simp only [Move.apply, Option.some.injEq] at heq
      exact hfresh (heq ▸ hin)
    · intro hno r hr
      rcases hr with rfl | hr
      · rfl
      · exact absurd ⟨r, hs r hr⟩ hno
  | join r' =>
    constructor
    · rintro hall ⟨r₀, hr₀, hne⟩
      have heq := hall r₀ (.inr (ht.held c r₀ hr₀))
      simp only [Move.apply, Option.some.injEq] at heq
      exact hne heq
    · intro hno r hr
      rcases hr with rfl | hr
      · rfl
      · by_cases heq : r' = r
        · subst heq; rfl
        · exact absurd ⟨r, hs r hr, heq⟩ hno
  | leave r' =>
    constructor
    · exact fun _ => id
    · rintro - r ⟨hne, hr⟩
      have heq : s.roomId c = some r' := h.enabled
      rw [hs r hr, Option.some.injEq] at heq
      exact absurd heq hne
  | forget =>
    constructor
    · rintro hall ⟨r₀, hr₀⟩
      have heq := hall r₀ (ht.held c r₀ hr₀)
      cases heq
    · intro hno r hr
      exact absurd ⟨r, hs r hr⟩ hno
  | stay => exact ⟨fun _ => id, fun _ => hs⟩

/-- A call after which the participant that makes it must be in no room. -/
def Leaves [UuidCrate] [BloomJson] (s : Handlers ι) : HandlerCall ι → Prop
  | .text c now _ text => s.Requests c now text .leaveRoom
  | .binary _ => False
  | .abnormalClose _ => True

section Calls

variable [DecidableEq ι] [UuidCrate] [BloomJson]

structure Settled (s : Handlers ι) : Prop where
  single : ∀ q r r', q ∈ s.members r → q ∈ s.members r' → r = r'
  cached : ∀ c r, s.pid c ∈ s.members r → s.roomId c = some r
  freed : ∀ a s' o, step s a = some (s', o) → Leaves s a → ∀ r, s'.pid a.conn ∉ s'.members r

omit [DecidableEq ι] in
theorem moveAt_of_leaves (hs : Tracked s) (hl : Leaves s a) :
    s.moveAt a = match s.roomId a.conn with
      | none => .stay
      | some r => .leave r := by
  cases a with
  | text c now drawn text =>
    have hreq : (s.handler c).request now text = some .leaveRoom := hl
    simp only [moveAt, hreq, WsHandler.moveOf, HandlerCall.conn, roomId]
    cases hr : (s.handler c).roomId with
    | none => rfl
    | some r =>
      obtain ⟨l, hlist, -⟩ := RoomManager.exists_of_mem_members (hs.held c r hr)
      simp only [hlist, Option.isSome_some, if_true]
  | binary c => cases hl
  | abnormalClose c => rfl

theorem settled_iff (hs : Tracked s) : Settled s ↔ ∀ c, SettledAt s c := by
  constructor
  · exact fun h c r hr => h.cached c r hr
  · intro h
    refine ⟨?_, fun c r hr => h c r hr, ?_⟩
    · intro q r r' hr hr'
      obtain ⟨c, rfl⟩ := hs.known q r hr
      have heq := (h c r hr).symm.trans (h c r' hr')
      exact Option.some.inj heq
    · intro a s' o ha hl r hr
      have htook := step_took ha
      rw [htook.mem_own, moveAt_of_leaves hs hl] at hr
      cases hroom : s.roomId a.conn with
      | none =>
        simp only [hroom, Move.Lists] at hr
        rw [h a.conn r hr] at hroom
        cases hroom
      | some r₀ =>
        simp only [hroom, Move.Lists] at hr
        rw [h a.conn r hr.2] at hroom
        exact hr.1 (Option.some.inj hroom)

/-- A request that gives the handler a room while it has another: a `CreateRoom`, or a `JoinRoom`
of another room that lets the participant in. -/
def Abandons (s : Handlers ι) : HandlerCall ι → Prop
  | .text c now _ text =>
    ∃ r₀, s.roomId c = some r₀ ∧
      (s.Requests c now text .createRoom ∨
        ∃ roomId r l, s.Requests c now text (.joinRoom roomId) ∧
          RoomId.fromStr roomId = some r ∧ r ≠ r₀ ∧
          s.core.rooms.participants r = some l ∧ RoomManager.Admits l (s.pid c))
  | .binary _ | .abnormalClose _ => False

omit [DecidableEq ι] in
theorem strays_iff_abandons (hbin : ∀ c, a ≠ .binary c) :
    (s.moveAt a).Strays (s.roomId a.conn) ↔ Abandons s a := by
  cases a with
  | text c now drawn text =>
    simp only [moveAt, HandlerCall.conn, Abandons, Requests]
    cases hreq : (s.handler c).request now text with
    | none => simp [WsHandler.moveOf, Move.Strays]
    | some message =>
      cases message with
      | createRoom => simp [WsHandler.moveOf, Move.Strays]
      | joinRoom roomId =>
        simp only [WsHandler.moveOf]
        cases hparse : RoomId.fromStr roomId with
        | none => simp [Move.Strays, hparse]
        | some r =>
          simp only []
          cases hl : s.core.rooms.participants r with
          | none => simp [Move.Strays, hparse, hl]
          | some l =>
            by_cases ha : RoomManager.Admits l (s.handler c).participantId
            · simp [Move.Strays, hparse, hl, ha, pid]
            · simp [Move.Strays, hparse, hl, ha, pid]
      | leaveRoom =>
        simp only [WsHandler.moveOf]
        split
        · simp [Move.Strays]
        · split <;> simp [Move.Strays]
      | offer target payload => simp [WsHandler.moveOf, Move.Strays]
      | answer target payload => simp [WsHandler.moveOf, Move.Strays]
      | iceCandidate target payload => simp [WsHandler.moveOf, Move.Strays]
  | binary c => exact absurd rfl (hbin c)
  | abnormalClose c =>
    simp only [moveAt, WsHandler.closeMove, HandlerCall.conn, Abandons, roomId]
    cases (s.handler c).roomId with
    | none => simp [Move.Strays]
    | some r => simp [Move.Strays]

theorem step_settled (hs : Tracked s) (hset : Settled s) (h : step s a = some (s', o)) :
    Settled s' ↔ ¬ (s.moveAt a).Strays (s.roomId a.conn) := by
  have htook := step_took h
  have hall := (settled_iff hs).mp hset
  rw [settled_iff (htook.tracked hs), ← htook.settledAt_own hs (hall a.conn)]
  constructor
  · exact fun hs' => hs' a.conn
  · intro hown c
    by_cases hc : c = a.conn
    · rw [hc]; exact hown
    · exact (htook.settledAt_other hs hc).mpr (hall c)

theorem Initial.settled (h : Initial s) (hd : Function.Injective s.pid) : Settled s := by
  rw [settled_iff (h.tracked hd)]
  intro c r hr
  rw [h.members r] at hr
  cases hr

/-- In a run of text messages and abnormal closes every state is settled exactly when no request
of the run abandons a room. -/
theorem settled_iff_no_abandon {s₀ : Handlers ι} {as : List (HandlerCall ι)} (h₀ : Initial s₀)
    (hd : Function.Injective s₀.pid) (hcalls : ∀ c, .binary c ∉ as) :
    Machine.Always step Settled s₀ as ↔ Machine.Each step (fun s a => ¬ Abandons s a) s₀ as := by
  have hiff : Machine.Always step Settled s₀ as ↔
      Machine.Each step (fun s a => ¬ (s.moveAt a).Strays (s.roomId a.conn)) s₀ as :=
    Machine.always_iff_each (J := Tracked) (fun _ _ _ _ => step_tracked)
      (fun _ _ _ _ hs hset => step_settled hs hset) (h₀.tracked hd) (h₀.settled hd)
  rw [hiff]
  refine Machine.Each.congr fun s a ha _ _ _ => not_congr (strays_iff_abandons ?_)
  rintro c rfl
  exact hcalls c ha

end Calls

/-- A client that creates a room and then sends something else abandons none. -/
theorem settled_iff_no_abandon_two_clients :
    let _ := hyphenated
    let _ := taggedJson
    Machine.Always step Settled twoClients [.text true 0 ⟨7⟩ createRoomText, .abnormalClose true] ↔
      Machine.Each step (fun s a => ¬ Abandons s a) twoClients
        [.text true 0 ⟨7⟩ createRoomText, .abnormalClose true] := by
  intro _ _
  exact settled_iff_no_abandon twoClients_initial twoClients_distinct (by simp)

/-- Two `CreateRoom`s in a row: the client is in both rooms, and its `room_id` names the second. -/
theorem create_twice_unsettled :
    let _ := hyphenated
    let _ := taggedJson
    ∃ s os, Machine.Runs step twoClients
        [.text true 0 ⟨7⟩ createRoomText, .text true 0 ⟨8⟩ createRoomText] os s ∧
      s.members ⟨7⟩ = [s.pid true] ∧ s.members ⟨8⟩ = [s.pid true] ∧ s.roomId true = some ⟨8⟩ ∧
      ¬ Settled s := by
  intro _ _
  have hrun : ∃ s os, Machine.Runs step twoClients
      [.text true 0 ⟨7⟩ createRoomText, .text true 0 ⟨8⟩ createRoomText] os s ∧
      s.members ⟨7⟩ = [s.pid true] ∧ s.members ⟨8⟩ = [s.pid true] ∧ s.roomId true = some ⟨8⟩ :=
    ⟨_, _, Machine.run_sound rfl, rfl, rfl, rfl⟩
  obtain ⟨s, os, hr, h₇, h₈, hroom⟩ := hrun
  refine ⟨s, os, hr, h₇, h₈, hroom, fun hset => ?_⟩
  have hin₇ : s.pid true ∈ s.members ⟨7⟩ := by rw [h₇]; exact List.mem_singleton_self _
  have hin₈ : s.pid true ∈ s.members ⟨8⟩ := by rw [h₈]; exact List.mem_singleton_self _
  cases hset.single _ _ _ hin₇ hin₈

end Handlers

end Bloom
end Bakopa
