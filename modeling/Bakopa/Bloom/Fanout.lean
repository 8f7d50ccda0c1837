import Bakopa.Bloom.Notices
import Bakopa.Bloom.Throttle

/-!
# Bakopa.Bloom.Fanout

How much one client can make the server say to others.

A step tells each member of one room at most two things, and a room has `maxParticipants` members.
With what the limiter lets through of the texts of a client (`throttled`), this bounds what the
others are handed because of it in any window (`fanout_bounded`).
-/

namespace Bakopa
namespace Bloom

open Lib

def Sent.isFor (q : ParticipantId) : Sent → Bool
  | .sendTo p _ => p = q
  | .reply _ => false

def Sent.isSend : Sent → Bool
  | .sendTo _ _ => true
  | .reply _ => false

theorem countP_isFor_sendAll (l : List ParticipantId) (message : ServerToClient)
    (q : ParticipantId) : (sendAll l message).countP (Sent.isFor q) = l.count q := by
  rw [sendAll, List.countP_map, List.count]
  refine List.countP_congr fun p _ => ?_
  simp [Sent.isFor]

theorem countP_isSend_sendAll (l : List ParticipantId) (message : ServerToClient) :
    (sendAll l message).countP Sent.isSend = l.length := by
  rw [sendAll, List.countP_map, List.countP_eq_length]
  intro p _
  rfl

theorem countP_two_le {l : List ParticipantId} (hl : l.Nodup) (hmax : l.length ≤ maxParticipants)
    (m m' : ServerToClient) :
    (∀ q, (sendAll l m ++ sendAll l m').countP (Sent.isFor q) ≤ 2) ∧
      (sendAll l m ++ sendAll l m').countP Sent.isSend ≤ 2 * maxParticipants := by
  refine ⟨fun q => ?_, ?_⟩
  · have hone : l.count q ≤ 1 := List.nodup_iff_count_le_one.mp hl q
    rw [List.countP_append, countP_isFor_sendAll, countP_isFor_sendAll]
    omega
  · rw [List.countP_append, countP_isSend_sendAll, countP_isSend_sendAll]
    omega

theorem countP_singleton_le (sent : Sent) :
    (∀ q, [sent].countP (Sent.isFor q) ≤ 2) ∧
      [sent].countP Sent.isSend ≤ 2 * maxParticipants := by
  refine ⟨fun q => ?_, ?_⟩
  · exact List.countP_le_length.trans (Nat.le_succ 1)
  · refine List.countP_le_length.trans ?_
    rw [maxParticipants]
    exact Nat.succ_le_succ (Nat.zero_le _)

section Notices

variable [UuidCrate] {p : ParticipantId} {at_ : Option RoomId} {req : Option ClientToServer}
  {after : RoomManager} {mv : Move} {sent : List Sent}

theorem Notices.countP_le (h : Notices p at_ req after mv sent)
    (hnodup : ∀ r, (after.members r).Nodup)
    (hmax : ∀ r, (after.members r).length ≤ maxParticipants) :
    (∀ q, sent.countP (Sent.isFor q) ≤ 2) ∧ sent.countP Sent.isSend ≤ 2 * maxParticipants := by
  cases h with
  | create message => exact countP_singleton_le _
  | @join roomId r hparse => exact countP_two_le (hnodup r) (hmax r) _ _
  | @leave r => exact countP_two_le (hnodup r) (hmax r) _ _
  | relay hreq hrelay htarget hat hp ht => exact countP_singleton_le _
  | refused code text => exact countP_singleton_le _
  | silent => exact ⟨fun _ => Nat.zero_le _, Nat.zero_le _⟩
  | forget => exact ⟨fun _ => Nat.zero_le _, Nat.zero_le _⟩

theorem Notices.reply_only (h : Notices p at_ req after mv sent) {m : ServerToClient}
    (hm : .reply m ∈ sent) : sent = [.reply m] := by
  cases h with
  | create message => rw [List.mem_singleton.mp hm]
  | @join roomId r hparse => simp [WsHandler.broadcastRoomParticipants, sendAll] at hm
  | @leave r => simp [WsHandler.broadcastLeft, sendAll] at hm
  | relay hreq hrelay htarget hat hp ht => simp at hm
  | refused code text =>
    rw [sendError, List.mem_singleton] at hm
    rw [sendError, hm]
  | silent => cases hm
  | forget => cases hm

end Notices

namespace Handlers

section Logs

variable {ι : Type} [DecidableEq ι]

/-- The time of every message with `P` that a text of `c` hands out. -/
def sendTimes (P : Sent → Bool) (c : ι) (trace : List (HandlerCall ι × List (ι × Sent))) :
    List Nat :=
  trace.flatMap fun x =>
    match textAt c x.1 with
    | none => []
    | some now => List.replicate (x.2.countP fun y => P y.2) now

/-- If a text that is not limited hands out no more than `k`, and no other anything, then `k` times
as many are handed out as texts pass, whatever times are counted. -/
theorem sendTimes_countP_le {P : Sent → Bool} {c : ι} {k : Nat} (W : Nat → Bool)
    {trace : List (HandlerCall ι × List (ι × Sent))}
    (hle : ∀ x ∈ trace, (x.2.countP fun y => P y.2) ≤ if limited x.2 then 0 else k) :
    (sendTimes P c trace).countP W ≤ k * (passed c trace).countP W := by
  induction trace with
  | nil => exact Nat.zero_le _
  | cons x trace ih =>
    obtain ⟨hx, hrest⟩ := List.forall_mem_cons.mp hle
    have hrest := ih hrest
    cases hat : textAt c x.1 with
    | none =>
      rw [sendTimes, List.flatMap_cons, hat, passed, verdicts,
        List.filterMap_cons_none (by simp [hat])]
      exact hrest
    | some now =>
      rw [sendTimes, List.flatMap_cons, hat, List.countP_append, List.countP_replicate, passed,
        verdicts, List.filterMap_cons_some (by simp [hat]; rfl)]
      cases hlimited : limited x.2 with
      | true =>
        rw [hlimited, if_pos rfl, Nat.le_zero] at hx
        simp only [hx, ite_self, Nat.zero_add]
        exact hrest
      | false =>
        rw [hlimited, if_neg Bool.false_ne_true] at hx
        simp only [List.filter_cons_of_pos, Bool.not_false, List.map_cons, List.countP_cons,
          Nat.mul_add]
        rw [Nat.add_comm]
        refine Nat.add_le_add hrest ?_
        split
        · rw [Nat.mul_one]
          exact hx
        · exact Nat.zero_le _

end Logs

section Runs

variable {ι : Type} [DecidableEq ι] [UuidCrate] [BloomJson] {s s' : Handlers ι}
  {a : HandlerCall ι} {as : List (HandlerCall ι)} {o os : List (ι × Sent)} {c : ι}

/-- The rooms are those of a model, so none is over capacity or lists anyone twice. -/
structure Roomy (s : Handlers ι) : Prop where
  tracked : Tracked s
  shown : ∃ m, Shows s.core.rooms m

omit [DecidableEq ι] [UuidCrate] [BloomJson] in
theorem Roomy.members (h : Roomy s) (r : RoomId) :
    (s.members r).Nodup ∧ (s.members r).length ≤ maxParticipants := by
  obtain ⟨m, hm⟩ := h.shown
  cases hl : s.core.rooms.participants r with
  | none =>
    rw [Handlers.members, RoomManager.members, hl]
    exact ⟨List.nodup_nil, Nat.zero_le _⟩
  | some l =>
    rw [Handlers.members, RoomManager.members_of_participants hl]
    obtain ⟨-, hmax, hlisting⟩ := hm.of_some hl
    exact ⟨hlisting.nodup, hmax⟩

omit [DecidableEq ι] [UuidCrate] [BloomJson] in
theorem Initial.roomy (h : Initial s) (hd : Function.Injective s.pid) : Roomy s where
  tracked := h.tracked hd
  shown := ⟨.empty, by rw [h.core]; exact shows_empty⟩

theorem step_roomy (hs : Roomy s) (h : step s a = some (s', o)) : Roomy s' where
  tracked := step_tracked hs.tracked h
  shown := by
    obtain ⟨m, hm⟩ := hs.shown
    rw [(step_took h).calls]
    exact ⟨_, (calls_refine _ hm).2⟩

/-- A step tells each participant at most two things, and none if its text is limited. -/
theorem step_countP_le (hs : Roomy s) (h : step s a = some (s', o)) :
    (∀ q, (o.countP fun y => y.2.isFor q) ≤ if limited o then 0 else 2) ∧
      (o.countP fun y => y.2.isSend) ≤ if limited o then 0 else 2 * maxParticipants := by
  have hmembers := fun r => (step_roomy hs h).members r
  obtain ⟨sent, rfl, hnotices⟩ := step_notices hs.tracked h
  have hle := hnotices.countP_le (fun r => (hmembers r).1) fun r => (hmembers r).2
  have hcount : ∀ P : Sent → Bool, ((sent.map fun m => (a.conn, m)).countP fun y => P y.2) =
      sent.countP P := by
    intro P
    rw [List.countP_map]
    rfl
  rw [hcount Sent.isSend]
  simp only [hcount]
  cases hlimited : limited (sent.map fun m => (a.conn, m)) with
  | false => exact hle
  | true =>
    rw [limited, List.any_map, List.any_eq_true] at hlimited
    obtain ⟨m, hm, heq⟩ := hlimited
    have hreply : m = rateLimitedReply := of_decide_eq_true heq
    subst hreply
    have honly := hnotices.reply_only hm
    rw [honly]
    exact ⟨fun _ => Nat.le_refl 0, Nat.le_refl 0⟩

/-- In every run of handlers over a fresh core, and in every window of the limiter of a client: its
texts make the server hand no participant more than twice `n` messages, and all participants
together no more than `2 * maxParticipants * n`. -/
theorem fanout_bounded {n : UInt32} {w : Nat} (h₀ : Initial s) (hd : Function.Injective s.pid)
    (hr : Machine.Runs step s as os s') (hl : (s.handler c).rateLimiter = some (.new n w))
    (hsorted : (textTimes c as).Pairwise (· ≤ ·)) (t : Nat) :
    (∀ q, (sendTimes (Sent.isFor q) c (Machine.trace step s as)).countP
      (fun x => t < x + w ∧ x ≤ t) ≤ 2 * n.toNat) ∧
    (sendTimes Sent.isSend c (Machine.trace step s as)).countP (fun x => t < x + w ∧ x ≤ t) ≤
      2 * maxParticipants * n.toNat := by
  have hpassed := passed_window_le hr hl hsorted t
  have htrace := hr.forall_trace (P := fun x =>
      (∀ q, (x.2.countP fun y => y.2.isFor q) ≤ if limited x.2 then 0 else 2) ∧
        (x.2.countP fun y => y.2.isSend) ≤ if limited x.2 then 0 else 2 * maxParticipants)
    (fun _ _ _ _ => step_roomy) (fun _ _ _ _ => step_countP_le) (h₀.roomy hd)
  refine ⟨fun q => ?_, ?_⟩
  · have hle := sendTimes_countP_le (P := Sent.isFor q) (c := c)
      (fun x => t < x + w ∧ x ≤ t) fun x hx => (htrace x hx).1 q
    exact hle.trans (Nat.mul_le_mul_left 2 hpassed)
  · have hle := sendTimes_countP_le (P := Sent.isSend) (c := c)
      (fun x => t < x + w ∧ x ≤ t) fun x hx => (htrace x hx).2
    exact hle.trans (Nat.mul_le_mul_left _ hpassed)

end Runs

section Samples

def joinFlood : List (HandlerCall Bool) :=
  .text true 5 ⟨7⟩ createRoomText :: List.replicate 21 (.text false 5 ⟨8⟩ joinRoomText)

/-- The other is handed as much as the bound allows. -/
theorem fanout_bounded_join_flood :
    let _ := hyphenated
    let _ := taggedJson
    ∃ s os, Machine.Runs step twoClients joinFlood os s ∧
      (sendTimes (Sent.isFor ⟨1⟩) false (Machine.trace step twoClients joinFlood)).countP
        (fun x => 5 < x + 1000000000 ∧ x ≤ 5) = 2 * 20 ∧
      (sendTimes Sent.isSend false (Machine.trace step twoClients joinFlood)).countP
        (fun x => 5 < x + 1000000000 ∧ x ≤ 5) ≤ 2 * maxParticipants * 20 := by
  intro _ _
  have hrun : (Machine.run step twoClients joinFlood).isSome = true := by decide +kernel
  have htight : (sendTimes (Sent.isFor ⟨1⟩) false (Machine.trace step twoClients joinFlood)).countP
      (fun x => 5 < x + 1000000000 ∧ x ≤ 5) = 2 * 20 := by decide +kernel
  obtain ⟨⟨s, os⟩, hr⟩ := Option.isSome_iff_exists.mp hrun
  exact ⟨s, os, Machine.run_sound hr, htight, (fanout_bounded twoClients_initial
    twoClients_distinct (Machine.run_sound hr) rfl (by decide) 5).2⟩

end Samples

end Handlers

end Bloom
end Bakopa
