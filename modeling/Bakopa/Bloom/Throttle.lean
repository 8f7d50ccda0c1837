import Bakopa.Bloom.Handlers
import Bakopa.Bloom.RateWindow

/-!
# Bakopa.Bloom.Throttle

The limiter of a connection at work: what `RateWindow` says of a limiter alone, carried over to runs
of all handlers.

A text is limited when it is answered with `RateLimited`. Whether it is depends on nothing but the
times of the texts of that connection (`verdicts_run`), so a flood of texts neither gets more than
its share of the server nor takes any of the share of another client (`throttled`).
-/

namespace Bakopa
namespace Bloom

open Lib

def rateLimitedReply : Sent := sendError .rateLimited "rate limited"

namespace WsHandler

variable [UuidCrate] {core : RealCore} {h : WsHandler} {drawn : RoomId}

theorem handleSignaling_not_limited {target failure : String} {event : ServerToClient} :
    rateLimitedReply ∉
      h.handleSignaling target (fun r t => core.relay r h.participantId t event) failure := by
  simp only [handleSignaling]
  split
  · simp [rateLimitedReply, sendError]
  · split
    · simp [rateLimitedReply, sendError]
    · split
      · simp [rateLimitedReply, sendError]
      · rename_i he
        rw [relay_error_code he]
        simp [rateLimitedReply, sendError]

theorem handleMessage_not_limited (message : ClientToServer) :
    rateLimitedReply ∉ (handleMessage core h drawn message).sent := by
  cases message with
  | createRoom => simp [handleMessage, handleCreateRoom, rateLimitedReply, sendError]
  | joinRoom roomId =>
    simp only [handleMessage, handleJoinRoom]
    split
    · simp [rateLimitedReply, sendError]
    · split
      · simp [rateLimitedReply, sendError, broadcastRoomParticipants, sendAll]
      · simp [rateLimitedReply, sendError]
      · simp [rateLimitedReply, sendError]
  | leaveRoom =>
    simp only [handleMessage, handleLeaveRoom]
    split
    · simp [rateLimitedReply, sendError]
    · split
      · simp [rateLimitedReply, sendError, broadcastLeft, sendAll]
      · simp [rateLimitedReply, sendError]
  | offer target payload => exact handleSignaling_not_limited
  | answer target payload => exact handleSignaling_not_limited
  | iceCandidate target payload => exact handleSignaling_not_limited

theorem handleMessage_rateLimiter (message : ClientToServer) :
    (handleMessage core h drawn message).handler.rateLimiter = h.rateLimiter := by
  cases message with
  | createRoom => rfl
  | joinRoom roomId =>
    simp only [handleMessage, handleJoinRoom]
    split
    · rfl
    · split <;> rfl
  | leaveRoom =>
    simp only [handleMessage, handleLeaveRoom]
    split
    · rfl
    · split <;> rfl
  | offer target payload => rfl
  | answer target payload => rfl
  | iceCandidate target payload => rfl

theorem handleAbnormalClose_rateLimiter :
    (handleAbnormalClose core h).handler.rateLimiter = h.rateLimiter := by
  unfold handleAbnormalClose
  split <;> rfl

theorem handleTextMessage_limited [BloomJson] {l : RateLimiter} (hl : h.rateLimiter = some l)
    (core : RealCore) (now : Nat) (drawn : RoomId) (text : String) :
    (handleTextMessage core h now drawn text).handler.rateLimiter = some (l.check now).1 ∧
      (rateLimitedReply ∈ (handleTextMessage core h now drawn text).sent ↔
        (l.check now).2.allowed = false) := by
  have hdrop := l.check_shouldDrop now
  unfold handleTextMessage isRateLimited
  simp only [hl]
  cases hallowed : (l.check now).2.allowed with
  | false =>
    rw [hallowed] at hdrop
    simp [hdrop, rateLimitedReply]
  | true =>
    simp only [Bool.not_true, Bool.false_eq_true, if_false, List.nil_append]
    cases BloomJson.clientFromStr text with
    | none => simp [rateLimitedReply, sendError]
    | some message =>
      refine ⟨handleMessage_rateLimiter message, ?_⟩
      exact iff_of_false (handleMessage_not_limited message) (by simp)

end WsHandler

/-- An offer, an answer or a candidate on its way. -/
def Sent.isRelay : Sent → Bool
  | .sendTo _ (.offer _ _) | .sendTo _ (.answer _ _) | .sendTo _ (.iceCandidate _ _) => true
  | _ => false

theorem countP_isRelay_sendAll {l : List ParticipantId} {message : ServerToClient}
    (h : ∀ p, (Sent.sendTo p message).isRelay = false) :
    (sendAll l message).countP Sent.isRelay = 0 := by
  rw [List.countP_eq_zero]
  intro m hm
  obtain ⟨p, -, rfl⟩ := List.mem_map.mp hm
  simp [h p]

namespace WsHandler

variable [UuidCrate] {core : RealCore} {h : WsHandler}

theorem handleSignaling_relays_le {target failure : String} {event : ServerToClient} :
    (h.handleSignaling target (fun r t => core.relay r h.participantId t event) failure).countP
      Sent.isRelay ≤ 1 := by
  unfold handleSignaling
  split
  · exact List.countP_le_length
  · split
    · exact List.countP_le_length
    · split <;> exact List.countP_le_length

theorem handleMessage_relays_le (drawn : RoomId) (message : ClientToServer) :
    (handleMessage core h drawn message).sent.countP Sent.isRelay ≤ 1 := by
  have hnotice : ∀ (l l' : List ParticipantId) (m m' : ServerToClient),
      (∀ p, (Sent.sendTo p m).isRelay = false) → (∀ p, (Sent.sendTo p m').isRelay = false) →
      (sendAll l m ++ sendAll l' m').countP Sent.isRelay ≤ 1 := by
    intro l l' m m' hm hm'
    rw [List.countP_append, countP_isRelay_sendAll hm, countP_isRelay_sendAll hm']
    exact Nat.zero_le 1
  cases message with
  | createRoom => exact List.countP_le_length
  | joinRoom roomId =>
    simp only [handleMessage, handleJoinRoom]
    split
    · exact List.countP_le_length
    · split
      · exact hnotice _ _ _ _ (fun _ => rfl) (fun _ => rfl)
      · exact List.countP_le_length
      · exact List.countP_le_length
  | leaveRoom =>
    simp only [handleMessage, handleLeaveRoom]
    split
    · exact List.countP_le_length
    · split
      · exact hnotice _ _ _ _ (fun _ => rfl) (fun _ => rfl)
      · exact List.countP_le_length
  | offer target payload => exact handleSignaling_relays_le
  | answer target payload => exact handleSignaling_relays_le
  | iceCandidate target payload => exact handleSignaling_relays_le

theorem handleTextMessage_relays_le [BloomJson] (core : RealCore) (h : WsHandler) (now : Nat)
    (drawn : RoomId) (text : String) :
    (handleTextMessage core h now drawn text).sent.countP Sent.isRelay ≤
      if rateLimitedReply ∈ (handleTextMessage core h now drawn text).sent then 0 else 1 := by
  obtain ⟨limiter, ⟨-, code, message, hh, -⟩ | ⟨message, -, hh⟩⟩ :=
    handleTextMessage_request core h now drawn text
  · rw [hh]
    have hnone : [sendError code message].countP Sent.isRelay = 0 := rfl
    rw [hnone]
    exact Nat.zero_le _
  · rw [hh, if_neg (handleMessage_not_limited message)]
    exact handleMessage_relays_le drawn message

end WsHandler

namespace Handlers

section Logs

variable {ι : Type} [DecidableEq ι]

/-- The time of the call, if it is a text of `c`. -/
def textAt (c : ι) : HandlerCall ι → Option Nat
  | .text d now _ _ => if d = c then some now else none
  | .binary _ | .abnormalClose _ => none

def textTimes (c : ι) (as : List (HandlerCall ι)) : List Nat := as.filterMap (textAt c)

def limited (o : List (ι × Sent)) : Bool := o.any fun x => x.2 = rateLimitedReply

/-- The texts of `c` in a trace: when, and whether limited. -/
def verdicts (c : ι) (trace : List (HandlerCall ι × List (ι × Sent))) : List (Nat × Bool) :=
  trace.filterMap fun x => (textAt c x.1).map fun now => (now, limited x.2)

/-- The times of the texts of `c` that were not limited. -/
def passed (c : ι) (trace : List (HandlerCall ι × List (ι × Sent))) : List Nat :=
  ((verdicts c trace).filter fun x => !x.2).map Prod.fst

/-- The time of every relay that a text of `c` hands out. -/
def relayTimes (c : ι) (trace : List (HandlerCall ι × List (ι × Sent))) : List Nat :=
  trace.flatMap fun x =>
    match textAt c x.1 with
    | none => []
    | some now => List.replicate (x.2.countP fun y => y.2.isRelay) now

end Logs

section Runs

variable {ι : Type} [DecidableEq ι] [UuidCrate] [BloomJson] {s s' : Handlers ι}
  {a : HandlerCall ι} {as : List (HandlerCall ι)} {o os : List (ι × Sent)} {c : ι}

theorem step_text {l : RateLimiter} (h : step s a = some (s', o))
    (hl : (s.handler c).rateLimiter = some l) {now : Nat} (ha : textAt c a = some now) :
    (s'.handler c).rateLimiter = some (l.check now).1 ∧
      limited o = !(l.check now).2.allowed ∧
      o.countP (fun y => y.2.isRelay) ≤ if limited o then 0 else 1 := by
  cases a with
  | text d now' drawn text =>
    by_cases hd : d = c
    · subst hd
      simp only [textAt, if_true, Option.some.injEq] at ha
      subst ha
      simp only [step] at h
      split at h
      · cases h
      · cases h
        obtain ⟨hlimiter, hlimited⟩ :=
          WsHandler.handleTextMessage_limited hl s.core now' drawn text
        have hsent : limited (((s.handler d).handleTextMessage s.core now' drawn text).sent.map
            fun m => (d, m)) = decide (rateLimitedReply ∈
              ((s.handler d).handleTextMessage s.core now' drawn text).sent) := by
          rw [limited, List.any_map, Bool.eq_iff_iff]
          simp [List.any_eq_true]
        refine ⟨by simpa [put] using hlimiter, ?_, ?_⟩
        · rw [hsent, Bool.eq_iff_iff, decide_eq_true_iff, hlimited]
          simp
        · rw [hsent, List.countP_map]
          have hle := WsHandler.handleTextMessage_relays_le s.core (s.handler d) now' drawn text
          simpa [Function.comp_def] using hle
    · simp [textAt, hd] at ha
  | binary d => cases ha
  | abnormalClose d => cases ha

theorem step_no_text (h : step s a = some (s', o)) (ha : textAt c a = none) :
    (s'.handler c).rateLimiter = (s.handler c).rateLimiter := by
  by_cases hc : c = a.conn
  · subst hc
    cases a with
    | text d now drawn text => simp [textAt, HandlerCall.conn] at ha
    | binary d =>
      cases h
      simp [HandlerCall.conn, WsHandler.handleBinary]
    | abnormalClose d =>
      cases h
      simp [HandlerCall.conn, WsHandler.handleAbnormalClose_rateLimiter]
  · rw [step_handler_other h hc]

/-- The limiter of `c` sees the texts of `c`, whatever else happens, and decides which are limited. -/
theorem verdicts_run {l : RateLimiter} (hr : Machine.Runs step s as os s')
    (hl : (s.handler c).rateLimiter = some l) :
    ∃ ds l', Machine.Runs RateLimiter.step l (textTimes c as) ds l' ∧
      (s'.handler c).rateLimiter = some l' ∧
      verdicts c (Machine.trace step s as) = ds.map fun x => (x.1, !x.2.allowed) := by
  induction hr generalizing l with
  | nil => exact ⟨[], l, .nil, hl, rfl⟩
  | @cons s s₁ s' a as o os ha _ ih =>
    rw [Machine.trace_cons ha]
    cases hat : textAt c a with
    | none =>
      have hl₁ := step_no_text ha hat
      obtain ⟨ds, l', hds, hl', hv⟩ := ih (hl₁.trans hl)
      refine ⟨ds, l', ?_, hl', ?_⟩
      · rw [textTimes, List.filterMap_cons_none hat]
        exact hds
      · rw [verdicts, List.filterMap_cons_none (by simp [hat])]
        exact hv
    | some now =>
      obtain ⟨hl₁, hlimited, -⟩ := step_text ha hl hat
      obtain ⟨ds, l', hds, hl', hv⟩ := ih hl₁
      refine ⟨(now, (l.check now).2) :: ds, l', ?_, hl', ?_⟩
      · rw [textTimes, List.filterMap_cons_some hat]
        exact .cons (o := [(now, (l.check now).2)]) rfl hds
      · rw [verdicts, List.filterMap_cons_some (by simp [hat]; rfl), List.map_cons, hlimited]
        exact congrArg _ hv

/-- Every relay that `c` hands out is the only one of a text of `c` that was not limited. -/
theorem relayTimes_sublist {l : RateLimiter} (hr : Machine.Runs step s as os s')
    (hl : (s.handler c).rateLimiter = some l) :
    (relayTimes c (Machine.trace step s as)).Sublist (passed c (Machine.trace step s as)) := by
  induction hr generalizing l with
  | nil => exact List.Sublist.refl _
  | @cons s s₁ s' a as o os ha _ ih =>
    rw [Machine.trace_cons ha]
    cases hat : textAt c a with
    | none =>
      have hrest := ih ((step_no_text ha hat).trans hl)
      rw [relayTimes, List.flatMap_cons, hat, passed, verdicts,
        List.filterMap_cons_none (by simp [hat])]
      exact hrest
    | some now =>
      obtain ⟨hl₁, -, hle⟩ := step_text ha hl hat
      have hrest := ih hl₁
      rw [relayTimes, List.flatMap_cons, hat, passed, verdicts,
        List.filterMap_cons_some (by simp [hat]; rfl)]
      cases hlim : limited o with
      | true =>
        rw [hlim, if_pos rfl, Nat.le_zero] at hle
        simp only [hle, List.replicate_zero, List.nil_append]
        exact hrest
      | false =>
        rw [hlim, if_neg Bool.false_ne_true] at hle
        have hone : (List.replicate (o.countP fun y => y.2.isRelay) now).Sublist [now] :=
          List.replicate_sublist_replicate (n := 1) now |>.mpr hle
        exact hone.append hrest

theorem passed_window_le {n : UInt32} {w : Nat} (hr : Machine.Runs step s as os s')
    (hl : (s.handler c).rateLimiter = some (.new n w))
    (hsorted : (textTimes c as).Pairwise (· ≤ ·)) (t : Nat) :
    (passed c (Machine.trace step s as)).countP (fun x => t < x + w ∧ x ≤ t) ≤ n.toNat := by
  obtain ⟨ds, l', hds, -, hv⟩ := verdicts_run hr hl
  have hpassed : passed c (Machine.trace step s as) = RateLimiter.allowedAt ds := by
    rw [passed, hv, RateLimiter.allowedAt, List.filter_map, List.map_map]
    simp only [Function.comp_def, Bool.not_not]
  rw [hpassed]
  exact countP_window_le (RateLimiter.counting_of_run hds hsorted).bound t

/-- Whatever the others do: a client's texts are limited as if its limiter were alone with them; in
no window do more than `n` get past it, and no more than `n` relays are handed out for them; and a
client that keeps to the limit is never limited. -/
theorem throttled {n : UInt32} {w : Nat} (hr : Machine.Runs step s as os s')
    (hl : (s.handler c).rateLimiter = some (.new n w))
    (hsorted : (textTimes c as).Pairwise (· ≤ ·)) :
    (∃ ds l', Machine.Runs RateLimiter.step (.new n w) (textTimes c as) ds l' ∧
      verdicts c (Machine.trace step s as) = ds.map fun x => (x.1, !x.2.allowed)) ∧
    (∀ t, (passed c (Machine.trace step s as)).countP (fun x => t < x + w ∧ x ≤ t) ≤ n.toNat) ∧
    (∀ t, (relayTimes c (Machine.trace step s as)).countP (fun x => t < x + w ∧ x ≤ t) ≤
      n.toNat) ∧
    (RateLimiter.KeepsTo n w (textTimes c as) →
      ∀ x ∈ verdicts c (Machine.trace step s as), x.2 = false) := by
  obtain ⟨ds, l', hds, -, hv⟩ := verdicts_run hr hl
  have hbound := passed_window_le hr hl hsorted
  refine ⟨⟨ds, l', hds, hv⟩, hbound, fun t => ?_, fun hkeeps x hx => ?_⟩
  · exact (relayTimes_sublist hr hl).countP_le.trans (hbound t)
  · rw [hv] at hx
    obtain ⟨d, hd, rfl⟩ := List.mem_map.mp hx
    simp [RateLimiter.never_rejected hds hsorted hkeeps d hd]

end Runs

section Samples

/-- A client that asks too much, while another makes a room. -/
def floodTexts : List (HandlerCall Bool) :=
  (List.replicate 21 (.text true 5 ⟨7⟩ leaveRoomText)) ++ [.text false 5 ⟨8⟩ createRoomText]

theorem throttled_flood :
    let _ := hyphenated
    let _ := taggedJson
    ∃ s os, Machine.Runs step twoClients floodTexts os s ∧
      (verdicts true (Machine.trace step twoClients floodTexts)).getLast? = some (5, true) ∧
      (passed true (Machine.trace step twoClients floodTexts)).countP
        (fun x => 5 < x + 1000000000 ∧ x ≤ 5) ≤ 20 := by
  intro _ _
  have hrun : (Machine.run step twoClients floodTexts).isSome = true := by decide +kernel
  obtain ⟨⟨s, os⟩, hr⟩ := Option.isSome_iff_exists.mp hrun
  have hlast : (verdicts true (Machine.trace step twoClients floodTexts)).getLast? =
      some (5, true) := by decide +kernel
  exact ⟨s, os, Machine.run_sound hr, hlast,
    (throttled (Machine.run_sound hr) rfl (by decide)).2.1 5⟩

end Samples

end Handlers

end Bloom
end Bakopa
