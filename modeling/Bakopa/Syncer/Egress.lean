import Bakopa.Syncer.RateWindows
import Bakopa.Syncer.Recipients

/-!
# Bakopa.Syncer.Egress

The limiter of a `BasicSyncer` at work: what `RateWindows` says of a limiter alone, carried over to
runs of the syncer.

Every request that sends asks the limiter once, under the one session of the syncer, and no other
call does; so which sends are limited depends on nothing but their times (`verdicts_run`). A send
that passes hands each peer one message at most, which bounds what a peer is sent
(`egress_bounded`). The announcement of a join is not limited.
-/

namespace Bakopa
namespace Syncer

open Lib Lib.Machine

def SyncerEvent.isLimit : SyncerEvent → Bool
  | .rateLimited _ => true
  | _ => false

def limited (acts : List Act) : Bool := (returned acts).any SyncerEvent.isLimit

/-- A message other than the announcement of a join, for this target. -/
def Act.streamsTo (p : ParticipantId) : Act → Bool
  | .send m => m.kind ≠ .controlJoin ∧ m.target = p
  | _ => false

@[simp] theorem limited_append (acts acts' : List Act) :
    limited (acts ++ acts') = (limited acts || limited acts') := by
  simp [limited]

theorem countP_streamsTo_map_event (p : ParticipantId) (es : List SyncerEvent) :
    (es.map Act.event).countP (Act.streamsTo p) = 0 := by
  rw [List.countP_eq_zero]
  intro act hact
  obtain ⟨e, -, rfl⟩ := List.mem_map.mp hact
  exact Bool.false_ne_true

namespace Send

theorem countP_messages_le (send : Send) (t : ParticipantTable) (p : ParticipantId) :
    ((send.messages t).map Act.send).countP (Act.streamsTo p) ≤ 1 := by
  have hnodup : ((send.messages t).map Message.target).Nodup := by
    unfold messages
    cases send.payload with
    | none => exact List.nodup_nil
    | some payload =>
      rw [List.map_map]
      refine List.Nodup.map (fun _ _ h => h) ?_
      exact t.nodup_participants.filter _
  calc ((send.messages t).map Act.send).countP (Act.streamsTo p)
      ≤ (send.messages t).countP (fun m => m.target = p) := by
        rw [List.countP_map]
        refine List.countP_mono_left fun m _ hm => ?_
        simp only [Function.comp_apply, Act.streamsTo, decide_eq_true_eq] at hm ⊢
        exact hm.2
    _ = ((send.messages t).map Message.target).count p := by
        rw [List.count, List.countP_map]
        rfl
    _ ≤ 1 := List.nodup_iff_count_le_one.mp hnodup p

end Send

namespace BasicSyncer

section Logs

variable {τ : Type}

/-- The time of the call, if it is a request that sends. -/
def sendAt : Call τ → Option Nat
  | .handle _ (.join _ _) => none
  | .handle now _ => some now
  | .pollOnly | .pushTransportEvent _ | .rebindTransport _ => none

def sendTimes (cs : List (Call τ)) : List Nat := cs.filterMap sendAt

def verdicts (trace : List (Call τ × List Act)) : List (Nat × Bool) :=
  trace.filterMap fun x => (sendAt x.1).map fun now => (now, !limited x.2)

/-- The time of every message that the sends of a trace hand to the transport for `p`. -/
def streamTimes (p : ParticipantId) (trace : List (Call τ × List Act)) : List Nat :=
  trace.flatMap fun x =>
    match sendAt x.1 with
    | none => []
    | some now => List.replicate (x.2.countP (Act.streamsTo p)) now

def gauge (s : BasicSyncer τ) : RateLimiter × String := (s.rateLimiter, s.sessionId)

def counter (s : BasicSyncer τ) : Option WindowCounter :=
  s.rateLimiter.sessions.lookup s.sessionId

def ticked (s : BasicSyncer τ) (now : Nat) : WindowCounter × Bool :=
  RateLimiter.tick s.rateLimiter.limit s.rateLimiter.window s.counter now

def checked (s : BasicSyncer τ) (now : Nat) : BasicSyncer τ :=
  { s with rateLimiter := s.rateLimiter.record s.sessionId (s.ticked now).1 }

end Logs

section Steps

variable {τ : Type} [Transport τ] [UuidCrate] [SerdeJson] {s s' : BasicSyncer τ} {call : Call τ}
  {o : List Act} {n : UInt32} {w now : Nat} {p : ParticipantId}

theorem drain_quiet (s : BasicSyncer τ) : s.drainTransportEvents.1.gauge = s.gauge ∧
    limited s.drainTransportEvents.2 = false ∧
    ∀ p, s.drainTransportEvents.2.countP (Act.streamsTo p) = 0 := by
  refine ⟨?_, ?_, fun p => ?_⟩
  · cases hroom : s.room with
    | none => rw [drain_none hroom]
    | some room => rw [drain_some hroom]; rfl
  · rw [limited, List.any_eq_false]
    intro e he hlimit
    cases e with
    | rateLimited kind =>
      have hnone := count_limited_drain (s := s) kind
      rw [List.count_eq_zero] at hnone
      exact hnone he
    | _ => cases hlimit
  · cases hroom : s.room with
    | none => rw [drain_none hroom]; rfl
    | some room =>
      rw [drain_some hroom, List.countP_append, countP_streamsTo_map_event]
      rfl

omit [UuidCrate] [SerdeJson] in
theorem sendAll_quiet (s : BasicSyncer τ) (ms : List Message) :
    (s.sendAll ms).1.gauge = s.gauge ∧ (s.sendAll ms).2 = ms.map .send ∧
      limited (s.sendAll ms).2 = false := by
  induction ms generalizing s with
  | nil => exact ⟨rfl, rfl, rfl⟩
  | cons m ms ih =>
    obtain ⟨hgauge, hacts, hlimited⟩ := ih (s.transportSend m)
    refine ⟨hgauge, congrArg (Act.send m :: ·) hacts, hlimited⟩

omit [Transport τ] [UuidCrate] [SerdeJson] in
theorem rateLimit_ticked (s : BasicSyncer τ) (kind : StreamKind) (now : Nat) :
    s.rateLimit kind now =
      (s.checked now, if (s.ticked now).2 then none else some (.rateLimited kind)) := by
  have htick := s.rateLimiter.checkAndRecord_tick s.sessionId kind now
  simp only [rateLimit, htick]
  refine Prod.ext rfl ?_
  cases hpass : (s.ticked now).2 with
  | false =>
    rw [ticked, counter] at hpass
    simp [hpass]
  | true =>
    rw [ticked, counter] at hpass
    simp [hpass]

omit [Transport τ] [UuidCrate] [SerdeJson] in
theorem checked_congr {t : BasicSyncer τ} (h : s.gauge = t.gauge) (now : Nat) :
    (s.checked now).gauge = (t.checked now).gauge ∧ s.ticked now = t.ticked now := by
  obtain ⟨hlimiter, hsession⟩ := Prod.mk.inj h
  have hticked : s.ticked now = t.ticked now := by
    rw [ticked, counter, hlimiter, hsession]
    rfl
  refine ⟨?_, hticked⟩
  simp only [gauge, checked, hticked, hlimiter, hsession]

theorem calls_handle (s : BasicSyncer τ) (now : Nat) (request : SyncerRequest) :
    calls s (.handle now request) = some
      ((s.drainTransportEvents.1.handleRequest now request).1,
        s.drainTransportEvents.2 ++ (s.drainTransportEvents.1.handleRequest now request).2) := rfl

theorem handleSend_ticked (s : BasicSyncer τ) (send : Send) (now : Nat) (t : ParticipantTable) :
    (s.handleSend send.kind send.sender now (send.messages t)).1.gauge = (s.checked now).gauge ∧
      limited (s.handleSend send.kind send.sender now (send.messages t)).2 = !(s.ticked now).2 ∧
      ∀ p, (s.handleSend send.kind send.sender now (send.messages t)).2.countP (Act.streamsTo p) ≤
        if (s.ticked now).2 then 1 else 0 := by
  obtain ⟨hgauge, hlimited, hstreams⟩ := drain_quiet (s.checked now)
  unfold handleSend
  rw [rateLimit_ticked]
  cases (s.ticked now).2 with
  | false =>
    refine ⟨hgauge, rfl, fun p => ?_⟩
    rw [if_neg Bool.false_ne_true]
    exact Nat.le_of_eq (hstreams p)
  | true =>
    simp only [if_true, Bool.not_true]
    split
    · obtain ⟨hgauge', hacts, hlimited'⟩ := sendAll_quiet (s.checked now) (send.messages t)
      obtain ⟨hgauge, hlimited, hstreams⟩ :=
        drain_quiet ((s.checked now).sendAll (send.messages t)).1
      refine ⟨hgauge.trans hgauge', ?_, fun p => ?_⟩
      · rw [limited_append, hlimited', hlimited]
        rfl
      · rw [List.countP_append, hstreams, hacts]
        exact send.countP_messages_le t p
    · refine ⟨hgauge, hlimited, fun p => ?_⟩
      rw [hstreams]
      exact Nat.zero_le 1

theorem call_send (h : calls s call = some (s', o)) (hsend : sendAt call = some now) :
    s'.gauge = (s.checked now).gauge ∧ limited o = !(s.ticked now).2 ∧
      ∀ p, o.countP (Act.streamsTo p) ≤ if (s.ticked now).2 then 1 else 0 := by
  cases call with
  | handle at_ request =>
    have hasSend : ∃ send, request.asSend = some send ∧ at_ = now := by
      cases request with
      | join roomId p => cases hsend
      | sendPose fromId pose ctx => exact ⟨_, rfl, Option.some.inj hsend⟩
      | sendChat chat ctx => exact ⟨_, rfl, Option.some.inj hsend⟩
      | sendVoiceFrame frame ctx => exact ⟨_, rfl, Option.some.inj hsend⟩
    obtain ⟨send, hreq, rfl⟩ := hasSend
    obtain ⟨hgauge, hlimited, hstreams⟩ := drain_quiet s
    have hchecked := checked_congr hgauge at_
    obtain ⟨hgauge', hlimited', hstreams'⟩ := handleSend_ticked s.drainTransportEvents.1 send at_
      s.drainTransportEvents.1.participants
    rw [← handleRequest_send _ _ hreq] at hgauge' hlimited' hstreams'
    simp only [calls_handle, Option.some.injEq, Prod.mk.injEq] at h
    obtain ⟨rfl, rfl⟩ := h
    refine ⟨hgauge'.trans hchecked.1, ?_, fun p => ?_⟩
    · rw [limited_append, hlimited, hlimited', hchecked.2]
      rfl
    · rw [List.countP_append, hstreams, Nat.zero_add, ← hchecked.2]
      exact hstreams' p
  | pollOnly => cases hsend
  | pushTransportEvent ev => cases hsend
  | rebindTransport transport => cases hsend

theorem call_quiet (h : calls s call = some (s', o)) (hsend : sendAt call = none) :
    s'.gauge = s.gauge ∧ ∀ p, o.countP (Act.streamsTo p) = 0 := by
  cases call with
  | handle at_ request =>
    cases request with
    | join roomId q =>
      obtain ⟨hgauge, -, hstreams⟩ := drain_quiet s
      obtain ⟨hgauge', -, hstreams'⟩ :=
        drain_quiet (s.drainTransportEvents.1.enterRoom roomId q).1
      simp only [calls_handle, handleRequest, Option.some.injEq, Prod.mk.injEq] at h
      obtain ⟨rfl, rfl⟩ := h
      refine ⟨hgauge'.trans hgauge, fun p => ?_⟩
      rw [List.countP_append, List.countP_append, hstreams, hstreams', enterRoom,
        List.countP_cons_of_neg (by simp [Act.streamsTo, joinMessage]),
        List.countP_cons_of_neg (by simp [Act.streamsTo]), countP_streamsTo_map_event]
    | sendPose fromId pose ctx => cases hsend
    | sendChat chat ctx => cases hsend
    | sendVoiceFrame frame ctx => cases hsend
  | pollOnly =>
    obtain ⟨hgauge, -, hstreams⟩ := drain_quiet s
    rw [show s.drainTransportEvents = (s', o) from Option.some.inj h] at hgauge hstreams
    exact ⟨hgauge, hstreams⟩
  | pushTransportEvent ev => cases h; exact ⟨rfl, fun _ => rfl⟩
  | rebindTransport transport => cases h; exact ⟨rfl, fun _ => rfl⟩

end Steps

section Runs

variable {τ : Type} [Transport τ] [UuidCrate] [SerdeJson] {s s' : BasicSyncer τ}
  {cs : List (Call τ)} {acts : List Act} {n : UInt32} {w : Nat}

omit [Transport τ] [UuidCrate] [SerdeJson] in
theorem counted_checked (hc : RateLimiter.Counted n w s.rateLimiter) (now : Nat) :
    RateLimiter.Counted n w (s.checked now).rateLimiter ∧
      RateLimiter.tickStep n w s.counter now =
        some ((s.checked now).counter, [(now, (s.ticked now).2)]) := by
  have hticked : s.ticked now = RateLimiter.tick n w s.counter now := by
    rw [ticked, hc.limit, hc.window]
  refine ⟨hc.record ?_ s.sessionId, ?_⟩
  · rw [hticked]
    exact RateLimiter.tick_count_pos hc.limit_pos _ _
  · have hcounter : (s.checked now).counter = some (s.ticked now).1 :=
      RateLimiter.lookup_record_self
    rw [hcounter, hticked]
    rfl

/-- The sends of a run are a run of the syncer's own counter on their times, whatever else
happens. -/
theorem verdicts_run (hc : RateLimiter.Counted n w s.rateLimiter) (hr : Runs calls s cs acts s') :
    Runs (RateLimiter.tickStep n w) s.counter (sendTimes cs) (verdicts (trace calls s cs))
      s'.counter := by
  induction hr with
  | nil => exact .nil
  | @cons s s₁ s' call cs o acts ha _ ih =>
    rw [trace_cons ha]
    cases hat : sendAt call with
    | none =>
      obtain ⟨hlimiter, hsession⟩ := Prod.mk.inj (call_quiet ha hat).1
      have hcounter : s₁.counter = s.counter := by
        rw [counter, counter, hlimiter, hsession]
      rw [sendTimes, List.filterMap_cons_none hat, verdicts,
        List.filterMap_cons_none (by simp [hat]), ← hcounter]
      exact ih (hlimiter ▸ hc)
    | some now =>
      obtain ⟨hgauge, hlimited, -⟩ := call_send ha hat
      obtain ⟨hlimiter, hsession⟩ := Prod.mk.inj hgauge
      obtain ⟨hcounted, htick⟩ := counted_checked hc now
      have hcounter : s₁.counter = (s.checked now).counter := by
        rw [counter, counter, hlimiter, hsession]
      rw [sendTimes, List.filterMap_cons_some hat, verdicts,
        List.filterMap_cons_some (by simp [hat]; rfl), hlimited, Bool.not_not]
      rw [← hcounter] at htick
      exact .cons htick (ih (hlimiter ▸ hcounted))

theorem streamTimes_sublist (hr : Runs calls s cs acts s') (p : ParticipantId) :
    (streamTimes p (trace calls s cs)).Sublist
      (RateLimiter.passed (verdicts (trace calls s cs))) := by
  induction hr with
  | nil => exact List.Sublist.refl _
  | @cons s s₁ s' call cs o acts ha _ ih =>
    rw [trace_cons ha]
    cases hat : sendAt call with
    | none =>
      rw [streamTimes, List.flatMap_cons, hat, verdicts, List.filterMap_cons_none (by simp [hat])]
      exact ih
    | some now =>
      obtain ⟨-, hlimited, hstreams⟩ := call_send ha hat
      have hle := hstreams p
      rw [streamTimes, List.flatMap_cons, hat, verdicts,
        List.filterMap_cons_some (by simp [hat]; rfl), hlimited, Bool.not_not]
      cases hpass : (s.ticked now).2 with
      | false =>
        rw [hpass, if_neg Bool.false_ne_true, Nat.le_zero] at hle
        simp only [hle, List.replicate_zero, List.nil_append]
        exact ih
      | true =>
        rw [hpass, if_pos rfl] at hle
        have hone : (List.replicate (o.countP (Act.streamsTo p)) now).Sublist [now] :=
          List.replicate_sublist_replicate (n := 1) now |>.mpr hle
        exact hone.append ih

theorem streams_of_sends (hr : Runs calls s cs acts s') (p : ParticipantId) :
    ∀ x ∈ trace calls s cs, sendAt x.1 = none → x.2.countP (Act.streamsTo p) = 0 := by
  induction hr with
  | nil => exact fun x hx => by cases hx
  | cons ha _ ih =>
    rw [trace_cons ha]
    refine List.forall_mem_cons.mpr ⟨fun hat => (call_quiet ha hat).2 p, ih⟩

/-- In every run of a syncer at clock readings that do not go back: which sends are limited is what
one counter alone makes of their times, whatever is joined, polled, received or rebound; in any `k`
windows in a row no peer is handed more than `(k + 1) * limit` messages other than announcements of
joins, and those only by sends; and if no interval of the length of a window has more than `limit`
sends, none is limited. -/
theorem egress_bounded {me : ParticipantId} {transport : τ} {limiter : RateLimiter}
    (hnew : RateLimiter.new n w = some limiter) (hw : 0 < w)
    (hr : Runs calls (withRateLimiter me transport limiter) cs acts s)
    (hsorted : (sendTimes cs).Pairwise (· ≤ ·)) :
    let trace := Machine.trace calls (withRateLimiter me transport limiter) cs
    Runs (RateLimiter.tickStep n w) none (sendTimes cs) (verdicts trace) s.counter ∧
    (∀ p, ∀ x ∈ trace, sendAt x.1 = none → x.2.countP (Act.streamsTo p) = 0) ∧
    (∀ p a k, (streamTimes p trace).countP (fun x => a ≤ x ∧ x < a + k * w) ≤
      (k + 1) * n.toNat) ∧
    ((∀ a, (sendTimes cs).countP (fun x => a ≤ x ∧ x < a + w) ≤ n.toNat) →
      ∀ x ∈ verdicts trace, x.2 = true) := by
  intro trace
  obtain ⟨hcounted, hempty⟩ := RateLimiter.Counted.new hnew
  have hn := hcounted.limit_pos
  have hverdicts : Runs (RateLimiter.tickStep n w) none (sendTimes cs) (verdicts trace)
      s.counter := by
    have hrun := verdicts_run hcounted hr
    rwa [show (withRateLimiter me transport limiter).counter = none from hempty _] at hrun
  refine ⟨hverdicts, streams_of_sends hr, fun p a k => ?_, fun hfew => ?_⟩
  · obtain ⟨blocks, htally⟩ := RateLimiter.tally_of_run hn hw hverdicts hsorted
    have hpassed := (streamTimes_sublist hr p).countP_le (p := fun x => a ≤ x ∧ x < a + k * w)
    rw [htally.passed_eq] at hpassed
    exact hpassed.trans (countP_blocks_le htally.spaced a k)
  · exact RateLimiter.passed_of_few hn hw hverdicts hsorted hfew

end Runs

def threeFrames : List (Call (Logged WebrtcTransport)) :=
  [.handle 0 (.join lobby bob), .handle 0 (.join lobby alice)] ++
    [1, 2, 3].map fun now => .handle now (.sendVoiceFrame [7] ⟨lobby, alice, .voice⟩)

/-- The third frame is limited, and `bob` is handed no more than the bound. -/
theorem egress_bounded_three_frames :
    let _ := hyphenated
    let _ := JsonText.serdeText
    ∃ limiter s acts, RateLimiter.new 2 10 = some limiter ∧
      Runs calls (withRateLimiter alice loggedEnd limiter) threeFrames acts s ∧
      verdicts (trace calls (withRateLimiter alice loggedEnd limiter) threeFrames) =
        [(1, true), (2, true), (3, false)] ∧
      (streamTimes bob (trace calls (withRateLimiter alice loggedEnd limiter)
        threeFrames)).countP (fun x => 0 ≤ x ∧ x < 0 + 1 * 10) ≤ (1 + 1) * 2 := by
  intro _ _
  let limiter : RateLimiter := ⟨2, by decide, 10, ∅⟩
  have hrun : (run calls (withRateLimiter alice loggedEnd limiter) threeFrames).isSome = true ∧
      verdicts (trace calls (withRateLimiter alice loggedEnd limiter) threeFrames) =
        [(1, true), (2, true), (3, false)] := by decide +kernel
  obtain ⟨⟨s, acts⟩, hr⟩ := Option.isSome_iff_exists.mp hrun.1
  have hnew : RateLimiter.new 2 10 = some limiter := rfl
  obtain ⟨-, -, hbound, -⟩ := egress_bounded hnew (by decide) (run_sound hr) (by decide)
  exact ⟨limiter, s, acts, hnew, run_sound hr, hrun.2, hbound bob 0 1⟩

end BasicSyncer

end Syncer
end Bakopa
