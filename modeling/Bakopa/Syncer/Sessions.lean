import Bakopa.Syncer.JsonText
import Bakopa.Syncer.SignalingAdapter

/-!
# Bakopa.Syncer.Sessions

The sessions that `BloomSignalingAdapter` reports, and when they are those that offers opened.

An offer opens a session when it is valid, and ends the one that was open. The adapter tracks a
participant before it validates the offer, and an invalid offer untracks it only if it was tracked:
after an invalid offer without a session the adapter takes the next offer for a re-offer.

* `Session`, `session` — the adapter's view of one participant, from its offers so far.
* `unopened_iff`       — when an offer meets a participant that is tracked without a session.
* `lifecycle_iff`      — in every run, the reports are right exactly when none does.
-/

namespace Bakopa
namespace Syncer

open Lib Lib.Machine Bloom

inductive Session where
  | idle
  | opened
  /-- Tracked, but its last offer was not valid. -/
  | stale
deriving DecidableEq

namespace Session

/-- An offer, valid or not. -/
def next : Session → Bool → Session
  | _, true => .opened
  | .idle, false => .stale
  | .opened, false | .stale, false => .idle

def session (offers : List Bool) : Session := offers.foldl next .idle

/-- An offer comes right after an invalid one that found no session. -/
def Unopened (offers : List Bool) : Prop :=
  ∃ pre b post, offers = pre ++ false :: b :: post ∧ pre.getLast? ≠ some true

theorem session_append (offers : List Bool) (b : Bool) :
    session (offers ++ [b]) = next (session offers) b := by
  simp [session, List.foldl_append]

theorem session_eq_opened (offers : List Bool) :
    session offers = .opened ↔ offers.getLast? = some true := by
  rcases List.eq_nil_or_concat offers with rfl | ⟨pre, b, rfl⟩
  · simp [session]
  · rw [List.concat_eq_append, session_append, List.getLast?_concat]
    cases b with
    | true => simp [next]
    | false => cases session pre <;> simp [next]

theorem session_eq_stale {offers : List Bool} (h : session offers = .stale) :
    ∃ pre, offers = pre ++ [false] ∧ session pre = .idle := by
  rcases List.eq_nil_or_concat offers with rfl | ⟨pre, b, rfl⟩
  · cases h
  · rw [List.concat_eq_append, session_append] at h
    refine ⟨pre, ?_, ?_⟩
    · cases b with
      | true => cases h
      | false => rw [List.concat_eq_append]
    · cases hs : session pre with
      | idle => rfl
      | opened => rw [hs] at h; cases b <;> cases h
      | stale => rw [hs] at h; cases b <;> cases h

/-- Of two offers in a row that bring it about, the adapter is wrong on one. -/
theorem unopened_iff (offers : List Bool) :
    Unopened offers ↔ ∃ pre b post, offers = pre ++ b :: post ∧ session pre = .stale := by
  constructor
  · rintro ⟨pre, b, post, rfl, hpre⟩
    rw [ne_eq, ← session_eq_opened] at hpre
    cases hs : session pre with
    | idle =>
      refine ⟨pre ++ [false], b, post, by simp, ?_⟩
      rw [session_append, hs]
      rfl
    | opened => exact absurd hs hpre
    | stale => exact ⟨pre, false, b :: post, rfl, hs⟩
  · rintro ⟨pre, b, post, rfl, hstale⟩
    obtain ⟨pre, rfl, hidle⟩ := session_eq_stale hstale
    refine ⟨pre, b, post, by simp, ?_⟩
    rw [ne_eq, ← session_eq_opened, hidle]
    simp

end Session

namespace BloomSignalingAdapter

def valid (context : SignalingContext) (message : ServerToClient) : Bool :=
  match verdict context message with
  | some (.ok _) => true
  | _ => false

def invalid (context : SignalingContext) (message : ServerToClient) : Bool :=
  match verdict context message with
  | some (.error _) => true
  | _ => false

def isInvalidPayload : AdapterAct → Bool
  | .event (.error (.invalidPayload _)) => true
  | _ => false

section Sessions

variable [UuidCrate]

/-- The offers of `p` among the messages, each with its validity. -/
def offers (context : SignalingContext) (p : ParticipantId) (messages : List ServerToClient) :
    List Bool :=
  messages.filterMap fun message =>
    if offerer message = some p then some (valid context message) else none

/-- The last offer of `p` was valid. -/
def SessionOpen (context : SignalingContext) (p : ParticipantId)
    (messages : List ServerToClient) : Prop :=
  (offers context p messages).getLast? = some true

/-- The message is an offer of `p`, and `p` has a session. -/
def Reoffer (context : SignalingContext) (p : ParticipantId) (before : List ServerToClient)
    (message : ServerToClient) : Prop :=
  offerer message = some p ∧ SessionOpen context p before

instance (context : SignalingContext) (p : ParticipantId) (before : List ServerToClient)
    (message : ServerToClient) : Decidable (Reoffer context p before message) :=
  inferInstanceAs (Decidable (_ ∧ _ = _))

/-- What is to become of a message, after those before it, as far as `p` is concerned. -/
structure Lifecycle (context : SignalingContext) (p : ParticipantId)
    (before : List ServerToClient) (x : Processed) : Prop where
  forwards : x.payload.isSome = valid context x.message
  errors : x.acts.countP isInvalidPayload =
    if invalid context x.message then 1 else 0
  closes : x.acts.count (.close p) = if Reoffer context p before x.message then 1 else 0
  leaves : x.acts.count (.event (.peerLeft p)) =
    if Reoffer context p before x.message then 1 else 0
  joins : x.acts.count (.event (.peerJoined p)) =
    if Reoffer context p before x.message ∧ valid context x.message then 1 else 0
  follows : .event (.peerJoined p) ∈ x.acts →
    [.event (.peerLeft p), .event (.peerJoined p)] <:+: x.acts

variable [SerdeJson] {context : SignalingContext} {active : Finset ParticipantId}
  {before : List ServerToClient} {message : ServerToClient} {p q : ParticipantId}

omit [UuidCrate] [SerdeJson] in
theorem signalingOf_of_verdict {v : Except SyncMessageError Unit}
    (h : verdict context message = some v) : (signalingOf context message).isSome = true := by
  unfold verdict at h
  cases hm : signalingOf context message with
  | none => rw [hm] at h; cases h
  | some m => rfl

omit [SerdeJson] in
theorem verdict_of_offerer (context : SignalingContext) (h : offerer message = some q) :
    verdict context message = some (.ok ()) ∨ ∃ e, verdict context message = some (.error e) := by
  cases message with
  | offer sender payload =>
    cases hv : SignalingMessage.validate (.offer
      ⟨1, context.roomId, sender, context.authToken, context.icePolicy, payload.sdp⟩) with
    | ok u => exact .inl (congrArg some hv)
    | error e => exact .inr ⟨e, congrArg some hv⟩
  | _ => cases h

theorem closes_offer (hp : offerer message = some p) :
    (shapeIncoming context active message).2.acts.count (.close p) =
      if p ∈ active then 1 else 0 := by
  rcases verdict_of_offerer context hp with hv | ⟨e, hv⟩
  · rw [shapeIncoming_offer_ok hp hv]
    by_cases hin : p ∈ active
    all_goals simp [hin]
  · rw [shapeIncoming_offer_error hp hv]
    by_cases hin : p ∈ active
    all_goals simp [hin, errorAct]

theorem lifecycle_offer (hp : offerer message = some p) :
    Lifecycle context p before (shapeIncoming context active message).2 ↔
      (p ∈ active ↔ Reoffer context p before message) := by
  have hmessage : (shapeIncoming context active message).2.message = message := rfl
  constructor
  · intro h
    have hcloses := h.closes
    rw [closes_offer hp, hmessage] at hcloses
    by_cases hin : p ∈ active
    · by_cases hre : Reoffer context p before message
      · exact iff_of_true hin hre
      · simp [hin, hre] at hcloses
    · by_cases hre : Reoffer context p before message
      · simp [hin, hre] at hcloses
      · exact iff_of_false hin hre
  · intro hiff
    rcases verdict_of_offerer context hp with hv | ⟨e, hv⟩
    · have hvalid : valid context message = true := by rw [valid, hv]
      have hinvalid : invalid context message = false := by rw [invalid, hv]
      have hpayload := signalingOf_of_verdict hv
      rw [shapeIncoming_offer_ok hp hv]
      by_cases hin : p ∈ active
      · have hre := hiff.mp hin
        refine ⟨?_, ?_, ?_, ?_, ?_, ?_⟩
        all_goals simp [hvalid, hinvalid, hpayload, hin, hre, isInvalidPayload]
        exact ⟨[.close p], [], rfl⟩
      · have hre := hiff.not.mp hin
        refine ⟨?_, ?_, ?_, ?_, ?_, ?_⟩
        all_goals simp [hvalid, hinvalid, hpayload, hin, hre]
    · have hvalid : valid context message = false := by rw [valid, hv]
      have hinvalid : invalid context message = true := by rw [invalid, hv]
      rw [shapeIncoming_offer_error hp hv]
      by_cases hin : p ∈ active
      · have hre := hiff.mp hin
        refine ⟨?_, ?_, ?_, ?_, ?_, ?_⟩
        all_goals simp [hvalid, hinvalid, hin, hre, isInvalidPayload, errorAct, List.countP_cons]
      · have hre := hiff.not.mp hin
        refine ⟨?_, ?_, ?_, ?_, ?_, ?_⟩
        all_goals simp [hvalid, hinvalid, hin, hre, isInvalidPayload, errorAct]

theorem lifecycle_other (hp : offerer message ≠ some p) :
    Lifecycle context p before (shapeIncoming context active message).2 := by
  have hre : ¬ Reoffer context p before message := fun h => hp h.1
  cases ho : offerer message with
  | none =>
    rw [shapeIncoming_other ho]
    cases hv : verdict context message with
    | none =>
      refine ⟨?_, ?_, ?_, ?_, ?_, ?_⟩
      all_goals simp [valid, invalid, hv, hre]
    | some v =>
      have hpayload := signalingOf_of_verdict hv
      cases v with
      | ok u =>
        refine ⟨?_, ?_, ?_, ?_, ?_, ?_⟩
        all_goals simp [valid, invalid, hv, hre, hpayload]
      | error e =>
        refine ⟨?_, ?_, ?_, ?_, ?_, ?_⟩
        all_goals simp [valid, invalid, hv, hre, errorAct, isInvalidPayload]
  | some q =>
    have hq : q ≠ p := fun h => hp (h ▸ ho)
    rcases verdict_of_offerer context ho with hv | ⟨e, hv⟩
    · have hpayload := signalingOf_of_verdict hv
      rw [shapeIncoming_offer_ok ho hv]
      refine ⟨?_, ?_, ?_, ?_, ?_, ?_⟩
      all_goals by_cases hin : q ∈ active
      all_goals simp [valid, invalid, hv, hre, hin, hq, hq.symm, hpayload, isInvalidPayload]
    · rw [shapeIncoming_offer_error ho hv]
      refine ⟨?_, ?_, ?_, ?_, ?_, ?_⟩
      all_goals by_cases hin : q ∈ active
      all_goals simp [valid, invalid, hv, hre, hin, hq, errorAct, isInvalidPayload,
        List.countP_cons]

omit [SerdeJson] in
theorem offers_append (p : ParticipantId) (before : List ServerToClient)
    (message : ServerToClient) :
    offers context p (before ++ [message]) = offers context p before ++
      if offerer message = some p then [valid context message] else [] := by
  by_cases hp : offerer message = some p
  · simp [offers, hp]
  · simp [offers, hp]

/-- The adapter tracks who has a session and who is stale. -/
theorem tracked_step (h : p ∈ active ↔ Session.session (offers context p before) ≠ .idle) :
    p ∈ (shapeIncoming context active message).1 ↔
      Session.session (offers context p (before ++ [message])) ≠ .idle := by
  rw [offers_append]
  by_cases hp : offerer message = some p
  · rw [if_pos hp, Session.session_append]
    rcases verdict_of_offerer context hp with hv | ⟨e, hv⟩
    · rw [shapeIncoming_offer_ok hp hv, valid, hv]
      simp [Session.next]
    · rw [shapeIncoming_offer_error hp hv, valid, hv]
      cases hs : Session.session (offers context p before) with
      | idle =>
        rw [hs] at h
        have hin : p ∉ active := by simpa using h
        simp [hin, Session.next]
      | opened =>
        rw [hs] at h
        have hin : p ∈ active := by simpa using h
        simp [hin, Session.next]
      | stale =>
        rw [hs] at h
        have hin : p ∈ active := by simpa using h
        simp [hin, Session.next]
  · rw [if_neg hp, List.append_nil, ← h]
    cases ho : offerer message with
    | none => rw [shapeIncoming_other ho]
    | some q =>
      have hq : p ≠ q := fun h => hp (h ▸ ho)
      rcases verdict_of_offerer context ho with hv | ⟨e, hv⟩
      · rw [shapeIncoming_offer_ok ho hv]
        simp [hq]
      · rw [shapeIncoming_offer_error ho hv]
        by_cases hin : q ∈ active
        · simp [hin, hq]
        · simp [hin, hq]

theorem tracked_iff {messages : List ServerToClient} {os : List Processed}
    (h : Runs (processing context) ∅ messages os active) (p : ParticipantId) :
    p ∈ active ↔ Session.session (offers context p messages) ≠ .idle := by
  refine h.history (I := fun active messages _ =>
    p ∈ active ↔ Session.session (offers context p messages) ≠ .idle) ?_ ?_
  · simp [offers, Session.session]
  · intro active messages os message active' o _ hI hstep
    cases hstep
    exact tracked_step hI

theorem processed_at {messages : List ServerToClient} {os pre post : List Processed}
    {x : Processed} {active' : Finset ParticipantId}
    (h : Runs (processing context) active messages os active') (hos : os = pre ++ x :: post) :
    ∃ active₁, Runs (processing context) active (pre.map Processed.message) pre active₁ ∧
      (shapeIncoming context active₁ x.message).2 = x := by
  obtain ⟨bs, os₁, active₁, message, o₁, o₂, active₂, cs, os₂, h₁, hstep, -, rfl, -⟩ :=
    h.split_output hos
  simp only [processing, Option.some.injEq, Prod.mk.injEq] at hstep
  obtain ⟨-, hrecord⟩ := hstep
  rcases snoc_split (l := []) hrecord with ⟨-, rfl, rfl⟩ | ⟨rest, -, h⟩
  · rw [List.append_nil, messages_processed h₁]
    exact ⟨active₁, h₁, rfl⟩
  · simp at h

omit [SerdeJson] in
theorem offers_split {os : List Processed} {l₁ l₂ : List Bool} {b : Bool} :
    offers context p (os.map Processed.message) = l₁ ++ b :: l₂ ↔
      ∃ pre x post, os = pre ++ x :: post ∧ offers context p (pre.map Processed.message) = l₁ ∧
        offerer x.message = some p ∧ valid context x.message = b ∧
        offers context p (post.map Processed.message) = l₂ := by
  simp only [offers, List.filterMap_map]
  constructor
  · intro h
    obtain ⟨pre, rest, rfl, hpre, hrest⟩ := List.filterMap_eq_append_iff.mp h
    obtain ⟨skipped, x, post, rfl, hskipped, hx, hpost⟩ := List.filterMap_eq_cons_iff.mp hrest
    simp only [Function.comp_apply, Option.ite_none_right_eq_some, Option.some_inj] at hx
    refine ⟨pre ++ skipped, x, post, by simp, ?_, hx.1, hx.2, hpost⟩
    rw [List.filterMap_append, hpre, List.filterMap_eq_nil_iff.mpr hskipped, List.append_nil]
  · rintro ⟨pre, x, post, rfl, hpre, hp, hb, hpost⟩
    rw [List.filterMap_append, List.filterMap_cons_some (b := b) (by simp [hp, hb]), hpre, hpost]

/-- The reports on one message are right unless it is an offer of a stale participant. -/
theorem lifecycle_at (message : ServerToClient)
    (htracked : p ∈ active ↔ Session.session (offers context p before) ≠ .idle) :
    Lifecycle context p before (shapeIncoming context active message).2 ↔
      (offerer message = some p → Session.session (offers context p before) ≠ .stale) := by
  by_cases hp : offerer message = some p
  · rw [lifecycle_offer hp, htracked, Reoffer, SessionOpen, ← Session.session_eq_opened]
    cases Session.session (offers context p before) <;> simp [hp]
  · exact iff_of_true (lifecycle_other hp) fun h => absurd h hp

/-- In every run, the adapter reports the sessions that the offers of a participant open and end,
unless an offer comes right after an invalid one that found no session. -/
theorem lifecycle_iff {a : BloomSignalingAdapter} {calls : List Call} {os : List Processed}
    (hr : Runs step (withContext context) calls os a) (p : ParticipantId) :
    (∀ pre x post, os = pre ++ x :: post →
      Lifecycle context p (pre.map Processed.message) x) ↔
      ¬ Session.Unopened (offers context p (polled [] calls)) := by
  have hproc : Runs (processing context) ∅ (polled [] calls) os a.activeParticipants :=
    runs_processing hr
  have hrecord : ∀ pre x post, os = pre ++ x :: post →
      (Lifecycle context p (pre.map Processed.message) x ↔ (offerer x.message = some p →
        Session.session (offers context p (pre.map Processed.message)) ≠ .stale)) := by
    intro pre x post hos
    obtain ⟨active, hpre, hx⟩ := processed_at hproc hos
    have hat := lifecycle_at x.message (tracked_iff hpre p)
    rwa [hx] at hat
  rw [Session.unopened_iff, ← messages_processed hproc]
  constructor
  · rintro hall ⟨l₁, b, l₂, hoffers, hstale⟩
    obtain ⟨pre, x, post, hos, rfl, hp, -, -⟩ := offers_split.mp hoffers
    exact (hrecord pre x post hos).mp (hall pre x post hos) hp hstale
  · intro hnone pre x post hos
    refine (hrecord pre x post hos).mpr fun hp hstale => hnone ?_
    exact ⟨_, _, _, offers_split.mpr ⟨pre, x, post, hos, rfl, hp, rfl, rfl⟩, hstale⟩

end Sessions

section Samples

def devContext : SignalingContext := ⟨"lobby", "INSECURE_DEV", "default"⟩

/-- Offers of one participant in one poll, by their SDP. -/
def offerCalls [UuidCrate] (p : ParticipantId) (sdps : List String) : List Call :=
  (sdps.map fun sdp => .pushIncoming (.offer p.toString ⟨sdp⟩)) ++ [.poll]

theorem lifecycle_iff_reoffer :
    let _ := hyphenated
    let _ := JsonText.serdeText
    ∃ a os, Runs step (withContext devContext) (offerCalls ⟨7⟩ ["v=0", "v=1"]) os a ∧
      os.map Processed.acts =
        [[], [.close ⟨7⟩, .event (.peerLeft ⟨7⟩), .event (.peerJoined ⟨7⟩)]] ∧
      ((∀ pre x post, os = pre ++ x :: post →
        Lifecycle devContext ⟨7⟩ (pre.map Processed.message) x) ↔
        ¬ Session.Unopened
          (offers devContext ⟨7⟩ (polled [] (offerCalls ⟨7⟩ ["v=0", "v=1"])))) := by
  intro _ _
  have hrun : (run step (withContext devContext) (offerCalls ⟨7⟩ ["v=0", "v=1"])).map
      (fun r => r.2.map Processed.acts) =
      some [[], [.close ⟨7⟩, .event (.peerLeft ⟨7⟩), .event (.peerJoined ⟨7⟩)]] := by
    decide +kernel
  obtain ⟨⟨a, os⟩, hr, hacts⟩ := Option.map_eq_some_iff.mp hrun
  exact ⟨a, os, run_sound hr, hacts, lifecycle_iff (run_sound hr) ⟨7⟩⟩

/-- A first offer without SDP is an error, and the next offer closes a session that never was. -/
theorem unopened_session_closed :
    let _ := hyphenated
    let _ := JsonText.serdeText
    (∃ a os, Runs step (withContext devContext) (offerCalls ⟨7⟩ ["", "v=0"]) os a ∧
      os.map (fun x => (x.payload.isSome, x.acts)) =
        [(false, [errorAct (signalingViolation Reason.missingSdp)]),
          (true, [.close ⟨7⟩, .event (.peerLeft ⟨7⟩), .event (.peerJoined ⟨7⟩)])]) ∧
      ¬ SessionOpen devContext ⟨7⟩ [.offer (ParticipantId.mk 7).toString ⟨""⟩] := by
  intro _ _
  have hrun : (run step (withContext devContext) (offerCalls ⟨7⟩ ["", "v=0"])).map
      (fun r => r.2.map fun x => (x.payload.isSome, x.acts)) =
      some [(false, [errorAct (signalingViolation Reason.missingSdp)]),
        (true, [.close ⟨7⟩, .event (.peerLeft ⟨7⟩), .event (.peerJoined ⟨7⟩)])] := by
    decide +kernel
  obtain ⟨⟨a, os⟩, hr, hacts⟩ := Option.map_eq_some_iff.mp hrun
  refine ⟨⟨a, os, run_sound hr, hacts⟩, ?_⟩
  unfold SessionOpen
  decide +kernel

end Samples

end BloomSignalingAdapter

end Syncer
end Bakopa
