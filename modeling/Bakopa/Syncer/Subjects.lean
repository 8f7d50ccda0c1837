import Bakopa.Syncer.Reports

/-!
# Bakopa.Syncer.Subjects

Whom a payload concerns. A control message names its subject, and nothing compares that with the
sender: one client announces the joins that its own user requests, of whomever. So a payload
touches the registration of its subject and of nobody else, whoever sends it.

* `OnlyAbout`, `Spared` — a step leaves everyone but one participant, or the one, as they were.
* `payloads_touch_subjects` — every payload is such a step, and over a run nobody is touched but by
  a `Join` request, a failure, or a payload that names them.
-/

namespace Bakopa
namespace Syncer

open Lib Lib.Machine

/-- The list without the subject. -/
def others (subject : Option ParticipantId) (l : List ParticipantId) : List ParticipantId :=
  l.filter fun p => subject ≠ some p

/-- From `t` to `t'` only the subject changes, and only the subject is reported. -/
structure OnlyAbout (subject : Option ParticipantId) (t t' : ParticipantTable)
    (out : List SyncerEvent) : Prop where
  sessions : ∀ p, subject ≠ some p → t'.sessions.lookup p = t.sessions.lookup p
  order : others subject t'.participants = others subject t.participants
  reports : ∀ p, .peerJoined p ∈ out ∨ .peerLeft p ∈ out → subject = some p

theorem OnlyAbout.refl {subject : Option ParticipantId} {t : ParticipantTable}
    {out : List SyncerEvent} (h : ∀ e ∈ out, e.IsMessage) : OnlyAbout subject t t out where
  sessions _ _ := rfl
  order := rfl
  reports p hp := by
    rcases hp with hp | hp
    · exact (h _ hp).elim
    · exact (h _ hp).elim

/-- The registration of `p` is as it was, and nothing is said about it. -/
structure Spared (p : ParticipantId) (t t' : ParticipantTable) (out : List SyncerEvent) :
    Prop where
  session : t'.sessions.lookup p = t.sessions.lookup p
  joined : .peerJoined p ∉ out
  left : .peerLeft p ∉ out

theorem OnlyAbout.spared {subject : Option ParticipantId} {t t' : ParticipantTable}
    {out : List SyncerEvent} {p : ParticipantId} (h : OnlyAbout subject t t' out)
    (hp : subject ≠ some p) : Spared p t t' out where
  session := h.sessions p hp
  joined he := hp (h.reports p (.inl he))
  left he := hp (h.reports p (.inr he))

namespace Spared

variable {p : ParticipantId} {t t' t'' : ParticipantTable} {out out' : List SyncerEvent}

theorem refl (h : ∀ e ∈ out, e.IsMessage) : Spared p t t out :=
  ⟨rfl, fun he => (h _ he).elim, fun he => (h _ he).elim⟩

theorem trans (h : Spared p t t' out) (h' : Spared p t' t'' out') :
    Spared p t t'' (out ++ out') where
  session := h'.session.trans h.session
  joined he := (List.mem_append.mp he).elim h.joined h'.joined
  left he := (List.mem_append.mp he).elim h.left h'.left

theorem mem_iff (h : Spared p t t' out) : p ∈ t'.participants ↔ p ∈ t.participants := by
  rw [ParticipantTable.mem_participants, ParticipantTable.mem_participants,
    ← Finmap.lookup_isSome, ← Finmap.lookup_isSome, h.session]

end Spared

namespace ParticipantTable

variable {t : ParticipantTable} {p : ParticipantId}

theorem others_applyLeave :
    others (some p) (t.applyLeave p).1.participants = others (some p) t.participants := by
  rw [participants_applyLeave, t.nodup_participants.erase_eq_filter]
  simp only [others, List.filter_filter]
  refine List.filter_congr fun q _ => ?_
  by_cases h : q = p
  · simp [h]
  · simp [h, Ne.symm h]

theorem others_applyJoin :
    others (some p) (t.applyJoin p).1.participants = others (some p) t.participants := by
  refine Eq.trans ?_ others_applyLeave
  rw [participants_applyJoin, participants_applyLeave]
  simp [others]

end ParticipantTable

namespace PresenceOp

def subject : PresenceOp → ParticipantId
  | .join p | .leave p | .fail p => p

theorem apply_onlyAbout (seen : Finset ParticipantId) (t : ParticipantTable) (op : PresenceOp) :
    OnlyAbout (some op.subject) t (op.apply seen t).participants (op.apply seen t).out := by
  have hne : ∀ {p q : ParticipantId}, some p ≠ some q → q ≠ p := fun h he => h (by rw [he])
  cases op with
  | join p =>
    refine ⟨fun q hq => ParticipantTable.lookup_applyJoin.trans (if_neg (hne hq)),
      ParticipantTable.others_applyJoin, fun q hq => ?_⟩
    simp only [apply, ParticipantTable.events_applyJoin] at hq
    split at hq
    · simpa [subject, eq_comm] using hq
    · simpa [subject, eq_comm] using hq
  | leave p =>
    refine ⟨fun q hq => ParticipantTable.lookup_applyLeave.trans (if_neg (hne hq)),
      ParticipantTable.others_applyLeave, fun q hq => ?_⟩
    simp only [apply, ParticipantTable.events_applyLeave] at hq
    split at hq
    · simpa [subject, eq_comm] using hq
    · simp at hq
  | fail p =>
    by_cases hseen : p ∈ seen
    · simp only [apply, if_pos hseen]
      exact .refl (by simp)
    · simp only [apply, if_neg hseen]
      refine ⟨fun q hq => ParticipantTable.lookup_applyLeave.trans (if_neg (hne hq)),
        ParticipantTable.others_applyLeave, fun q hq => ?_⟩
      simpa [subject, eq_comm] using hq

end PresenceOp

section Payloads

variable [UuidCrate] [SerdeJson]

/-- The participant that a control message names. -/
def TransportPayload.subject (payload : TransportPayload) : Option ParticipantId :=
  match payload.parseSyncMessage with
  | .ok (.control m) => ParticipantId.fromStr m.payload.participantId
  | _ => none

def TransportEvent.subject : TransportEvent → Option ParticipantId
  | .received _ payload => payload.subject
  | .failure peer => some peer

namespace TransportInbox

variable {room : RoomId} {seen : Finset ParticipantId} {t : ParticipantTable}
  {ev : TransportEvent} {evs : List TransportEvent} {p : ParticipantId}

theorem subject_eq (ev : TransportEvent) : ev.subject = ev.presence.map PresenceOp.subject := by
  cases ev with
  | received sender payload =>
    simp only [TransportEvent.subject, TransportPayload.subject, TransportEvent.presence]
    cases payload.parseSyncMessage with
    | error e => rfl
    | ok m =>
      cases m with
      | control m =>
        have hnamed : ∀ (op : ParticipantId → PresenceOp) raw, (∀ p, (op p).subject = p) →
            ParticipantId.fromStr raw =
              ((ParticipantId.fromStr raw).map op).map PresenceOp.subject := by
          intro op raw hop
          cases ParticipantId.fromStr raw with
          | none => rfl
          | some p => exact congrArg some (hop p).symm
        cases m with
        | join c => exact hnamed .join c.participantId fun _ => rfl
        | leave c => exact hnamed .leave c.participantId fun _ => rfl
      | _ => rfl
  | failure peer => rfl

theorem processEvent_onlyAbout (room : RoomId) (seen : Finset ParticipantId)
    (t : ParticipantTable) (ev : TransportEvent) :
    OnlyAbout ev.subject t (processEvent room seen t ev).participants
      (processEvent room seen t ev).out := by
  rw [subject_eq]
  cases h : ev.presence with
  | some op =>
    rw [processEvent_presence h]
    exact op.apply_onlyAbout seen t
  | none =>
    obtain ⟨e, he, -, heq⟩ := processEvent_message room seen t h
    rw [heq]
    exact .refl (by simpa using he)

theorem processEvent_sender (sender sender' : ParticipantId) {payload : TransportPayload}
    (h : payload.subject = some p) :
    processEvent room seen t (.received sender payload) =
      processEvent room seen t (.received sender' payload) := by
  have hsub : TransportEvent.subject (.received sender payload) = some p := h
  rw [subject_eq, Option.map_eq_some_iff] at hsub
  obtain ⟨op, hop, -⟩ := hsub
  have hop' : TransportEvent.presence (.received sender' payload) = some op := hop
  rw [processEvent_presence hop, processEvent_presence hop']

theorem processEvents_spared (evs : List TransportEvent) (seen : Finset ParticipantId)
    (t : ParticipantTable) (h : ∀ ev ∈ evs, ev.subject ≠ some p) :
    Spared p t (processEvents room seen t evs).participants
      (processEvents room seen t evs).out := by
  induction evs generalizing seen t with
  | nil => exact .refl (by simp [processEvents])
  | cons ev evs ih =>
    have hfirst := (processEvent_onlyAbout room seen t ev).spared (h ev List.mem_cons_self)
    exact hfirst.trans (ih _ _ fun ev' hev' => h ev' (List.mem_cons_of_mem ev hev'))

end TransportInbox

/-- The act is, or takes in, something about `p`. -/
def Act.Concerns (p : ParticipantId) : Act → Prop
  | .joining q => q = p
  | .drained _ inbox _ => ∃ ev ∈ inbox.events, ev.subject = some p
  | _ => False

instance (p : ParticipantId) : DecidablePred (Act.Concerns p) := fun x =>
  match x with
  | .joining q => inferInstanceAs (Decidable (q = p))
  | .drained _ inbox _ => inferInstanceAs (Decidable (∃ ev ∈ inbox.events, ev.subject = some p))
  | .event _ | .send _ => .isFalse id

namespace BasicSyncer

variable {τ : Type} [Transport τ] {p : ParticipantId}

theorem drain_spared (s : BasicSyncer τ)
    (h : ∀ x ∈ s.drainTransportEvents.2, ¬ x.Concerns p) :
    Spared p s.participants s.drainTransportEvents.1.participants
      (returned s.drainTransportEvents.2) := by
  cases hroom : s.room with
  | none =>
    rw [drain_none hroom]
    exact .refl (by simp)
  | some room =>
    have hmark : ¬ Act.Concerns p (.drained room s.polled s.participants) := by
      refine h _ ?_
      rw [drain_some hroom]
      simp
    rw [returned_drain hroom, drain_some hroom]
    exact TransportInbox.processEvents_spared _ _ _ fun ev hev hsub => hmark ⟨ev, hev, hsub⟩

theorem enter_spared (s : BasicSyncer τ) (room : RoomId) (q : ParticipantId)
    (h : ∀ x ∈ (s.enterRoom room q).2, ¬ x.Concerns p) :
    Spared p s.participants (s.enterRoom room q).1.participants
      (returned (s.enterRoom room q).2) := by
  have hq : q ≠ p := h (.joining q) (by simp [enterRoom])
  have hjoin := (PresenceOp.join q).apply_onlyAbout s.inbox.failureEmitted s.participants
  have hself : Spared p (s.participants.applyJoin q).1 (s.participants.applyJoin q).1
      [.selfJoined room q] := .refl (by simp [SyncerEvent.IsMessage])
  rw [returned_enter]
  exact (hjoin.spared fun he => hq (Option.some.inj he)).trans hself

theorem prim_spared {s s' : BasicSyncer τ} {a : Prim τ} {o : List Act}
    (h : prim s a = some (s', o)) (ho : ∀ x ∈ o, ¬ x.Concerns p) :
    Spared p s.participants s'.participants (returned o) := by
  cases a with
  | drain =>
    have hspared := s.drain_spared (p := p)
    rw [show s.drainTransportEvents = (s', o) from Option.some.inj h] at hspared
    exact hspared ho
  | limit streamKind now =>
    obtain ⟨⟨l, rfl⟩, rfl | rfl⟩ := limit_cases h
    · exact .refl (by simp)
    · exact .refl (by simp [SyncerEvent.IsMessage])
  | enter room q =>
    have hspared := s.enter_spared room q (p := p)
    rw [show s.enterRoom room q = (s', o) from Option.some.inj h] at hspared
    exact hspared ho
  | send m =>
    obtain ⟨-, rfl, rfl⟩ := send_cases h
    exact .refl (by simp)
  | push ev => cases h; exact .refl (by simp)
  | rebind transport => cases h; exact .refl (by simp)

theorem runs_spared {s s' : BasicSyncer τ} {ps : List (Prim τ)} {acts : List Act}
    (h : Runs prim s ps acts s') (hacts : ∀ x ∈ acts, ¬ x.Concerns p) :
    Spared p s.participants s'.participants (returned acts) := by
  induction h with
  | nil => exact .refl (by simp)
  | cons ha _ ih =>
    rw [returned_append]
    exact (prim_spared ha fun x hx => hacts x (List.mem_append_left _ hx)).trans
      (ih fun x hx => hacts x (List.mem_append_right _ hx))

/-- In every state, a payload touches its subject only, and does so whoever sent it. Over a run,
whoever no request, failure or payload names is touched by nothing. -/
theorem payloads_touch_subjects {s s' : BasicSyncer τ} {cs : List (Call τ)} {acts : List Act}
    (h : Runs calls s cs acts s') :
    (∀ room sender payload,
      OnlyAbout payload.subject s'.participants
        (TransportInbox.processEvent room s'.inbox.failureEmitted s'.participants
          (.received sender payload)).participants
        (TransportInbox.processEvent room s'.inbox.failureEmitted s'.participants
          (.received sender payload)).out ∧
      ∀ p sender', payload.subject = some p →
        TransportInbox.processEvent room s'.inbox.failureEmitted s'.participants
            (.received sender payload) =
          TransportInbox.processEvent room s'.inbox.failureEmitted s'.participants
            (.received sender' payload)) ∧
    ∀ p, (∀ x ∈ acts, ¬ x.Concerns p) →
      Spared p s.participants s'.participants (returned acts) ∧
      (p ∈ s'.participantsSnapshot ↔ p ∈ s.participantsSnapshot) := by
  obtain ⟨ps, hps, -⟩ := calls_expand h
  refine ⟨fun room sender payload => ⟨?_, ?_⟩, fun p hp => ?_⟩
  · exact TransportInbox.processEvent_onlyAbout room s'.inbox.failureEmitted s'.participants
      (.received sender payload)
  · intro p sender' hsub
    exact TransportInbox.processEvent_sender sender sender' hsub
  · have hspared := runs_spared hps hp
    exact ⟨hspared, hspared.mem_iff⟩

end BasicSyncer

end Payloads

namespace BasicSyncer

theorem payloads_touch_subjects_control :
    let _ := hyphenated
    let _ := JsonText.serdeText
    ∃ s s' acts acts', Runs calls aliceSyncer [.handle 0 (.join lobby alice)] acts s ∧
      Runs calls s [.pushTransportEvent bobJoins, .pollOnly, .pushTransportEvent bobLeaves,
        .pollOnly] acts' s' ∧
      returned acts' = [.peerJoined bob, .peerLeft bob] ∧ (∀ x ∈ acts', ¬ x.Concerns alice) ∧
      Spared alice s.participants s'.participants (returned acts') ∧
      (alice ∈ s'.participantsSnapshot ↔ alice ∈ s.participantsSnapshot) := by
  intro _ _
  have hrun : (run calls aliceSyncer [.handle 0 (.join lobby alice)]).bind (fun r =>
      (run calls r.1 [.pushTransportEvent bobJoins, .pollOnly, .pushTransportEvent bobLeaves,
        .pollOnly]).map fun r' =>
        (returned r'.2, decide (∀ x ∈ r'.2, ¬ x.Concerns alice))) =
      some ([.peerJoined bob, .peerLeft bob], true) := by decide +kernel
  obtain ⟨⟨s, acts⟩, hr, hlater⟩ := Option.bind_eq_some_iff.mp hrun
  obtain ⟨⟨s', acts'⟩, hr', hsaid⟩ := Option.map_eq_some_iff.mp hlater
  obtain ⟨hreturned, hacts⟩ := Prod.mk.inj hsaid
  have hacts := of_decide_eq_true hacts
  exact ⟨s, s', acts, acts', run_sound hr, run_sound hr', hreturned, hacts,
    (payloads_touch_subjects (run_sound hr')).2 alice hacts⟩

/-- `bob` announces that `carol` has joined and that `alice`, the local user, has left. -/
theorem announced_for_others :
    let _ := hyphenated
    let _ := JsonText.serdeText
    let carol : ParticipantId := ⟨3⟩
    ∃ s acts, Runs calls aliceSyncer
        [.handle 0 (.join lobby alice), .pushTransportEvent bobJoins,
          .pushTransportEvent (fromBob (.join ⟨carol.toString, none, none⟩)),
          .pushTransportEvent (fromBob (.leave ⟨alice.toString, none, none⟩)), .pollOnly] acts s ∧
      returned acts = [.peerJoined alice, .selfJoined lobby alice, .peerJoined bob,
        .peerJoined carol, .peerLeft alice] ∧
      s.participantsSnapshot = [bob, carol] := by
  intro _ _ carol
  have hrun : (run calls aliceSyncer [.handle 0 (.join lobby alice), .pushTransportEvent bobJoins,
      .pushTransportEvent (fromBob (.join ⟨carol.toString, none, none⟩)),
      .pushTransportEvent (fromBob (.leave ⟨alice.toString, none, none⟩)), .pollOnly]).map
      (fun r => (returned r.2, r.1.participantsSnapshot)) =
      some ([.peerJoined alice, .selfJoined lobby alice, .peerJoined bob, .peerJoined carol,
        .peerLeft alice], [bob, carol]) := by decide +kernel
  obtain ⟨⟨s, acts⟩, hr, hs⟩ := Option.map_eq_some_iff.mp hrun
  simp only [Prod.mk.injEq] at hs
  exact ⟨s, acts, run_sound hr, hs.1, hs.2⟩

end BasicSyncer

end Syncer
end Bakopa
