import Bakopa.Bloom.Notices
import Bakopa.Syncer.Encoding
import Bakopa.Syncer.Sessions

/-!
# Bakopa.Relay

Signaling from one end to the other: the adapter of the sender, the Bloom server, and the adapter
of the receiver.

The relayed forms carry an SDP or a candidate and nothing else, and the far adapter builds the
message anew from its own context: `carried` is what it can make of it. An ICE candidate arrives
without `sdp_mid` and `sdp_mline_index`.
-/

namespace Bakopa
namespace Syncer

open Lib Bloom

namespace SignalingMessage

/-- What is left of a message on the way. -/
def carried : SignalingMessage → SignalingMessage
  | .ice m => .ice { m with sdpMid := none, sdpMlineIndex := none }
  | m => m

/-- The message is one of the participant's, under the context. -/
def Of (context : SignalingContext) (participantId : String) : SignalingMessage → Prop
  | .offer m => m.roomId = context.roomId ∧ m.participantId = participantId ∧
    m.authToken = context.authToken ∧ m.icePolicy = context.icePolicy
  | .answer m => m.roomId = context.roomId ∧ m.participantId = participantId ∧
    m.authToken = context.authToken
  | .ice m => m.roomId = context.roomId ∧ m.participantId = participantId ∧
    m.authToken = context.authToken

def version : SignalingMessage → UInt32
  | .offer m => m.version
  | .answer m => m.version
  | .ice m => m.version

theorem version_of_validate {m : SignalingMessage} (h : m.validate = .ok ()) : m.version = 1 := by
  cases m with
  | offer m =>
    simp only [validate, SignalingOffer.validate, bind_eq_ok, ensure_eq_ok,
      decide_eq_true_eq] at h
    obtain ⟨_, hversion, -⟩ := h
    exact hversion
  | answer m =>
    simp only [validate, SignalingAnswer.validate, bind_eq_ok, ensure_eq_ok,
      decide_eq_true_eq] at h
    obtain ⟨_, hversion, -⟩ := h
    exact hversion
  | ice m =>
    simp only [validate, SignalingIce.validate, bind_eq_ok, ensure_eq_ok, decide_eq_true_eq] at h
    obtain ⟨_, hversion, -⟩ := h
    exact hversion

theorem validate_carried {m : SignalingMessage} (h : m.validate = .ok ()) :
    m.carried.validate = .ok () := by
  cases m with
  | offer m => exact h
  | answer m => exact h
  | ice m => exact h

end SignalingMessage

namespace BloomSignalingAdapter

section Relay

variable [UuidCrate]

/-- `send_offer`, `send_answer` or `send_ice`. -/
def send (target : ParticipantId) : SignalingMessage → ClientToServer
  | .offer m => sendOffer target m
  | .answer m => sendAnswer target m
  | .ice m => sendIce target m

theorem relayed_send {context : SignalingContext} {p : ParticipantId} (q : ParticipantId)
    {m : SignalingMessage} (hvalid : m.validate = .ok ()) (hof : m.Of context p.toString) :
    ∃ event, WsHandler.relayed p (send q m) = some (q.toString, event) ∧
      signalingOf context event = some m.carried := by
  have hversion := SignalingMessage.version_of_validate hvalid
  cases m with
  | offer m =>
    obtain ⟨version, roomId, participantId, authToken, icePolicy, sdp⟩ := m
    obtain ⟨rfl, rfl, rfl, rfl⟩ := hof
    cases hversion
    exact ⟨_, rfl, rfl⟩
  | answer m =>
    obtain ⟨version, roomId, participantId, authToken, sdp⟩ := m
    obtain ⟨rfl, rfl, rfl⟩ := hof
    cases hversion
    exact ⟨_, rfl, rfl⟩
  | ice m =>
    obtain ⟨version, roomId, participantId, authToken, candidate, sdpMid, sdpMlineIndex⟩ := m
    obtain ⟨rfl, rfl, rfl⟩ := hof
    cases hversion
    exact ⟨_, rfl, rfl⟩

variable [SerdeJson] [LosslessJson]

theorem poll_pushIncoming {b : BloomSignalingAdapter} {event : ServerToClient}
    {m : SignalingMessage} (hinbox : b.inbox = []) (hevent : signalingOf b.context event = some m)
    (hvalid : m.validate = .ok ()) (hfits : m.envelope.Fits) :
    ∃ payload, (b.pushIncoming event).poll.2.payloads = [payload] ∧
      payload.parseSyncMessage = .ok (.signaling m) := by
  have hverdict : verdict b.context event = some (.ok ()) := by
    rw [verdict, hevent, Option.map_some, hvalid]
  have hpayload := payload_of_valid b.activeParticipants hverdict
  rw [hevent, Option.map_some] at hpayload
  refine ⟨forwarded m, ?_, SyncMessage.parse_signaling hvalid hfits⟩
  simp [poll, pollProcessed, pushIncoming, hinbox, processMessages, hpayload]

variable [LawfulUuid] [BloomJson] {ι : Type} [DecidableEq ι] {s₀ s : Handlers ι}
  {as : List (HandlerCall ι)} {os : List (ι × Sent)} {c : ι} {q : ParticipantId} {r : RoomId}

/-- In every state of the server: what a member of the handler's room is sent arrives once, and
all of it arrives but the two fields of a candidate that the protocol does not carry. -/
theorem signaling_delivered {context : SignalingContext} {b : BloomSignalingAdapter}
    {m : SignalingMessage} {now : Nat} (drawn : RoomId) {text : String}
    (h₀ : Handlers.Initial s₀) (hd : Function.Injective s₀.pid)
    (hr : Machine.Runs Handlers.step s₀ as os s) (hroom : s.roomId c = some r)
    (hq : q ∈ s.members r) (hvalid : m.validate = .ok ())
    (hof : m.Of context (s.pid c).toString) (hfits : m.carried.envelope.Fits)
    (hreq : s.Requests c now text (send q m)) (hb : b.context = context) (hinbox : b.inbox = []) :
    ∃ s' event payload, Handlers.step s (.text c now drawn text) =
        some (s', [(c, .sendTo q event)]) ∧
      (b.pushIncoming event).poll.2.payloads = [payload] ∧
      payload.parseSyncMessage = .ok (.signaling m.carried) := by
  have hs : Handlers.Tracked s :=
    hr.invariant (fun _ _ _ _ => Handlers.step_tracked) (h₀.tracked hd)
  obtain ⟨event, hrelayed, hevent⟩ := relayed_send q hvalid hof
  obtain ⟨s', o, failure, hstep, ho⟩ := hs.refusesOnlyOutsiders c now drawn text _ _ _ q r hreq
    hrelayed (ParticipantId.fromStr_toString q) hroom
  rw [if_pos hq] at ho
  subst hb
  obtain ⟨payload, hpayloads, hparse⟩ := poll_pushIncoming hinbox hevent
    (SignalingMessage.validate_carried hvalid) hfits
  exact ⟨s', event, payload, by rw [hstep, ho], hpayloads, hparse⟩

end Relay

section Samples

def devOffer [UuidCrate] : SignalingMessage :=
  .offer ⟨1, "lobby", (ParticipantId.mk 1).toString, "INSECURE_DEV", "default", "v=0"⟩

theorem signaling_delivered_offer :
    let _ := hyphenated
    let _ := Handlers.relayJson
    let _ := JsonText.serdeText
    ∃ s os s' event payload,
      Machine.Runs Handlers.step Handlers.twoClients Handlers.createAndJoin os s ∧
      Handlers.step s (.text true 0 ⟨8⟩ Handlers.offerText) =
        some (s', [(true, .sendTo ⟨2⟩ event)]) ∧
      ((withContext devContext).pushIncoming event).poll.2.payloads = [payload] ∧
      payload.parseSyncMessage = .ok (.signaling devOffer) := by
  intro _ _ _
  have hlawful := hyphenated_lawful
  have hlossless := JsonText.serdeText_lossless
  have hrun : (Machine.run Handlers.step Handlers.twoClients Handlers.createAndJoin).map
      (fun r => (r.1.roomId true, r.1.members ⟨7⟩, r.1.pid true,
        (r.1.handler true).request 0 Handlers.offerText)) =
      some (some ⟨7⟩, [⟨1⟩, ⟨2⟩], ⟨1⟩, some (send ⟨2⟩ devOffer)) := by
    decide +kernel
  obtain ⟨⟨s, os⟩, hr, hstate⟩ := Option.map_eq_some_iff.mp hrun
  simp only [Prod.mk.injEq] at hstate
  obtain ⟨hroom, hmembers, hpid, hreq⟩ := hstate
  have hof : devOffer.Of devContext (s.pid true).toString := by
    rw [hpid]
    exact ⟨rfl, rfl, rfl, rfl⟩
  have hfits : devOffer.carried.envelope.Fits := by decide +kernel
  obtain ⟨s', event, payload, hstep, hpayloads, hparse⟩ :=
    signaling_delivered (m := devOffer) (b := withContext devContext) ⟨8⟩
      Handlers.twoClients_initial Handlers.twoClients_distinct (Machine.run_sound hr) hroom
      (by rw [hmembers]; decide) rfl hof hfits hreq rfl rfl
  exact ⟨s, os, s', event, payload, Machine.run_sound hr, hstep, hpayloads, hparse⟩

def devIce [UuidCrate] : SignalingIce :=
  ⟨1, "lobby", (ParticipantId.mk 1).toString, "INSECURE_DEV", "candidate:1", some "0", some 0⟩

def iceText : String := "\x7b\"type\":\"IceCandidate\",\"to\":" ++
  "\"00000000-0000-0000-0000-000000000002\",\"candidate\":\"candidate:1\"\x7d"

/-- What serde reads of the texts of `taggedJson`, and of `iceText`. -/
@[reducible] def iceJson : BloomJson where
  clientFromStr text :=
    if text = iceText then
      some (.iceCandidate "00000000-0000-0000-0000-000000000002" ⟨"candidate:1"⟩)
    else Handlers.taggedJson.clientFromStr text

/-- A candidate arrives without two of its fields. -/
theorem ice_fields_dropped :
    let _ := hyphenated
    let _ := iceJson
    let _ := JsonText.serdeText
    ∃ s os s' event payload,
      Machine.Runs Handlers.step Handlers.twoClients Handlers.createAndJoin os s ∧
      s.Requests true 0 iceText (sendIce ⟨2⟩ devIce) ∧
      Handlers.step s (.text true 0 ⟨8⟩ iceText) = some (s', [(true, .sendTo ⟨2⟩ event)]) ∧
      ((withContext devContext).pushIncoming event).poll.2.payloads = [payload] ∧
      payload.parseSyncMessage =
        .ok (.signaling (.ice { devIce with sdpMid := none, sdpMlineIndex := none })) ∧
      (SignalingMessage.ice devIce).validate = .ok () ∧
      (SignalingMessage.ice devIce).Of devContext (s.pid true).toString ∧
      (SignalingMessage.ice devIce).envelope.Fits := by
  intro _ _ _
  have hrun : ((Machine.run Handlers.step Handlers.twoClients Handlers.createAndJoin).bind
      fun r => (Handlers.step r.1 (.text true 0 ⟨8⟩ iceText)).map fun r' =>
        ((r.1.handler true).request 0 iceText, r.1.pid true, r'.2)) =
      some (some (sendIce ⟨2⟩ devIce), ⟨1⟩,
        [(true, .sendTo ⟨2⟩ (.iceCandidate (ParticipantId.mk 1).toString ⟨"candidate:1"⟩))]) := by
    decide +kernel
  obtain ⟨⟨s, os⟩, hr, hnext⟩ := Option.bind_eq_some_iff.mp hrun
  obtain ⟨⟨s', o⟩, hstep, hstate⟩ := Option.map_eq_some_iff.mp hnext
  simp only [Prod.mk.injEq] at hstate
  obtain ⟨hreq, hpid, rfl⟩ := hstate
  refine ⟨s, os, s', _, _, Machine.run_sound hr, hreq, hstep, rfl, ?_, rfl, ?_, ?_⟩
  · decide +kernel
  · rw [hpid]
    exact ⟨rfl, rfl, rfl⟩
  · decide +kernel

end Samples

end BloomSignalingAdapter

end Syncer
end Bakopa
