import Bakopa.Bloom.ApiText
import Bakopa.Relay

/-!
# Bakopa.Streams

The stream of signaling messages from one client to another, over a whole run.

`relays` says which request a call of the server relays to `q`: it comes from `c`, it gets past the
limiter and the parser, and the handler's room lists `q`. What the server hands `q` in the name of
`c`'s participant is these requests, one after the other (`heardFrom_run`), and what `q`'s adapter
forwards of them is what each can carry (`signaling_stream`).
-/

namespace Bakopa

open Lib

namespace Bloom

def ServerToClient.sender : ServerToClient → Option String
  | .offer sender _ | .answer sender _ | .iceCandidate sender _ => some sender
  | _ => none

theorem ServerToClient.isRelay_of_sender {m : ServerToClient} {sender : String}
    (h : m.sender = some sender) : m.IsRelay := by
  cases m <;> trivial

theorem WsHandler.sender_relayed [UuidCrate] {p : ParticipantId} {message : ClientToServer}
    {target : String} {event : ServerToClient} (h : relayed p message = some (target, event)) :
    event.sender = some p.toString := by
  cases message <;> cases h <;> rfl

/-- What `q` is handed as coming from `p`. -/
def Sent.heardFrom [UuidCrate] (p q : ParticipantId) : Sent → Option ServerToClient
  | .sendTo target m => if target = q ∧ m.sender = some p.toString then some m else none
  | .reply _ => none

namespace Handlers

section Relays

variable {ι : Type} [DecidableEq ι] [UuidCrate] [BloomJson]

def heardFrom (p q : ParticipantId) (os : List (ι × Sent)) : List ServerToClient :=
  os.filterMap fun x => x.2.heardFrom p q

/-- The call is a request of `c` that gets past the limiter and the parser, it names `q`, and `q` is
in the handler's room. -/
structure Relays (s : Handlers ι) (c : ι) (q : ParticipantId) (a : HandlerCall ι)
    (message : ClientToServer) : Prop where
  conn : a.conn = c
  request : s.requestOf a = some message
  names : ∃ target event, WsHandler.relayed (s.pid c) message = some (target, event) ∧
    ParticipantId.fromStr target = some q
  room : ∃ r, s.roomId c = some r ∧ q ∈ s.members r

def relays (s : Handlers ι) (c : ι) (q : ParticipantId) (a : HandlerCall ι) :
    Option ClientToServer :=
  if a.conn = c then
    (s.requestOf a).filter fun message =>
      match WsHandler.relayed (s.pid c) message, s.roomId c with
      | some (target, _), some r => ParticipantId.fromStr target = some q ∧ q ∈ s.members r
      | _, _ => false
  else none

/-- The requests of `c` that the calls relay to `q`, in order. -/
def relayedTo (c : ι) (q : ParticipantId) : Handlers ι → List (HandlerCall ι) → List ClientToServer
  | _, [] => []
  | s, a :: as =>
    match step s a with
    | none => []
    | some (s', _) => (s.relays c q a).toList ++ relayedTo c q s' as

variable {s s' : Handlers ι} {a : HandlerCall ι} {o : List (ι × Sent)} {c : ι} {q : ParticipantId}
  {message : ClientToServer}

theorem relays_eq_some : s.relays c q a = some message ↔ s.Relays c q a message := by
  unfold relays
  by_cases hc : a.conn = c
  · rw [if_pos hc, Option.filter_eq_some_iff]
    constructor
    · rintro ⟨hreq, hrelay⟩
      cases hrelayed : WsHandler.relayed (s.pid c) message with
      | none =>
        rw [hrelayed] at hrelay
        cases hrelay
      | some x =>
        cases hroom : s.roomId c with
        | none =>
          rw [hrelayed, hroom] at hrelay
          cases hrelay
        | some r =>
          simp only [hrelayed, hroom] at hrelay
          obtain ⟨htarget, hq⟩ := of_decide_eq_true hrelay
          exact ⟨hc, hreq, ⟨x.1, x.2, hrelayed, htarget⟩, r, hroom, hq⟩
    · rintro ⟨-, hreq, ⟨target, event, hrelayed, htarget⟩, r, hroom, hq⟩
      refine ⟨hreq, ?_⟩
      simp only [hrelayed, hroom]
      exact decide_eq_true ⟨htarget, hq⟩
  · rw [if_neg hc]
    exact ⟨fun h => (Option.some_ne_none message h.symm).elim, fun h => absurd h.conn hc⟩

/-- What a step hands `q` in the name of `c`'s participant is what it relays for `c`. -/
theorem heardFrom_step [LawfulUuid] (hs : Tracked s) (c : ι) (q : ParticipantId)
    (h : step s a = some (s', o)) :
    heardFrom (s.pid c) q o = (s.relays c q a).toList.filterMap fun message =>
      (WsHandler.relayed (s.pid c) message).map Prod.snd := by
  cases hrelays : s.relays c q a with
  | some message =>
    obtain ⟨rfl, hreq, ⟨target, event, hrelayed, htarget⟩, r, hroom, hq⟩ :=
      relays_eq_some.mp hrelays
    cases a with
    | text c now drawn text =>
      obtain ⟨s₁, o₁, failure, hstep, ho⟩ := hs.refusesOnlyOutsiders c now drawn text message
        target event q r hreq hrelayed htarget hroom
      rw [h] at hstep
      cases hstep
      rw [ho, if_pos hq]
      simp only [HandlerCall.conn] at hrelayed ⊢
      simp [heardFrom, Sent.heardFrom, hrelayed, WsHandler.sender_relayed hrelayed]
    | binary c => cases hreq
    | abnormalClose c => cases hreq
  | none =>
    obtain ⟨sent, rfl, hnotices⟩ := step_notices hs h
    refine List.filterMap_eq_nil_iff.mpr fun x hx => ?_
    obtain ⟨m, hm, rfl⟩ := List.mem_map.mp hx
    cases m with
    | reply m => rfl
    | sendTo target m =>
      refine if_neg ?_
      rintro ⟨rfl, hsender⟩
      -- it would be a relay, and so one of `c`'s
      obtain ⟨hstay, message, name, r, hreq, hrelayed, hname, hroom, -, hq, -⟩ :=
        (hnotices.sendTo hm).2 (ServerToClient.isRelay_of_sender hsender)
      have hrooms : s'.core.rooms = s.core.rooms := by
        rw [(step_took h).rooms, hstay]
        rfl
      rw [hrooms] at hq
      have hsame : s.pid a.conn = s.pid c := by
        rw [WsHandler.sender_relayed hrelayed, Option.some.injEq] at hsender
        exact ParticipantId.toString_inj.mp hsender
      obtain rfl := hs.distinct hsame
      rw [relays_eq_some.mpr ⟨rfl, hreq, ⟨name, m, hrelayed, hname⟩, r, hroom, hq⟩] at hrelays
      cases hrelays

/-- In every run, what the server hands `q` in the name of `c`'s participant is what it relays for
`c`: nothing lost, made up, repeated or out of order. -/
theorem heardFrom_run [LawfulUuid] {as : List (HandlerCall ι)} {os : List (ι × Sent)}
    (hr : Machine.Runs step s as os s') (hs : Tracked s) (c : ι) (q : ParticipantId) :
    heardFrom (s.pid c) q os = (relayedTo c q s as).filterMap fun message =>
      (WsHandler.relayed (s.pid c) message).map Prod.snd := by
  induction hr with
  | nil => rfl
  | @cons s s₁ s' a as o os ha _ ih =>
    have hrest := ih (step_tracked hs ha)
    rw [(step_took ha).pid] at hrest
    have hhead := heardFrom_step hs c q ha
    unfold heardFrom at hhead hrest ⊢
    rw [List.filterMap_append, hhead, hrest]
    simp only [relayedTo, ha, List.filterMap_append]

end Relays

end Handlers

end Bloom

namespace Syncer

open Lib.Machine Bloom

namespace BloomSignalingAdapter

def pushed : List Call → List ServerToClient
  | [] => []
  | .pushIncoming message :: calls => message :: pushed calls
  | .poll :: calls => pushed calls

section Receiver

variable [UuidCrate] [SerdeJson]

def saidBy (p : ParticipantId) (messages : List ServerToClient) : List ServerToClient :=
  messages.filter fun m => m.sender = some p.toString

/-- The message that a message of the server is forwarded as. -/
def rebuilt (context : SignalingContext) (message : ServerToClient) : Option SignalingMessage :=
  (signalingOf context message).filter fun m => m.validate.isOk

omit [UuidCrate] [SerdeJson] in
theorem validate_rebuilt {context : SignalingContext} {message : ServerToClient}
    {m : SignalingMessage} (h : rebuilt context message = some m) : m.validate = .ok () := by
  have hok := (Option.filter_eq_some_iff.mp h).2
  cases hv : m.validate with
  | ok u => rfl
  | error e =>
    rw [hv] at hok
    cases hok

def payloadsFrom (p : ParticipantId) (os : List Processed) : List TransportPayload :=
  (os.filter fun x => x.message.sender = some p.toString).filterMap Processed.payload

variable {context : SignalingContext} {active active' : Finset ParticipantId}
  {messages : List ServerToClient} {os : List Processed} {p : ParticipantId}

theorem polled_append_inbox {a a' : BloomSignalingAdapter} {calls : List Call}
    (h : Runs step a calls os a') : polled a.inbox calls ++ a'.inbox = a.inbox ++ pushed calls := by
  induction h with
  | nil => simp [polled, pushed]
  | @cons a a₁ a' call calls o os ha _ ih =>
    cases call with
    | pushIncoming message =>
      cases ha
      simpa [polled, pushed, pushIncoming] using ih
    | poll =>
      cases ha
      simpa [polled, pushed, pollProcessed] using ih

theorem payload_eq (active : Finset ParticipantId) (message : ServerToClient) :
    (shapeIncoming context active message).2.payload =
      (rebuilt context message).map forwarded := by
  unfold rebuilt
  cases ho : offerer message with
  | none =>
    rw [shapeIncoming_other ho, verdict]
    cases hm : signalingOf context message with
    | none => rfl
    | some m => cases hv : m.validate <;> simp [Option.filter, hv, Except.isOk, Except.toBool]
  | some q =>
    obtain ⟨m, hm⟩ : ∃ m, signalingOf context message = some m := by
      cases message with
      | offer sender payload => exact ⟨_, rfl⟩
      | _ => cases ho
    cases hv : m.validate with
    | ok u =>
      rw [shapeIncoming_offer_ok ho (by rw [verdict, hm, Option.map_some, hv])]
      simp [hm, Option.filter, hv, Except.isOk, Except.toBool]
    | error e =>
      rw [shapeIncoming_offer_error ho (by rw [verdict, hm, Option.map_some, hv])]
      simp [hm, Option.filter, hv, Except.isOk, Except.toBool]

theorem payloadsFrom_eq (h : Runs (processing context) active messages os active') :
    payloadsFrom p os = (saidBy p messages).filterMap fun m => (rebuilt context m).map forwarded := by
  induction h with
  | nil => rfl
  | @cons active active₁ active' message messages o os ha _ ih =>
    obtain ⟨x, rfl, hmessage, hpayload⟩ : ∃ x, o = [x] ∧ x.message = message ∧
        x.payload = (rebuilt context message).map forwarded := by
      simp only [processing, Option.some.injEq, Prod.mk.injEq] at ha
      exact ⟨_, ha.2.symm, rfl, payload_eq active message⟩
    subst hmessage
    unfold payloadsFrom saidBy at ih ⊢
    rw [List.singleton_append]
    by_cases hfrom : x.message.sender = some p.toString
    · simp only [List.filter_cons, hfrom, decide_true, if_true, List.filterMap_cons, hpayload, ih]
    · simp only [List.filter_cons, hfrom, decide_false, Bool.false_eq_true, if_false, ih]

end Receiver

section Streams

variable [UuidCrate] [BloomJson] {ι : Type} [DecidableEq ι]

/-- What a request of `p` that is relayed becomes at the far adapter. -/
def arrived (context : SignalingContext) (p : ParticipantId) (message : ClientToServer) :
    Option SignalingMessage :=
  (WsHandler.relayed p message).bind fun x => rebuilt context x.2

variable {s s₀ : Handlers ι} {as : List (HandlerCall ι)} {os : List (ι × Sent)} {c : ι}
  {p q : ParticipantId} {context : SignalingContext}

omit [BloomJson] in
theorem arrived_send {m : SignalingMessage} (hvalid : m.validate = .ok ())
    (hof : m.Of context p.toString) : arrived context p (send q m) = some m.carried := by
  obtain ⟨event, hrelayed, hevent⟩ := relayed_send q hvalid hof
  have hcarried := SignalingMessage.validate_carried hvalid
  simp [arrived, hrelayed, rebuilt, hevent, Option.filter, hcarried, Except.isOk, Except.toBool]

variable [LawfulUuid] [SerdeJson]

theorem heardFrom_forwarded (h₀ : Handlers.Initial s₀) (hd : Function.Injective s₀.pid)
    (hr : Runs Handlers.step s₀ as os s) (context : SignalingContext) :
    (Handlers.heardFrom (s₀.pid c) q os).filterMap (fun m => (rebuilt context m).map forwarded) =
      ((Handlers.relayedTo c q s₀ as).filterMap (arrived context (s₀.pid c))).map forwarded := by
  rw [Handlers.heardFrom_run hr (h₀.tracked hd) c q, List.filterMap_filterMap, List.map_filterMap]
  refine List.filterMap_congr fun message _ => ?_
  simp only [arrived]
  cases WsHandler.relayed (s₀.pid c) message <;> rfl

/-- In every run of the server and of `q`'s adapter, whatever the clients send. What the adapter
forwards in the name of `c`'s participant stands for requests of `c` that the server relayed to `q`,
each at most once, if it is given what the server handed out; in the order they came, if it is given
this in order; and for all of them that are valid, once all has been delivered and polled. What an
adapter of `c` sends arrives as far as the protocol carries it. -/
theorem signaling_stream {calls : List Call} {ps : List Processed} {b : BloomSignalingAdapter}
    (h₀ : Handlers.Initial s₀) (hd : Function.Injective s₀.pid)
    (hr : Runs Handlers.step s₀ as os s) (hb : Runs step (withContext context) calls ps b) :
    let given := saidBy (s₀.pid c) (pushed calls)
    let heard := Handlers.heardFrom (s₀.pid c) q os
    let sent := (Handlers.relayedTo c q s₀ as).filterMap (arrived context (s₀.pid c))
    let got := payloadsFrom (s₀.pid c) ps
    (given.Subperm heard → got.Subperm (sent.map forwarded)) ∧
    (given <+: heard → got <+: sent.map forwarded) ∧
    (b.inbox = [] → (given.Perm heard → got.Perm (sent.map forwarded)) ∧
      (given = heard → got = sent.map forwarded)) ∧
    (∀ m ∈ sent, m.validate = .ok ()) ∧
    ∀ m : SignalingMessage, m.validate = .ok () → m.Of context (s₀.pid c).toString →
      arrived context (s₀.pid c) (send q m) = some m.carried := by
  intro given heard sent got
  have hsent := heardFrom_forwarded (c := c) (q := q) h₀ hd hr context
  have hqueue : saidBy (s₀.pid c) (polled [] calls) ++ saidBy (s₀.pid c) b.inbox = given := by
    have hsplit : polled [] calls ++ b.inbox = [] ++ pushed calls := polled_append_inbox hb
    unfold saidBy given
    rw [← List.filter_append, hsplit, List.nil_append]
    rfl
  have hpolled : saidBy (s₀.pid c) (polled [] calls) <+: given := ⟨_, hqueue⟩
  have hproc : Runs (processing context) ∅ (polled [] calls) ps b.activeParticipants :=
    runs_processing hb
  have hgot : got = (saidBy (s₀.pid c) (polled [] calls)).filterMap
      fun m => (rebuilt context m).map forwarded := payloadsFrom_eq hproc
  refine ⟨fun hsub => ?_, fun hpre => ?_, fun hempty => ?_, fun m hm => ?_,
    fun m hvalid hof => arrived_send hvalid hof⟩
  · obtain ⟨l, hperm, hl⟩ := hpolled.sublist.subperm.trans hsub
    rw [hgot, ← hsent]
    exact ⟨_, hperm.filterMap _, hl.filterMap _⟩
  · rw [hgot, ← hsent]
    exact (hpolled.trans hpre).filterMap _
  · have hall : saidBy (s₀.pid c) (polled [] calls) = given := by
      rw [← hqueue, hempty]
      exact (List.append_nil _).symm
    rw [hgot, hall, ← hsent]
    exact ⟨fun hperm => hperm.filterMap _, fun heq => congrArg _ heq⟩
  · obtain ⟨message, -, hmessage⟩ := List.mem_filterMap.mp hm
    obtain ⟨x, -, hx⟩ := Option.bind_eq_some_iff.mp hmessage
    exact validate_rebuilt hx

end Streams

section Samples

/-- An offer without an SDP, which `send_offer` sends like any other. -/
def emptyOffer [UuidCrate] : SignalingMessage :=
  .offer ⟨1, "lobby", (ParticipantId.mk 1).toString, "INSECURE_DEV", "default", ""⟩

/-- A client creates a room, another joins it and is sent two offers; each text as it is written. -/
def twoOffers [UuidCrate] [SerdeContent] : List (HandlerCall Bool) :=
  [.text true 0 ⟨7⟩ ClientToServer.createRoom.toText,
    .text false 0 ⟨8⟩ (ClientToServer.joinRoom (RoomId.mk 7).toString).toText,
    .text true 0 ⟨8⟩ (send ⟨2⟩ emptyOffer).toText,
    .text true 0 ⟨8⟩ (send ⟨2⟩ devOffer).toText]

def twoOffersPolled [UuidCrate] : List Call :=
  [.pushIncoming (.offer (ParticipantId.mk 1).toString ⟨""⟩), .poll,
    .pushIncoming (.offer (ParticipantId.mk 1).toString ⟨"v=0"⟩), .poll]

theorem signaling_stream_two_offers :
    let _ := hyphenated
    let _ := PlainText.compactContent
    let _ := contentJson
    let _ := JsonText.serdeText
    ∃ s os b ps, Runs Handlers.step Handlers.twoClients twoOffers os s ∧
      Runs step (withContext devContext) twoOffersPolled ps b ∧
      Handlers.relayedTo true ⟨2⟩ Handlers.twoClients twoOffers =
        [send ⟨2⟩ emptyOffer, send ⟨2⟩ devOffer] ∧
      payloadsFrom ⟨1⟩ ps = [forwarded devOffer] := by
  intro _ _ _ _
  have hlawful := hyphenated_lawful
  have hrun : (run Handlers.step Handlers.twoClients twoOffers).map
      (fun r => Handlers.heardFrom ⟨1⟩ ⟨2⟩ r.2) = some (pushed twoOffersPolled) := by
    decide +kernel
  obtain ⟨⟨s, os⟩, hr, hheard⟩ := Option.map_eq_some_iff.mp hrun
  have hpolled : (run step (withContext devContext) twoOffersPolled).map (fun r => r.1.inbox) =
      some [] := by
    decide +kernel
  obtain ⟨⟨b, ps⟩, hb, hempty⟩ := Option.map_eq_some_iff.mp hpolled
  have hrelayed : Handlers.relayedTo true ⟨2⟩ Handlers.twoClients twoOffers =
      [send ⟨2⟩ emptyOffer, send ⟨2⟩ devOffer] := by
    decide +kernel
  have hgiven : saidBy ⟨1⟩ (pushed twoOffersPolled) = Handlers.heardFrom ⟨1⟩ ⟨2⟩ os := by
    simp only at hheard
    rw [hheard]
    rfl
  have hsent : [send ⟨2⟩ emptyOffer, send ⟨2⟩ devOffer].filterMap (arrived devContext ⟨1⟩) =
      [devOffer] := rfl
  have hstream := signaling_stream (c := true) (q := ⟨2⟩) Handlers.twoClients_initial
    Handlers.twoClients_distinct (run_sound hr) (run_sound hb)
  refine ⟨s, os, b, ps, run_sound hr, run_sound hb, hrelayed, ?_⟩
  have hall := (hstream.2.2.1 hempty).2 hgiven
  rw [hrelayed] at hall
  exact hall

end Samples

end BloomSignalingAdapter

end Syncer
end Bakopa
