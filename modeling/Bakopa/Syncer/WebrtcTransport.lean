import Bakopa.Syncer.Api

/-!
# Bakopa.Syncer.WebrtcTransport

The in-process `WebrtcTransport` of `syncer/src/webrtc_transport.rs`: two ends that share a bus.

An end carries the contents of the bus it looks at; what both see is one cell, which is kept in
step where the two ends run (`Bakopa.Syncer.Pair`). `poll_eq` is the loop of `poll`, that removes
while it walks, as one split of the bus.
-/

namespace Bakopa
namespace Syncer

structure BusMessage where
  target : ParticipantId
  fromId : ParticipantId
  payload : TransportPayload
deriving DecidableEq

structure WebrtcTransport where
  me : ParticipantId
  peer : ParticipantId
  bus : List BusMessage
  registered : Bool
  sentParams : List TransportSendParams
  pending : List TransportEvent
  injectFailureOnce : Bool

namespace WebrtcTransport

def new (me peer : ParticipantId) (bus : List BusMessage) (injectFailureOnce : Bool) :
    WebrtcTransport :=
  ⟨me, peer, bus, false, [], [], injectFailureOnce⟩

def pairWithOptions (a b : ParticipantId) (injectA injectB : Bool) :
    WebrtcTransport × WebrtcTransport :=
  (new a b [] injectA, new b a [] injectB)

def pair (a b : ParticipantId) : WebrtcTransport × WebrtcTransport :=
  pairWithOptions a b false false

def registerParticipant (t : WebrtcTransport) (participant : ParticipantId) : WebrtcTransport :=
  if participant = t.me then { t with registered := true } else t

def isControl [SerdeJson] : TransportPayload → Bool
  | .bytes data =>
    match SyncMessageEnvelope.fromSlice data with
    | .ok env => env.kind = .controlJoin ∨ env.kind = .controlLeave
    | .error _ => false
  | .audioFrame _ => false

def send [SerdeJson] (t : WebrtcTransport) (_target : ParticipantId) (payload : TransportPayload)
    (params : TransportSendParams) : WebrtcTransport :=
  if t.registered then
    let t := { t with sentParams := t.sentParams ++ [params] }
    let t :=
      if t.injectFailureOnce ∧ ¬ isControl payload then
        { t with pending := t.pending ++ [.failure t.peer], injectFailureOnce := false }
      else t
    { t with bus := t.bus ++ [⟨t.peer, t.me, payload⟩] }
  else t

/-- The `while` loop of `poll`; every pass takes one message off the bus or one step. -/
def pollLoop (me : ParticipantId) :
    Nat → List BusMessage → Nat → List TransportEvent → List BusMessage × List TransportEvent
  | 0, messages, _, out => (messages, out)
  | fuel + 1, messages, i, out =>
    if h : i < messages.length then
      let m := messages.get ⟨i, h⟩
      if m.target = me then
        pollLoop me fuel (messages.eraseIdx i) i (out ++ [.received m.fromId m.payload])
      else pollLoop me fuel messages (i + 1) out
    else (messages, out)

def poll (t : WebrtcTransport) : WebrtcTransport × List TransportEvent :=
  if t.registered then
    let (bus, out) := pollLoop t.me t.bus.length t.bus 0 t.pending
    ({ t with pending := [], bus }, out)
  else (t, [])

instance [SerdeJson] : Transport WebrtcTransport where
  registerParticipant := registerParticipant
  send := send
  poll := poll

def receivedOf (m : BusMessage) : TransportEvent := .received m.fromId m.payload

/-- What the loop has passed stays; what is left is split by its target. -/
theorem pollLoop_eq (me : ParticipantId) (fuel : Nat) (messages : List BusMessage) (i : Nat)
    (out : List TransportEvent) (hfuel : messages.length ≤ i + fuel) :
    pollLoop me fuel messages i out =
      (messages.take i ++ (messages.drop i).filter (·.target ≠ me),
        out ++ ((messages.drop i).filter (·.target = me)).map receivedOf) := by
  fun_induction pollLoop me fuel messages i out with
  | case1 messages i out =>
    have hle : messages.length ≤ i := hfuel
    simp [List.drop_eq_nil_of_le hle, List.take_of_length_le hle]
  | case2 fuel messages i out h m hm ih =>
    have hdrop : messages.drop i = m :: messages.drop (i + 1) := List.drop_eq_getElem_cons h
    have hlen : (messages.take i).length = i := by
      rw [List.length_take]
      omega
    have htake' : (messages.eraseIdx i).take i = messages.take i := by
      rw [List.eraseIdx_eq_take_drop_succ, List.take_left' hlen]
    have hdrop' : (messages.eraseIdx i).drop i = messages.drop (i + 1) := by
      rw [List.eraseIdx_eq_take_drop_succ, List.drop_left' hlen]
    have hfuel' : (messages.eraseIdx i).length ≤ i + fuel := by
      rw [List.length_eraseIdx_of_lt h]
      omega
    rw [ih hfuel', htake', hdrop', hdrop]
    simp [hm, receivedOf]
  | case3 fuel messages i out h m hm ih =>
    have hdrop : messages.drop i = m :: messages.drop (i + 1) := List.drop_eq_getElem_cons h
    have htake : messages.take (i + 1) = messages.take i ++ [m] :=
      List.take_succ_eq_append_getElem h
    rw [ih (by omega), htake, hdrop]
    simp [hm]
  | case4 fuel messages i out h =>
    have hle := Nat.le_of_not_lt h
    simp [List.drop_eq_nil_of_le hle, List.take_of_length_le hle]

theorem poll_eq {t : WebrtcTransport} (h : t.registered = true) :
    t.poll =
      ({ t with pending := [], bus := t.bus.filter (·.target ≠ t.me) },
        t.pending ++ (t.bus.filter (·.target = t.me)).map receivedOf) := by
  simp only [poll, h, if_true, pollLoop_eq t.me t.bus.length t.bus 0 t.pending (by omega),
    List.take_zero, List.drop_zero, List.nil_append]

theorem send_eq [SerdeJson] {t : WebrtcTransport} (h : t.registered = true)
    (hinject : t.injectFailureOnce = false) (target : ParticipantId) (payload : TransportPayload)
    (params : TransportSendParams) :
    t.send target payload params =
      { t with
        sentParams := t.sentParams ++ [params]
        bus := t.bus ++ [⟨t.peer, t.me, payload⟩] } := by
  simp only [send, h, if_true, hinject, Bool.false_eq_true, false_and, if_false]

end WebrtcTransport

end Syncer
end Bakopa
