import Bakopa.Lib.Machine
import Bakopa.Bloom.Handler

/-!
# Bakopa.Bloom.Handlers

Any number of connections, each with its own `WsHandler`, over one shared `RealCore`. A step is one
whole call of a handler: the core's mutex is held only inside a core call, but the handlers of two
connections interleave at the granularity of a message.

* `Tracked`  — a handler's `room_id` is never stale: the room exists and lists the participant.
* `Settled`  — the converse: whoever is listed in a room has that room as its `room_id`.
* `Abandons` — the requests that break `Settled`: a `CreateRoom`, or a `JoinRoom` of another room
  that is let in, while the handler has a room. The room it had keeps the participant.
-/

namespace Bakopa
namespace Bloom

open Lib

structure Handlers (ι : Type) where
  core : RealCore
  handler : ι → WsHandler

inductive HandlerCall (ι : Type) where
  /-- `handle_text_message`; `now` is the reading of the clock, `drawn` what `RoomId::new` gives. -/
  | text (c : ι) (now : Nat) (drawn : RoomId) (text : String)
  /-- The binary-frame arm of `process_messages`. -/
  | binary (c : ι)
  /-- `handle_abnormal_close` -/
  | abnormalClose (c : ι)
deriving DecidableEq

def HandlerCall.conn {ι : Type} : HandlerCall ι → ι
  | .text c _ _ _ => c
  | .binary c => c
  | .abnormalClose c => c

namespace Handlers

variable {ι : Type}

def pid (s : Handlers ι) (c : ι) : ParticipantId := (s.handler c).participantId

def roomId (s : Handlers ι) (c : ι) : Option RoomId := (s.handler c).roomId

def members (s : Handlers ι) (r : RoomId) : List ParticipantId := s.core.rooms.members r

/-- A fresh core, and handlers as `WsHandler::new` or `with_rate_limiter` makes them. -/
structure Initial (s : Handlers ι) : Prop where
  core : s.core = .new
  outside : ∀ c, s.roomId c = none

section Step

variable [DecidableEq ι]

def put (s : Handlers ι) (c : ι) (handled : Handled) : Handlers ι × List (ι × Sent) :=
  (⟨handled.core, Function.update s.handler c handled.handler⟩,
    handled.sent.map fun m => (c, m))

variable [UuidCrate] [BloomJson]

/-- `RoomId::new` never repeats: a `CreateRoom` that draws the id of an existing room is not a
step. -/
def step : Machine (Handlers ι) (HandlerCall ι) (ι × Sent)
  | s, .text c now drawn text =>
    if (s.handler c).request now text = some .createRoom ∧
        (s.core.rooms.participants drawn).isSome then none
    else some (s.put c ((s.handler c).handleTextMessage s.core now drawn text))
  | s, .binary c => some (s.put c ⟨s.core, (s.handler c).handleBinary, []⟩)
  | s, .abnormalClose c => some (s.put c ((s.handler c).handleAbnormalClose s.core))

def moveAt (s : Handlers ι) : HandlerCall ι → Move
  | .text c now drawn text =>
    (s.handler c).moveOf s.core.rooms drawn ((s.handler c).request now text)
  | .binary _ => .forget
  | .abnormalClose c => (s.handler c).closeMove

end Step

/-- `c` makes the move `mv`, and nothing else changes. -/
structure Took (s s' : Handlers ι) (c : ι) (mv : Move) : Prop where
  enabled : mv.Enabled (s.pid c) s.core.rooms (s.roomId c)
  rooms : s'.core.rooms = (mv.apply (s.pid c) s.core.rooms (s.roomId c)).1
  room : s'.roomId c = (mv.apply (s.pid c) s.core.rooms (s.roomId c)).2
  pid : s'.pid = s.pid
  others : ∀ c', c' ≠ c → s'.roomId c' = s.roomId c'

variable {s s' : Handlers ι} {a : HandlerCall ι} {o : List (ι × Sent)} {c c' : ι} {mv : Move}
  {r : RoomId}

theorem put_took [DecidableEq ι] {handled : Handled}
    (he : mv.Enabled (s.pid c) s.core.rooms (s.roomId c))
    (hm : (handled.core.rooms, handled.handler.roomId) =
      mv.apply (s.pid c) s.core.rooms (s.roomId c) ∧ handled.handler.participantId = s.pid c) :
    Took s (s.put c handled).1 c mv where
  enabled := he
  rooms := congrArg Prod.fst hm.1
  room := by
    have h := congrArg Prod.snd hm.1
    simpa [put, Handlers.roomId] using h
  pid := by
    funext c'
    by_cases hc : c' = c
    · subst hc; simpa [put, Handlers.pid] using hm.2
    · simp [put, Handlers.pid, hc]
  others := by
    intro c' hc
    simp [put, Handlers.roomId, hc]

theorem step_took [DecidableEq ι] [UuidCrate] [BloomJson] (h : step s a = some (s', o)) :
    Took s s' a.conn (s.moveAt a) := by
  cases a with
  | text c now drawn text =>
    simp only [step] at h
    split at h
    · cases h
    · rename_i hfresh
      cases h
      refine put_took (WsHandler.moveOf_enabled ?_) (WsHandler.handleTextMessage_move ..)
      intro hreq
      rw [hreq] at hfresh
      simpa using hfresh
  | binary c =>
    simp only [step] at h
    cases h
    exact put_took trivial ⟨rfl, rfl⟩
  | abnormalClose c =>
    simp only [step] at h
    cases h
    exact put_took (WsHandler.closeMove_enabled s.core (s.handler c))
      (WsHandler.handleAbnormalClose_move ..)

theorem step_conn [DecidableEq ι] [UuidCrate] [BloomJson] (h : step s a = some (s', o)) :
    ∀ x ∈ o, x.1 = a.conn := by
  have hput : ∀ (handled : Handled), ∀ x ∈ (s.put a.conn handled).2, x.1 = a.conn := by
    intro handled x hx
    obtain ⟨m, -, rfl⟩ := List.mem_map.mp hx
    rfl
  cases a with
  | text c now drawn text =>
    simp only [step] at h
    split at h
    · cases h
    · cases h; exact hput _
  | binary c =>
    cases h
    intro x hx
    cases hx
  | abnormalClose c => cases h; exact hput _

theorem step_handler_other [DecidableEq ι] [UuidCrate] [BloomJson]
    (h : step s a = some (s', o)) (hc : c ≠ a.conn) : s'.handler c = s.handler c := by
  have hput : ∀ (handled : Handled), (s.put a.conn handled).1.handler c = s.handler c := by
    intro handled
    simp [put, hc]
  cases a with
  | text c' now drawn text =>
    simp only [step] at h
    split at h
    · cases h
    · cases h; exact hput _
  | binary c' => cases h; exact hput _
  | abnormalClose c' => cases h; exact hput _

theorem Took.mem_own (h : Took s s' c mv) :
    s'.pid c ∈ s'.members r ↔ mv.Lists r (s.pid c ∈ s.members r) := by
  rw [h.pid, members, h.rooms]
  exact Move.mem_members_own h.enabled

theorem Took.mem_other {q : ParticipantId} (h : Took s s' c mv) (hq : q ≠ s.pid c) :
    q ∈ s'.members r ↔ q ∈ s.members r := by
  rw [members, h.rooms]
  exact Move.mem_members_other h.enabled hq

/-! ## The room id of a handler is never stale -/

structure Tracked (s : Handlers ι) : Prop where
  distinct : Function.Injective s.pid
  held : ∀ c r, s.roomId c = some r → s.pid c ∈ s.members r
  /-- Only participants of connections are listed. -/
  known : ∀ q r, q ∈ s.members r → ∃ c, s.pid c = q
  inhabited : ∀ r, s.core.rooms.participants r ≠ some []

theorem Initial.members (h : Initial s) (r : RoomId) : s.members r = [] := by
  simp [Handlers.members, h.core, RealCore.new, RoomManager.members]

theorem Initial.tracked (h : Initial s) (hd : Function.Injective s.pid) : Tracked s where
  distinct := hd
  held := by
    intro c r hr
    rw [h.outside c] at hr
    cases hr
  known := by
    intro q r hq
    rw [h.members r] at hq
    cases hq
  inhabited := by
    intro r
    simp [h.core, RealCore.new]

theorem Took.held_own (h : Took s s' c mv) (hs : Tracked s) (hr : s'.roomId c = some r) :
    s'.pid c ∈ s'.members r := by
  rw [h.mem_own]
  rw [h.room] at hr
  cases mv with
  | create drawn => cases hr; exact .inl rfl
  | join r' => cases hr; exact .inl rfl
  | leave r' => cases hr
  | forget => cases hr
  | stay => exact hs.held c r hr

theorem Took.tracked (h : Took s s' c mv) (hs : Tracked s) : Tracked s' where
  distinct := by rw [h.pid]; exact hs.distinct
  held := by
    intro c' r hr
    by_cases hc : c' = c
    · subst hc; exact h.held_own hs hr
    · rw [h.others c' hc] at hr
      have hne : s.pid c' ≠ s.pid c := fun heq => hc (hs.distinct heq)
      rw [h.pid, h.mem_other hne]
      exact hs.held c' r hr
  known := by
    intro q r hq
    rw [h.pid]
    by_cases hqc : q = s.pid c
    · exact ⟨c, hqc.symm⟩
    · exact hs.known q r ((h.mem_other hqc).mp hq)
  inhabited := by
    intro r
    rw [h.rooms]
    exact Move.participants_ne_nil h.enabled hs.inhabited

theorem step_tracked [DecidableEq ι] [UuidCrate] [BloomJson] (hs : Tracked s)
    (h : step s a = some (s', o)) : Tracked s' :=
  (step_took h).tracked hs

/-! ## What a client is answered -/

section Answers

variable [DecidableEq ι] [UuidCrate] [BloomJson]

/-- A text message that its connection's handler takes as `message`. -/
def Requests (s : Handlers ι) (c : ι) (now : Nat) (text : String) (message : ClientToServer) :
    Prop :=
  (s.handler c).request now text = some message

theorem text_handled {now : Nat} (drawn : RoomId) {text : String} {message : ClientToServer}
    (hreq : s.Requests c now text message) (hne : message ≠ .createRoom) :
    ∃ limiter, step s (.text c now drawn text) =
      some (s.put c (WsHandler.handleMessage s.core
        { s.handler c with rateLimiter := limiter } drawn message)) := by
  obtain ⟨limiter, ⟨hnone, -⟩ | ⟨m, hm, hh⟩⟩ :=
    WsHandler.handleTextMessage_request s.core (s.handler c) now drawn text
  · rw [Requests, hnone] at hreq
    cases hreq
  · rw [Requests, hm] at hreq
    cases hreq
    refine ⟨limiter, ?_⟩
    have hstep : ¬ ((s.handler c).request now text = some .createRoom ∧
        (s.core.rooms.participants drawn).isSome) := by
      rintro ⟨hc, -⟩
      rw [hm] at hc
      cases hc
      exact hne rfl
    simp only [step, if_neg hstep, hh]

theorem step_not_internal (hs : Tracked s) (h : step s a = some (s', o)) :
    ∀ x ∈ o, ∀ text, x.2 ≠ sendError .internal text := by
  have hput : ∀ (c : ι) (handled : Handled),
      (∀ text, sendError .internal text ∉ handled.sent) → s.put c handled = (s', o) →
      ∀ x ∈ o, ∀ text, x.2 ≠ sendError .internal text := by
    intro c handled hsent heq x hx text he
    cases heq
    obtain ⟨m, hm, rfl⟩ := List.mem_map.mp hx
    exact hsent text (he ▸ hm)
  cases a with
  | text c now drawn text =>
    simp only [step] at h
    split at h
    · cases h
    · refine hput c _ ?_ (Option.some.inj h)
      intro msg
      obtain ⟨limiter, ⟨-, code, message, hh, hcode⟩ | ⟨message, -, hh⟩⟩ :=
        WsHandler.handleTextMessage_request s.core (s.handler c) now drawn text
      · rw [hh]
        simp only [List.mem_singleton, sendError, Sent.reply.injEq, ServerToClient.error.injEq]
        exact fun hmsg => hcode hmsg.1.symm
      · rw [hh]
        exact WsHandler.handleMessage_not_internal message msg (hs.held c)
  | binary c => exact hput c _ (fun _ => List.not_mem_nil) (Option.some.inj h)
  | abnormalClose c =>
    refine hput c _ ?_ (Option.some.inj h)
    intro msg
    simp only [WsHandler.handleAbnormalClose]
    split
    · exact List.not_mem_nil
    · simp only []
      split
      · simp [WsHandler.broadcastLeft, WsHandler.internal_not_mem_sendAll]
      · exact List.not_mem_nil

/-- A leave that gets to the handler while it has a room takes the participant out of it. -/
def LeavesSucceed (s : Handlers ι) : Prop :=
  ∀ c now drawn text r, s.Requests c now text .leaveRoom → s.roomId c = some r →
    ∃ s' o, step s (.text c now drawn text) = some (s', o) ∧
      s'.roomId c = none ∧ s.pid c ∉ s'.members r ∧
      o = (WsHandler.broadcastLeft (s.pid c) r
        ((s.members r).filter (· ≠ s.pid c))).map fun m => (c, m)

/-- A relay that gets to the handler while it has a room and names a well-formed target is
refused only when the target is not in that room. -/
def RefusesOnlyOutsiders (s : Handlers ι) : Prop :=
  ∀ c now drawn text message target event t r, s.Requests c now text message →
    WsHandler.relayed (s.pid c) message = some (target, event) →
    ParticipantId.fromStr target = some t → s.roomId c = some r →
    ∃ s' o failure, step s (.text c now drawn text) = some (s', o) ∧
      o = if t ∈ s.members r then [(c, .sendTo t event)]
        else [(c, sendError .participantNotFound failure)]

theorem Tracked.leavesSucceed (hs : Tracked s) : LeavesSucceed s := by
  intro c now drawn text r hreq hr
  have hp : s.pid c ∈ s.members r := hs.held c r hr
  obtain ⟨limiter, hstep⟩ := text_handled drawn hreq (by decide)
  refine ⟨_, _, hstep, ?_⟩
  have hleave : WsHandler.handleMessage s.core
      { s.handler c with rateLimiter := limiter } drawn .leaveRoom = _ :=
    WsHandler.handleLeaveRoom_listed hr hp
  rw [hleave]
  refine ⟨by simp [Handlers.roomId], ?_, rfl⟩
  simp [members, pid, RoomManager.members_leaveRoom]

theorem Tracked.refusesOnlyOutsiders (hs : Tracked s) : RefusesOnlyOutsiders s := by
  intro c now drawn text message target event t r hreq hm ht hr
  have hp : s.pid c ∈ s.members r := hs.held c r hr
  have hne : message ≠ .createRoom := by
    rintro rfl
    cases hm
  obtain ⟨limiter, hstep⟩ := text_handled drawn hreq hne
  obtain ⟨failure, hsent⟩ := WsHandler.handleMessage_relayed
    (h := { s.handler c with rateLimiter := limiter }) drawn hm hr hp ht
  refine ⟨_, _, failure, hstep, ?_⟩
  rw [hsent]
  by_cases hin : t ∈ s.members r
  · have hin' : t ∈ s.core.rooms.members r := hin
    rw [if_pos hin, if_pos hin']; rfl
  · have hin' : t ∉ s.core.rooms.members r := hin
    rw [if_neg hin, if_neg hin']; rfl

end Answers

section Runs

variable [DecidableEq ι] [UuidCrate] [BloomJson]

/-- In every run the rooms of the handlers exist and list them; so no request is answered with an
internal error, leaves succeed, and relays are refused only for a target outside the room. -/
theorem room_ids_never_stale {s₀ s : Handlers ι} {as : List (HandlerCall ι)}
    {os : List (ι × Sent)} (h₀ : Initial s₀) (hd : Function.Injective s₀.pid)
    (hr : Machine.Runs step s₀ as os s) :
    (∀ c r, s.roomId c = some r → ∃ l, s.core.rooms.participants r = some l ∧ s.pid c ∈ l) ∧
    (∀ c text, (c, sendError .internal text) ∉ os) ∧
    LeavesSucceed s ∧ RefusesOnlyOutsiders s := by
  have hstep : ∀ (s : Handlers ι) a s' o, Tracked s → step s a = some (s', o) → Tracked s' :=
    fun _ _ _ _ => step_tracked
  have hs : Tracked s := hr.invariant hstep (h₀.tracked hd)
  refine ⟨?_, ?_, hs.leavesSucceed, hs.refusesOnlyOutsiders⟩
  · intro c r hroom
    exact RoomManager.exists_of_mem_members (hs.held c r hroom)
  · intro c text hmem
    exact hr.outputs hstep (fun _ _ _ _ => step_not_internal) (h₀.tracked hd) _ hmem text rfl

end Runs

section Samples

/-- Texts as the clients send them, and what serde reads. -/
def createRoomText : String := "\x7b\"type\":\"CreateRoom\"\x7d"

def leaveRoomText : String := "\x7b\"type\":\"LeaveRoom\"\x7d"

def joinRoomText : String :=
  "\x7b\"type\":\"JoinRoom\",\"room_id\":\"00000000-0000-0000-0000-000000000007\"\x7d"

@[reducible] def taggedJson : BloomJson where
  clientFromStr text :=
    if text = createRoomText then some .createRoom
    else if text = leaveRoomText then some .leaveRoom
    else if text = joinRoomText then some (.joinRoom "00000000-0000-0000-0000-000000000007")
    else none

def twoClients : Handlers Bool where
  core := .new
  handler c := WsHandler.new ⟨if c then ⟨1⟩ else ⟨2⟩⟩

theorem twoClients_initial : Initial twoClients := ⟨rfl, fun _ => rfl⟩

theorem twoClients_distinct : Function.Injective twoClients.pid := by decide

theorem room_ids_never_stale_two_clients :
    let _ := hyphenated
    let _ := taggedJson
    ∃ s os, Machine.Runs step twoClients [.text true 0 ⟨7⟩ createRoomText] os s ∧
      s.roomId true = some ⟨7⟩ ∧
      (∀ c r, s.roomId c = some r → ∃ l, s.core.rooms.participants r = some l ∧ s.pid c ∈ l) ∧
      (∀ c text, (c, sendError .internal text) ∉ os) ∧
      LeavesSucceed s ∧ RefusesOnlyOutsiders s := by
  intro _ _
  have hrun : ∃ s os, Machine.Runs step twoClients [.text true 0 ⟨7⟩ createRoomText] os s ∧
      s.roomId true = some ⟨7⟩ := ⟨_, _, Machine.run_sound rfl, rfl⟩
  obtain ⟨s, os, hr, hroom⟩ := hrun
  exact ⟨s, os, hr, hroom, room_ids_never_stale twoClients_initial twoClients_distinct hr⟩

end Samples

end Handlers

end Bloom
end Bakopa
