import Bakopa.Bloom.Notices

/-!
# Bakopa.Bloom.Noninterference

Clients that use different rooms do not notice each other: not only are their rooms separate, a run
without the others is the same run.

All handlers share one `RealCore`, and a request is answered from it. What keeps two groups apart is
that a handler asks the core for nothing but the room that it names, in its request or in its
`room_id` (`handleMessage_agree`). `strangers_unnoticed` takes this to whole runs.
-/

namespace Bakopa
namespace Bloom

open Lib

/-- The rooms with `R` are the same in both. -/
def RoomManager.Agree (R : RoomId → Prop) (m m' : RoomManager) : Prop :=
  ∀ r, R r → m.participants r = m'.participants r

namespace RoomManager

variable {R : RoomId → Prop} {m m' : RoomManager} {r : RoomId} {p : ParticipantId}

theorem Agree.createRoom (h : Agree R m m') (drawn : RoomId) :
    Agree R (m.createRoom drawn p).1 (m'.createRoom drawn p).1 := by
  intro r hr
  rw [participants_createRoom, participants_createRoom, h r hr]

theorem Agree.joinRoom (h : Agree R m m') (hr : R r) :
    (m.joinRoom r p).2 = (m'.joinRoom r p).2 ∧
      Agree R (m.joinRoom r p).1 (m'.joinRoom r p).1 := by
  cases hl : m.participants r with
  | none =>
    have hl' : m'.participants r = none := by rw [← h r hr, hl]
    rw [joinRoom_none hl, joinRoom_none hl']
    exact ⟨rfl, h⟩
  | some l =>
    have hl' : m'.participants r = some l := by rw [← h r hr, hl]
    by_cases ha : Admits l p
    · refine ⟨by rw [joinRoom_ok hl ha, joinRoom_ok hl' ha], fun r' hr' => ?_⟩
      rw [participants_joinRoom_ok hl ha, participants_joinRoom_ok hl' ha, h r' hr']
    · simp only [Admits, not_or, not_lt] at ha
      rw [joinRoom_full hl ha.1 ha.2, joinRoom_full hl' ha.1 ha.2]
      exact ⟨rfl, h⟩

theorem Agree.leaveRoom (h : Agree R m m') (hr : R r) :
    (m.leaveRoom r p).2 = (m'.leaveRoom r p).2 ∧
      Agree R (m.leaveRoom r p).1 (m'.leaveRoom r p).1 := by
  cases hl : m.participants r with
  | none =>
    have hl' : m'.participants r = none := by rw [← h r hr, hl]
    rw [leaveRoom_none hl, leaveRoom_none hl']
    exact ⟨rfl, h⟩
  | some l =>
    have hl' : m'.participants r = some l := by rw [← h r hr, hl]
    refine ⟨by rw [leaveRoom_answer hl, leaveRoom_answer hl'], fun r' hr' => ?_⟩
    rw [participants_leaveRoom hl, participants_leaveRoom hl', h r' hr']

end RoomManager

section Steps

variable [UuidCrate]

/-- The room a request makes or asks to enter is one with `R`. -/
def ClientToServer.Names (R : RoomId → Prop) (drawn : RoomId) : ClientToServer → Prop
  | .createRoom => R drawn
  | .joinRoom roomId => ∀ r, RoomId.fromStr roomId = some r → R r
  | .leaveRoom | .offer _ _ | .answer _ _ | .iceCandidate _ _ => True

theorem ClientToServer.Names.mono {R R' : RoomId → Prop} {drawn : RoomId} {message : ClientToServer}
    (hR : ∀ r, R r → R' r) (h : message.Names R drawn) : message.Names R' drawn := by
  cases message with
  | createRoom => exact hR drawn h
  | joinRoom roomId => exact fun r hr => hR r (h r hr)
  | leaveRoom => trivial
  | offer target payload => trivial
  | answer target payload => trivial
  | iceCandidate target payload => trivial

namespace WsHandler

/-- The handler's room, if it has one, is one with `R`. -/
def In (R : RoomId → Prop) (h : WsHandler) : Prop := ∀ r, h.roomId = some r → R r

/-- Two outcomes that differ in rooms without `R` at most. -/
structure Alike (R : RoomId → Prop) (a b : Handled) : Prop where
  handler : a.handler = b.handler
  sent : a.sent = b.sent
  rooms : RoomManager.Agree R a.core.rooms b.core.rooms
  inside : a.handler.In R

variable {R : RoomId → Prop} {core core' : RealCore} {h : WsHandler} {r : RoomId}

omit [UuidCrate] in
theorem relay_agree (hcore : RoomManager.Agree R core.rooms core'.rooms) (hr : R r)
    (sender target : ParticipantId) (message : ServerToClient) :
    core.relay r sender target message = core'.relay r sender target message := by
  simp only [RealCore.relay, hcore r hr]

theorem handleSignaling_agree (hcore : RoomManager.Agree R core.rooms core'.rooms) (hin : h.In R)
    (target : String) (sender : ParticipantId) (event : ServerToClient) (failure : String) :
    h.handleSignaling target (fun r t => core.relay r sender t event) failure =
      h.handleSignaling target (fun r t => core'.relay r sender t event) failure := by
  unfold handleSignaling
  cases hroom : h.roomId with
  | none => rfl
  | some r => simp only [relay_agree hcore (hin r hroom)]

theorem handleJoinRoom_agree (hcore : RoomManager.Agree R core.rooms core'.rooms) (hin : h.In R)
    {roomId : String} (hnames : ∀ r, RoomId.fromStr roomId = some r → R r) :
    Alike R (handleJoinRoom core h roomId) (handleJoinRoom core' h roomId) := by
  unfold handleJoinRoom
  cases hparse : RoomId.fromStr roomId with
  | none => exact ⟨rfl, rfl, hcore, hin⟩
  | some r =>
    obtain ⟨hanswer, hrooms⟩ := hcore.joinRoom (p := h.participantId) (hnames r hparse)
    cases hj : core.rooms.joinRoom r h.participantId with
    | mk rooms answer =>
      cases hj' : core'.rooms.joinRoom r h.participantId with
      | mk rooms' answer' =>
        rw [hj, hj'] at hanswer hrooms
        simp only at hanswer
        subst hanswer
        simp only [hj, hj']
        match answer with
        | none => exact ⟨rfl, rfl, hrooms, hin⟩
        | some (.error .roomFull) => exact ⟨rfl, rfl, hrooms, hin⟩
        | some (.ok participants) =>
          refine ⟨rfl, rfl, hrooms, fun r' hr' => ?_⟩
          cases hr'
          exact hnames r hparse

theorem handleLeaveRoom_agree (hcore : RoomManager.Agree R core.rooms core'.rooms)
    (hin : h.In R) : Alike R (handleLeaveRoom core h) (handleLeaveRoom core' h) := by
  unfold handleLeaveRoom
  cases hroom : h.roomId with
  | none => exact ⟨rfl, rfl, hcore, hin⟩
  | some r =>
    obtain ⟨hanswer, hrooms⟩ := hcore.leaveRoom (p := h.participantId) (hin r hroom)
    cases hl : core.rooms.leaveRoom r h.participantId with
    | mk rooms answer =>
      cases hl' : core'.rooms.leaveRoom r h.participantId with
      | mk rooms' answer' =>
        rw [hl, hl'] at hanswer hrooms
        simp only at hanswer
        subst hanswer
        simp only [hl, hl']
        cases answer with
        | none => exact ⟨rfl, rfl, hrooms, hin⟩
        | some remaining => exact ⟨rfl, rfl, hrooms, fun r' hr' => nomatch hr'⟩

theorem handleMessage_agree (hcore : RoomManager.Agree R core.rooms core'.rooms) (hin : h.In R)
    {drawn : RoomId} {message : ClientToServer} (hnames : message.Names R drawn) :
    Alike R (handleMessage core h drawn message) (handleMessage core' h drawn message) := by
  cases message with
  | createRoom =>
    refine ⟨rfl, rfl, hcore.createRoom drawn, fun r hr => ?_⟩
    cases hr
    exact hnames
  | joinRoom roomId => exact handleJoinRoom_agree hcore hin hnames
  | leaveRoom => exact handleLeaveRoom_agree hcore hin
  | offer target payload =>
    exact ⟨rfl, handleSignaling_agree hcore hin target _ _ "failed to relay offer", hcore, hin⟩
  | answer target payload =>
    exact ⟨rfl, handleSignaling_agree hcore hin target _ _ "failed to relay answer", hcore, hin⟩
  | iceCandidate target payload =>
    exact ⟨rfl, handleSignaling_agree hcore hin target _ _ "failed to relay ice", hcore, hin⟩

theorem handleAbnormalClose_agree (hcore : RoomManager.Agree R core.rooms core'.rooms)
    (hin : h.In R) : Alike R (handleAbnormalClose core h) (handleAbnormalClose core' h) := by
  unfold handleAbnormalClose
  cases hroom : h.roomId with
  | none => exact ⟨rfl, rfl, hcore, hin⟩
  | some r =>
    obtain ⟨hanswer, hrooms⟩ := hcore.leaveRoom (p := h.participantId) (hin r hroom)
    cases hl : core.rooms.leaveRoom r h.participantId with
    | mk rooms answer =>
      cases hl' : core'.rooms.leaveRoom r h.participantId with
      | mk rooms' answer' =>
        rw [hl, hl'] at hanswer hrooms
        simp only at hanswer
        subst hanswer
        simp only [hl, hl']
        exact ⟨rfl, rfl, hrooms, fun r' hr' => nomatch hr'⟩

theorem handleTextMessage_agree [BloomJson]
    (hcore : RoomManager.Agree R core.rooms core'.rooms) (hin : h.In R) (now : Nat)
    {drawn : RoomId} {text : String}
    (hnames : ∀ message, BloomJson.clientFromStr text = some message → message.Names R drawn) :
    Alike R (handleTextMessage core h now drawn text) (handleTextMessage core' h now drawn text) := by
  obtain ⟨limiter, hl⟩ := h.isRateLimited_handler now
  have hin' : In R { h with rateLimiter := limiter } := hin
  unfold handleTextMessage
  simp only [hl]
  split
  · exact ⟨rfl, rfl, hcore, hin'⟩
  · cases hm : BloomJson.clientFromStr text with
    | none => exact ⟨rfl, rfl, hcore, hin'⟩
    | some message =>
      obtain ⟨hhandler, hsent, hrooms, hinside⟩ := handleMessage_agree hcore hin' (hnames message hm)
      exact ⟨hhandler, by simp only [hsent], hrooms, hinside⟩

end WsHandler

/-- The rooms that a call names have `R`, whether or not the limiter lets it pass. -/
def HandlerCall.Names [BloomJson] {ι : Type} (R : RoomId → Prop) : HandlerCall ι → Prop
  | .text _ _ drawn request =>
    ∀ message, BloomJson.clientFromStr request = some message → message.Names R drawn
  | .binary _ | .abnormalClose _ => True

namespace Handlers

variable {ι : Type} [BloomJson] {A : ι → Prop} {R : RoomId → Prop} {s s' t : Handlers ι}
  {a : HandlerCall ι} {o : List (ι × Sent)} {c : ι} {mv : Move} {r : RoomId}

omit [UuidCrate] [BloomJson] in
/-- Every client is on its own side: the rooms with `R` are those of the clients with `A`. -/
structure Placed (A : ι → Prop) (R : RoomId → Prop) (s : Handlers ι) : Prop where
  tracked : Tracked s
  room : ∀ c, (s.handler c).In fun r => R r ↔ A c
  listed : ∀ c r, s.pid c ∈ s.members r → (R r ↔ A c)

omit [UuidCrate] [BloomJson] in
theorem Initial.placed (h : Initial s) (hd : Function.Injective s.pid) : Placed A R s where
  tracked := h.tracked hd
  room := by
    intro c r hr
    have hnone : (s.handler c).roomId = none := h.outside c
    rw [hnone] at hr
    cases hr
  listed := by
    intro c r hr
    rw [h.members r] at hr
    cases hr

theorem moveAt_names (hin : (s.handler a.conn).In R) (hnames : a.Names R)
    (hr : (s.moveAt a).room = some r) : R r := by
  cases a with
  | text c now drawn text =>
    simp only [moveAt] at hr
    cases hreq : (s.handler c).request now text with
    | none => rw [hreq] at hr; cases hr
    | some message =>
      have hm : BloomJson.clientFromStr text = some message := by
        unfold WsHandler.request at hreq
        split at hreq
        · cases hreq
        · exact hreq
      have hname := hnames message hm
      rw [hreq] at hr
      cases message with
      | createRoom => cases hr; exact hname
      | joinRoom roomId =>
        simp only [WsHandler.moveOf] at hr
        split at hr
        · cases hr
        · rename_i r' hparse
          split at hr
          · cases hr
          · split at hr
            · cases hr; exact hname _ hparse
            · cases hr
      | leaveRoom =>
        simp only [WsHandler.moveOf] at hr
        split at hr
        · cases hr
        · rename_i r' hroom
          split at hr
          · cases hr; exact hin _ hroom
          · cases hr
      | offer target payload => cases hr
      | answer target payload => cases hr
      | iceCandidate target payload => cases hr
  | binary c => cases hr
  | abnormalClose c =>
    simp only [moveAt, WsHandler.closeMove] at hr
    split at hr
    · cases hr
    · rename_i r' hroom
      cases hr
      exact hin _ hroom

omit [UuidCrate] [BloomJson] in
theorem Took.placed (h : Took s s' c mv) (hs : Placed A R s)
    (hmv : ∀ r, mv.room = some r → (R r ↔ A c)) : Placed A R s' where
  tracked := h.tracked hs.tracked
  room := by
    intro c' r hr
    by_cases hc : c' = c
    · subst hc
      have hroom : s'.roomId c' = some r := hr
      rw [h.room] at hroom
      cases mv with
      | create drawn => exact hmv r hroom
      | join r' => exact hmv r hroom
      | leave r' => cases hroom
      | forget => cases hroom
      | stay => exact hs.room c' r hroom
    · have hroom : s'.roomId c' = some r := hr
      rw [h.others c' hc] at hroom
      exact hs.room c' r hroom
  listed := by
    intro c' r hr
    by_cases hc : c' = c
    · subst hc
      rw [h.mem_own] at hr
      cases mv with
      | create drawn =>
        rcases hr with rfl | hr
        · exact hmv r rfl
        · exact hs.listed c' r hr
      | join r' =>
        rcases hr with rfl | hr
        · exact hmv r rfl
        · exact hs.listed c' r hr
      | leave r' => exact hs.listed c' r hr.2
      | forget => exact hs.listed c' r hr
      | stay => exact hs.listed c' r hr
    · have hne : s.pid c' ≠ s.pid c := fun heq => hc (hs.tracked.distinct heq)
      rw [h.pid, h.mem_other hne] at hr
      exact hs.listed c' r hr

/-- On the side of `A`, `t` is as `s`. -/
structure Apart (A : ι → Prop) (R : RoomId → Prop) (s t : Handlers ι) : Prop where
  placed : Placed A R s
  handler : ∀ c, A c → t.handler c = s.handler c
  rooms : RoomManager.Agree R s.core.rooms t.core.rooms

variable [DecidableEq ι]

theorem step_placed (hs : Placed A R s) (hnames : a.Names fun r => R r ↔ A a.conn)
    (h : step s a = some (s', o)) : Placed A R s' :=
  (step_took h).placed hs fun _ hr => moveAt_names (hs.room a.conn) hnames hr

/-- A client of the other side leaves this side alone. -/
theorem step_hidden (hE : Apart A R s t) (hnames : a.Names fun r => R r ↔ A a.conn)
    (hA : ¬ A a.conn) (h : step s a = some (s', o)) : Apart A R s' t where
  placed := step_placed hE.placed hnames h
  handler := by
    intro c hc
    rw [step_handler_other h fun heq => hA (heq ▸ hc)]
    exact hE.handler c hc
  rooms := by
    intro r hr
    have htook := step_took h
    rw [← hE.rooms r hr, htook.rooms]
    refine Move.participants_other htook.enabled fun hroom => ?_
    exact hA ((moveAt_names (hE.placed.room a.conn) hnames hroom).mp hr)

omit [UuidCrate] [BloomJson] in
theorem Apart.put {handled handled' : Handled} (hE : Apart A R s t)
    (hs' : Placed A R (s.put c handled).1) (hh : WsHandler.Alike R handled handled') :
    (t.put c handled').2 = (s.put c handled).2 ∧
      Apart A R (s.put c handled).1 (t.put c handled').1 := by
  refine ⟨by simp only [Handlers.put, hh.sent], hs', fun c' hc' => ?_, hh.rooms⟩
  by_cases heq : c' = c
  · subst heq
    simp only [Handlers.put, Function.update_self, hh.handler]
  · simp only [Handlers.put, Function.update_of_ne heq]
    exact hE.handler c' hc'

/-- A client of this side finds in `t` what it finds in `s`. -/
theorem step_visible (hE : Apart A R s t) (hnames : a.Names fun r => R r ↔ A a.conn)
    (hA : A a.conn) (h : step s a = some (s', o)) :
    ∃ t', step t a = some (t', o) ∧ Apart A R s' t' := by
  have hs' := step_placed hE.placed hnames h
  have hin : (s.handler a.conn).In R := fun r hr => (hE.placed.room a.conn r hr).mpr hA
  have hhandler := hE.handler a.conn hA
  -- from what the handler does in both states to the two steps
  have hdone : ∀ handled handled', WsHandler.Alike R handled handled' →
      s.put a.conn handled = (s', o) →
      ∃ t', t.put a.conn handled' = (t', o) ∧ Apart A R s' t' := by
    intro handled handled' hh hput
    have hfst : (s.put a.conn handled).1 = s' := congrArg Prod.fst hput
    obtain ⟨hout, hE'⟩ := hE.put (by rw [hfst]; exact hs') hh
    rw [hput] at hout hE'
    exact ⟨_, Prod.ext rfl hout, hE'⟩
  cases a with
  | text c now drawn text =>
    simp only [HandlerCall.conn] at hin hhandler hdone hA
    have hmessage : ∀ message, BloomJson.clientFromStr text = some message →
        message.Names R drawn := fun message hm =>
      (hnames message hm).mono fun r hr => hr.mpr hA
    have hfresh : ((t.handler c).request now text = some .createRoom ∧
        (t.core.rooms.participants drawn).isSome) ↔
        ((s.handler c).request now text = some .createRoom ∧
          (s.core.rooms.participants drawn).isSome) := by
      rw [hhandler]
      refine and_congr_right fun hreq => ?_
      have hr : R drawn := by
        unfold WsHandler.request at hreq
        split at hreq
        · cases hreq
        · exact hmessage _ hreq
      rw [hE.rooms drawn hr]
    simp only [step] at h ⊢
    split at h
    · cases h
    · rename_i hno
      rw [if_neg (hfresh.not.mpr hno), hhandler]
      obtain ⟨t', ht', hE'⟩ := hdone _ _
        (WsHandler.handleTextMessage_agree hE.rooms hin now hmessage) (Option.some.inj h)
      exact ⟨t', congrArg some ht', hE'⟩
  | binary c =>
    simp only [HandlerCall.conn] at hhandler hdone
    have halike : WsHandler.Alike R ⟨s.core, (s.handler c).handleBinary, []⟩
        ⟨t.core, (s.handler c).handleBinary, []⟩ := by
      refine ⟨rfl, rfl, hE.rooms, fun r hr => ?_⟩
      cases hr
    obtain ⟨t', ht', hE'⟩ := hdone _ _ halike (Option.some.inj h)
    exact ⟨t', by simp only [step, hhandler, ht'], hE'⟩
  | abnormalClose c =>
    simp only [HandlerCall.conn] at hin hhandler hdone
    obtain ⟨t', ht', hE'⟩ := hdone _ _ (WsHandler.handleAbnormalClose_agree hE.rooms hin)
      (Option.some.inj h)
    exact ⟨t', by simp only [step, hhandler, ht'], hE'⟩

theorem step_same_side (hs : Placed A R s) (hnames : a.Names fun r => R r ↔ A a.conn)
    (h : step s a = some (s', o)) :
    ∀ x ∈ o, ∀ q m, x.2 = .sendTo q m → ∀ c, s'.pid c = q → (A c ↔ A x.1) := by
  have hs' := step_placed hs hnames h
  obtain ⟨sent, rfl, hnotices⟩ := step_notices hs.tracked h
  rintro x hx q m hm c rfl
  obtain ⟨m', hm', rfl⟩ := List.mem_map.mp hx
  simp only at hm
  subst hm
  obtain ⟨⟨r, hroom, hq⟩, -⟩ := hnotices.sendTo hm'
  have hr : R r ↔ A a.conn := by
    rcases hroom with hroom | ⟨-, hat⟩
    · exact moveAt_names (hs.room a.conn) hnames hroom
    · exact hs.room a.conn r hat
  exact (hs'.listed c r hq).symm.trans hr

/-- A run in which the clients with `A` name only rooms with `R` and the others only rooms without
is, for the clients with `A`, the run without the others: the same requests are taken in the same
way, the same messages are handed out, the rooms with `R` and the handlers end up the same; and
what the others hand out is for none of them. -/
theorem strangers_unnoticed [DecidablePred A] {s₀ : Handlers ι} {as : List (HandlerCall ι)}
    {os : List (ι × Sent)} (h₀ : Initial s₀) (hd : Function.Injective s₀.pid)
    (hr : Machine.Runs step s₀ as os s)
    (hnames : ∀ a ∈ as, a.Names fun r => R r ↔ A a.conn) :
    (∃ t, Machine.Runs step s₀ (as.filter fun a => A a.conn) (os.filter fun x => A x.1) t ∧
      (∀ c, A c → t.handler c = s.handler c) ∧
      (∀ r, R r → t.core.rooms.participants r = s.core.rooms.participants r)) ∧
    ∀ x ∈ os, ∀ q m, x.2 = .sendTo q m → ∀ c, s₀.pid c = q → (A c ↔ A x.1) := by
  have hplaced : Placed A R s₀ := h₀.placed hd
  constructor
  · have hE : Apart A R s₀ s₀ := ⟨hplaced, fun _ _ => rfl, fun _ _ => rfl⟩
    obtain ⟨t, ht, hE'⟩ := hr.purge (E := Apart A R) (V := fun a => A a.conn)
      (K := fun x => A x.1) (Q := fun a => a.Names fun r => R r ↔ A a.conn)
      (fun s t a s' o hE hname hv h => by
        refine ⟨step_visible hE hname (of_decide_eq_true hv) h, fun x hx => ?_⟩
        rw [step_conn h x hx]
        exact hv)
      (fun s t a s' o hE hname hv h => by
        refine ⟨step_hidden hE hname (of_decide_eq_false hv) h, fun x hx => ?_⟩
        rw [step_conn h x hx]
        exact hv)
      hnames hE
    exact ⟨t, ht, hE'.handler, fun r hr => (hE'.rooms r hr).symm⟩
  · have hout := hr.outputs_of (I := fun s => Placed A R s ∧ s.pid = s₀.pid)
      (Q := fun a => a.Names fun r => R r ↔ A a.conn)
      (O := fun x => ∀ q m, x.2 = .sendTo q m → ∀ c, s₀.pid c = q → (A c ↔ A x.1))
      (fun s a s' o hI hname h => by
        have hpid : s'.pid = s₀.pid := (step_took h).pid.trans hI.2
        refine ⟨⟨step_placed hI.1 hname h, hpid⟩, ?_⟩
        rw [← hpid]
        exact step_same_side hI.1 hname h)
      hnames ⟨hplaced, rfl⟩
    exact hout.2

end Handlers

end Steps

namespace Handlers

section Samples

def twoRooms : List (HandlerCall Bool) :=
  [.text true 0 ⟨7⟩ createRoomText, .text false 0 ⟨8⟩ createRoomText,
    .text true 1 ⟨9⟩ leaveRoomText, .text false 2 ⟨9⟩ leaveRoomText]

theorem strangers_unnoticed_two_rooms :
    let _ := hyphenated
    let _ := taggedJson
    ∃ s os t, Machine.Runs step twoClients twoRooms os s ∧
      Machine.Runs step twoClients
        [.text true 0 ⟨7⟩ createRoomText, .text true 1 ⟨9⟩ leaveRoomText]
        (os.filter fun x => x.1) t ∧
      (∀ c, c = true → t.handler c = s.handler c) := by
  intro _ _
  have hrun : ∃ s os, Machine.Runs step twoClients twoRooms os s :=
    ⟨_, _, Machine.run_sound rfl⟩
  obtain ⟨s, os, hr⟩ := hrun
  have hnames : ∀ a ∈ twoRooms, a.Names fun r => (r = ⟨7⟩ ↔ a.conn = true) := by
    have hcreate : BloomJson.clientFromStr createRoomText = some .createRoom := by decide
    have hleave : BloomJson.clientFromStr leaveRoomText = some .leaveRoom := by decide
    simp only [twoRooms, List.forall_mem_cons, HandlerCall.Names, HandlerCall.conn, hcreate, hleave,
      Option.some_inj, forall_eq', ClientToServer.Names]
    simp
  obtain ⟨⟨t, ht, hhandlers, -⟩, -⟩ :=
    strangers_unnoticed (A := fun c => c = true) twoClients_initial twoClients_distinct hr hnames
  refine ⟨s, os, t, hr, ?_, hhandlers⟩
  simpa [twoRooms, HandlerCall.conn] using ht

end Samples

end Handlers

end Bloom
end Bakopa
