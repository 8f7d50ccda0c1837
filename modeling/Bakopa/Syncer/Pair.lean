import Bakopa.Syncer.Encoding
import Bakopa.Syncer.Endpoint
import Bakopa.Syncer.Reports

/-!
# Bakopa.Syncer.Pair

Two syncers on the two ends of `WebrtcTransport::pair`, that call in any order.

The bus is one cell (`Rc<RefCell<..>>`): a call finds it as the last call of either side left it.
`delivered_once_in_order` says that when both have joined and the bus is empty, each side knows
both, and has been told exactly what the other had to say, in order.
-/

namespace Bakopa
namespace Syncer

open Lib Lib.Machine BasicSyncer

inductive Side where
  | a
  | b
deriving DecidableEq, Repr

def Side.other : Side → Side
  | .a => .b
  | .b => .a

@[simp] theorem Side.other_other (x : Side) : x.other.other = x := by cases x <;> rfl

@[simp] theorem Side.other_ne (x : Side) : x.other ≠ x := by cases x <;> decide

theorem Side.eq_or_other (x y : Side) : y = x ∨ y = x.other := by cases x <;> cases y <;> decide

/-- The bus, and what each side has besides. -/
structure Pair where
  bus : List BusMessage
  syncers : Side → BasicSyncer WebrtcTransport

def Pair.syncer (p : Pair) (x : Side) : BasicSyncer WebrtcTransport :=
  (p.syncers x).withBus p.bus

/-- A call: who made it, in which state, and what it did. -/
structure Turn where
  side : Side
  syncer : BasicSyncer WebrtcTransport
  call : Call WebrtcTransport
  acts : List Act

/-- What `x` was told that `sender` said. -/
def Turn.heardBy (x : Side) (sender : ParticipantId) (t : Turn) : List Content :=
  if t.side = x then (returned t.acts).filterMap (SyncerEvent.heard sender) else []

section Pair

variable [UuidCrate] [SerdeJson]

/-- What `x` had to say to `peer`. -/
def Turn.admittedBy (x : Side) (peer : ParticipantId) (t : Turn) : List Content :=
  if t.side = x then (t.syncer.admitted peer t.call).toList else []

namespace Pair

def step : Machine Pair (Side × Call WebrtcTransport) Turn
  | p, (x, call) =>
    if call.isOwn (p.syncers x).me then
      match calls (p.syncer x) call with
      | some (s, acts) =>
        some (⟨s.bus, Function.update p.syncers x s⟩, [⟨x, p.syncer x, call, acts⟩])
      | none => none
    else none

def transports (ids : Side → ParticipantId) : Side → WebrtcTransport
  | .a => (WebrtcTransport.pair (ids .a) (ids .b)).1
  | .b => (WebrtcTransport.pair (ids .a) (ids .b)).2

def start (ids : Side → ParticipantId) (limiters : Side → RateLimiter) : Pair where
  bus := []
  syncers x := withRateLimiter (ids x) (transports ids x) (limiters x)

/-- Both sides are ends, and who has joined is known to the other, or will be. -/
structure Linked (ids : Side → ParticipantId) (p : Pair) : Prop where
  isEnd : ∀ x, IsEnd (ids x) (ids x.other) (p.syncers x)
  proper : Proper (ids .a) (ids .b) p.bus
  known : ∀ x, (p.syncers x.other).room.isSome = true →
    Known (ids x.other) (ids x) (p.syncers x).participants p.bus

variable {ids : Side → ParticipantId} {p p' : Pair}

theorem Linked.proper_at (h : Linked ids p) (x : Side) :
    Proper (ids x) (ids x.other) (p.syncer x).bus := by
  cases x with
  | a => exact h.proper
  | b => exact h.proper.symm

theorem start_linked (ids : Side → ParticipantId) (limiters : Side → RateLimiter) :
    Linked ids (start ids limiters) where
  isEnd := by
    intro x
    have htransport : transports ids x = .new (ids x) (ids x.other) [] false := by cases x <;> rfl
    simp only [start, htransport]
    exact isEnd_new _ _ _
  proper := fun m hm => nomatch hm
  known := fun x hx => nomatch hx

theorem Linked.table (h : Linked ids p) (hne : ∀ x, ids x ≠ ids x.other)
    (hjoined : ∀ x, (p.syncers x).room.isSome = true) (hbus : p.bus = []) (x : Side) :
    (p.syncers x).participantsSnapshot.Perm [ids .a, ids .b] := by
  have hend := h.isEnd x
  have hpeer : ids x.other ∈ (p.syncers x).participants.participants := by
    rcases h.known x (hjoined _) with hpeer | ⟨m, hm, -⟩
    · exact hpeer
    · rw [hbus] at hm
      cases hm
  have hnodup : [ids x, ids x.other].Nodup := by simp [hne x]
  have hperm : (p.syncers x).participantsSnapshot.Perm [ids x, ids x.other] := by
    refine (List.perm_ext_iff_of_nodup (p.syncers x).participants.nodup_participants hnodup).mpr
      fun q => ?_
    rw [List.mem_cons, List.mem_singleton]
    constructor
    · exact hend.members q
    · rintro (rfl | rfl)
      · exact hend.self_mem (hjoined x)
      · exact hpeer
  cases x with
  | a => exact hperm
  | b => exact hperm.trans (List.Perm.swap _ _ _)

theorem step_cases {x : Side} {call : Call WebrtcTransport} {turns : List Turn}
    (h : step p (x, call) = some (p', turns)) :
    call.isOwn (p.syncers x).me = true ∧ ∃ acts,
      calls (p.syncer x) call = some (p'.syncers x, acts) ∧ p'.bus = (p'.syncers x).bus ∧
      p'.syncers x.other = p.syncers x.other ∧ turns = [⟨x, p.syncer x, call, acts⟩] := by
  simp only [step] at h
  split at h
  · rename_i hown
    split at h
    · rename_i s acts hcall
      cases h
      exact ⟨hown, acts, by simpa using hcall, by simp, by simp, rfl⟩
    · cases h
  · cases h

section Run

variable [LawfulUuid] [LosslessJson] (hne : ∀ x, ids x ≠ ids x.other)
  (hfits : ∀ x, JoinFits (ids x))

include hne hfits

theorem step_moves (h : Linked ids p) {x : Side} {call : Call WebrtcTransport} {turns : List Turn}
    (hstep : step p (x, call) = some (p', turns)) :
    ∃ acts, turns = [⟨x, p.syncer x, call, acts⟩] ∧
      Moves (ids x) (ids x.other) (p.syncer x) acts (p'.syncers x) ∧
      (handed acts).filterMap (·.payload.content) =
        ((p.syncer x).admitted (ids x.other) call).toList := by
  obtain ⟨hown, acts, hcall, -, -, rfl⟩ := step_cases hstep
  have hend := (h.isEnd x).withBus p.bus
  rw [(h.isEnd x).me_eq] at hown
  exact ⟨acts, rfl, call_moves (hne x) (hfits x) hend (h.proper_at x) hown hcall,
    handed_call (hne x) (hfits x) hend (h.proper_at x) hown hcall⟩

theorem step_linked (h : Linked ids p) {label : Side × Call WebrtcTransport} {turns : List Turn}
    (hstep : step p label = some (p', turns)) : Linked ids p' := by
  obtain ⟨x, call⟩ := label
  obtain ⟨-, -, -, hbus, hother, -⟩ := step_cases hstep
  obtain ⟨acts, -, hmoves, -⟩ := step_moves hne hfits h hstep
  have hproper : Proper (ids x) (ids x.other) p'.bus := hbus ▸ hmoves.proper
  refine ⟨fun y => ?_, ?_, fun y hy => ?_⟩
  · rcases x.eq_or_other y with rfl | rfl
    · exact hmoves.isEnd
    · rw [hother]
      exact h.isEnd _
  · cases x with
    | a => exact hproper
    | b => exact hproper.symm
  · rcases x.eq_or_other y with rfl | rfl
    · rw [hother] at hy
      rw [hbus]
      exact hmoves.known (h.known y hy)
    · rw [Side.other_other] at hy ⊢
      rw [hother, hbus]
      have hkept : inTransit (ids x.other) p.bus ⊆ inTransit (ids x.other) (p'.syncers x).bus := by
        rw [hmoves.outgoing]
        exact List.subset_append_left _ _
      rcases hmoves.announces hy with hy | hy
      · have hknown := h.known x.other
        rw [Side.other_other] at hknown
        rcases hknown hy with hmem | hmem
        · exact .inl hmem
        · exact .inr (hmem.mono hkept)
      · exact .inr hy

/-- What is on the way from `x` is a queue: `x` puts in what it has to say, the other takes out
what it is told. -/
theorem step_fifo (h : Linked ids p) {label : Side × Call WebrtcTransport} {turns : List Turn}
    (hstep : step p label = some (p', turns)) (x : Side) :
    turns.flatMap (Turn.heardBy x.other (ids x)) ++
        (inTransit (ids x.other) p'.bus).filterMap (·.payload.content) =
      (inTransit (ids x.other) p.bus).filterMap (·.payload.content) ++
        turns.flatMap (Turn.admittedBy x (ids x.other)) := by
  obtain ⟨y, call⟩ := label
  obtain ⟨-, -, -, hbus, -, -⟩ := step_cases hstep
  obtain ⟨acts, rfl, hmoves, hadmitted⟩ := step_moves hne hfits h hstep
  rw [hbus]
  rcases x.eq_or_other y with rfl | rfl
  · have hcontent : ((handed acts).map fun m =>
        BusMessage.mk (ids y.other) (ids y) m.payload).filterMap (·.payload.content) =
        ((p.syncer y).admitted (ids y.other) call).toList := by
      rw [List.filterMap_map, ← hadmitted]
      rfl
    rw [hmoves.outgoing, List.filterMap_append, hcontent]
    simp only [List.flatMap_singleton, Turn.heardBy, Turn.admittedBy, if_true,
      (Side.other_ne y).symm, if_false, List.nil_append]
    rfl
  · have hincoming := hmoves.incoming
    rw [Side.other_other] at hincoming
    simp only [List.flatMap_singleton, Turn.heardBy, Turn.admittedBy, if_true, Side.other_ne,
      if_false, List.append_nil]
    exact hincoming

theorem run_linked (h : Linked ids p) {labels : List (Side × Call WebrtcTransport)}
    {turns : List Turn} (hruns : Runs step p labels turns p') : Linked ids p' :=
  hruns.invariant (fun _ _ _ _ hs => step_linked hne hfits hs) h

/-- At any time, what `x` had to say was told to the other, but for what is still on the way. -/
theorem run_fifo {limiters : Side → RateLimiter} {labels : List (Side × Call WebrtcTransport)}
    {turns : List Turn} (hruns : Runs step (start ids limiters) labels turns p) (x : Side) :
    turns.flatMap (Turn.heardBy x.other (ids x)) ++
        (inTransit (ids x.other) p.bus).filterMap (·.payload.content) =
      turns.flatMap (Turn.admittedBy x (ids x.other)) :=
  hruns.fifo (fun _ _ _ _ hs => step_linked hne hfits hs)
    (fun _ _ _ _ hs hstep => step_fifo hne hfits hs hstep x) (start_linked ids limiters)

theorem step_joined (h : Linked ids p) {label : Side × Call WebrtcTransport} {turns : List Turn}
    (hstep : step p label = some (p', turns)) {x : Side}
    (hx : (p.syncers x).room.isSome = true) : (p'.syncers x).room.isSome = true := by
  obtain ⟨y, call⟩ := label
  obtain ⟨-, -, -, -, hother, -⟩ := step_cases hstep
  obtain ⟨acts, -, hmoves, -⟩ := step_moves hne hfits h hstep
  rcases y.eq_or_other x with rfl | rfl
  · exact hmoves.stays hx
  · rw [hother]
    exact hx

omit [LawfulUuid] [LosslessJson] hne hfits in
theorem step_join {x : Side} {now : Nat} {roomId : RoomId} {q : ParticipantId} {turns : List Turn}
    (hstep : step p (x, .handle now (.join roomId q)) = some (p', turns)) :
    (p'.syncers x).room.isSome = true := by
  obtain ⟨-, acts, hcall, -⟩ := step_cases hstep
  have hstate : ((p.syncer x).handle now (.join roomId q)).1 = p'.syncers x :=
    congrArg Prod.fst (Option.some.inj hcall)
  have hroom := room_handle_join (p.syncer x) now roomId q
  rw [hstate] at hroom
  rw [hroom]
  rfl

theorem joined_of_call (h : Linked ids p) {labels : List (Side × Call WebrtcTransport)}
    {turns : List Turn} (hruns : Runs step p labels turns p') {x : Side} {now : Nat}
    {roomId : RoomId} {q : ParticipantId} (hcall : (x, .handle now (.join roomId q)) ∈ labels) :
    (p'.syncers x).room.isSome = true := by
  obtain ⟨before, after, rfl⟩ := List.append_of_mem hcall
  obtain ⟨p₁, _, _, hbefore, hrest, -⟩ := hruns.split
  have hlinked := run_linked hne hfits h hbefore
  have hkeep : ∀ p label p' turns, Linked ids p ∧ (p.syncers x).room.isSome = true →
      step p label = some (p', turns) → Linked ids p' ∧ (p'.syncers x).room.isSome = true :=
    fun p label p' turns hs hstep =>
      ⟨step_linked hne hfits hs.1 hstep, step_joined hne hfits hs.1 hstep hs.2⟩
  cases hrest with
  | cons hjoin hafter =>
    exact (hafter.invariant hkeep ⟨step_linked hne hfits hlinked hjoin, step_join hjoin⟩).2

end Run

/-- Whatever two syncers on a pair call, in any order: once both have joined and the bus is empty,
both tables hold exactly the two, and each side was told what the other had to say, in order and
once. -/
theorem delivered_once_in_order [LawfulUuid] [LosslessJson] {limiters : Side → RateLimiter}
    (hne : ids .a ≠ ids .b) (hfits : ∀ x, JoinFits (ids x))
    {labels : List (Side × Call WebrtcTransport)} {turns : List Turn}
    (hruns : Runs step (start ids limiters) labels turns p)
    (hjoined : ∀ x, ∃ now roomId q, (x, .handle now (.join roomId q)) ∈ labels)
    (hbus : p.bus = []) (x : Side) :
    (p.syncers x).participantsSnapshot.Perm [ids .a, ids .b] ∧
    turns.flatMap (Turn.heardBy x.other (ids x)) =
      turns.flatMap (Turn.admittedBy x (ids x.other)) := by
  have hne' : ∀ x, ids x ≠ ids x.other := by
    intro x
    cases x with
    | a => exact hne
    | b => exact hne.symm
  have hstart := start_linked ids limiters
  have hin : ∀ x, (p.syncers x).room.isSome = true := by
    intro x
    obtain ⟨now, roomId, q, hcall⟩ := hjoined x
    exact joined_of_call hne' hfits hstart hruns hcall
  have hfifo := run_fifo hne' hfits hruns x
  refine ⟨(run_linked hne' hfits hstart hruns).table hne' hin hbus x, ?_⟩
  rw [hbus, inTransit, List.filter_nil, List.filterMap_nil, List.append_nil] at hfifo
  exact hfifo

end Pair

end Pair

namespace Pair

def sampleIds : Side → ParticipantId
  | .a => alice
  | .b => bob

def sampleLimiters (_ : Side) : RateLimiter := ⟨1, by decide, 1000000000, ∅⟩

def hello : ChatMessage := ⟨1, 0, 0, "alice", "hello"⟩

def sampleCalls : List (Side × Call WebrtcTransport) := [
  (.a, .handle 0 (.join lobby alice)),
  (.b, .handle 0 (.join lobby bob)),
  (.a, .handle 0 (.sendChat hello ⟨lobby, alice, .chat⟩)),
  (.a, .handle 1 (.sendVoiceFrame [1, 2] ⟨lobby, alice, .voice⟩)),
  (.b, .handle 0 (.sendVoiceFrame [3] ⟨lobby, bob, .voice⟩)),
  (.a, .pollOnly)]

theorem delivered_once_in_order_hello :
    let _ := hyphenated
    let _ := JsonText.serdeText
    ∃ p turns, Runs step (start sampleIds sampleLimiters) sampleCalls turns p ∧
      turns.flatMap (Turn.heardBy .b alice) = [.chat hello] ∧
      turns.flatMap (Turn.heardBy .a bob) = [.voice [3]] ∧
      ∀ x, (p.syncers x).participantsSnapshot.Perm [alice, bob] ∧
        turns.flatMap (Turn.heardBy x.other (sampleIds x)) =
          turns.flatMap (Turn.admittedBy x (sampleIds x.other)) := by
  intro _ _
  have hrun : (run step (start sampleIds sampleLimiters) sampleCalls).map (fun r =>
      (r.1.bus, r.2.flatMap (Turn.heardBy .b alice), r.2.flatMap (Turn.heardBy .a bob))) =
      some ([], [.chat hello], [.voice [3]]) := by decide +kernel
  obtain ⟨⟨p, turns⟩, hr, hturns⟩ := Option.map_eq_some_iff.mp hrun
  simp only [Prod.mk.injEq] at hturns
  obtain ⟨hbus, hbob, halice⟩ := hturns
  have hfits : ∀ x, JoinFits (sampleIds x) := by
    intro x
    cases x with
    | a => decide +kernel
    | b => decide +kernel
  have hjoined : ∀ x, ∃ now roomId q, (x, .handle now (.join roomId q)) ∈ sampleCalls := by
    intro x
    cases x with
    | a => exact ⟨0, lobby, alice, by simp [sampleCalls]⟩
    | b => exact ⟨0, lobby, bob, by simp [sampleCalls]⟩
  have _ := hyphenated_lawful
  have _ := JsonText.serdeText_lossless
  exact ⟨p, turns, run_sound hr, hbob, halice,
    delivered_once_in_order (by decide) hfits (run_sound hr) hjoined hbus⟩

end Pair

end Syncer
end Bakopa
