import Bakopa.Bloom.Broadcast

/-!
# Bakopa.Bloom.Stalled

Connections whose socket never completes a send, and the peers lock.

A delivery takes the peers lock, looks its target up and keeps the lock until its own send is over.
So one delivery to a stalled connection holds the lock for good (`stalled_holder_forever`), and a
run is free of this exactly when no delivery finds a stalled connection's sink
(`stalled_never_hold_iff`). As long as it is free of it, everyone who waits for the lock can finish.
-/

namespace Bakopa
namespace Bloom

open Lib

namespace Broadcast

variable {ι : Type} {s s' : Broadcast ι} {t : Nat} {task : Task ι} {c : ι} {stalled : ι → Bool}

/-- No one who waits for the sink lock of a stalled connection, or for a send to it, holds the
peers lock. -/
def Unblocked (stalled : ι → Bool) (s : Broadcast ι) : Prop :=
  ∀ q, stalled q = true → ∀ t, (s.tasks t).WaitsOn q → s.peersLock ≠ some t

theorem unblocked_iff (hs : Sound s) :
    Unblocked stalled s ↔ ∀ t c, (s.tasks t).serves = some c → stalled c = false := by
  constructor
  · intro h t c hserves
    by_contra hstalled
    have hwait : (s.tasks t).WaitsOn c ∧ (s.tasks t).HoldsPeers := by
      cases htask : s.tasks t <;> simp_all [Task.serves, Task.WaitsOn, Task.HoldsPeers]
    exact h c (by simpa using hstalled) t hwait.1 ((hs.peersHeld t).mpr hwait.2)
  · intro h q hq t hwait hlock
    have hholds := (hs.peersHeld t).mp hlock
    have hserves : (s.tasks t).serves = some q := by
      cases htask : s.tasks t <;> simp_all [Task.serves, Task.WaitsOn, Task.HoldsPeers]
    rw [h t q hserves] at hq
    cases hq

theorem serves_spawn (hs : Sound s) (task : Task ι) (hstart : task.Starts) (t : Nat) :
    ((s.spawn task).tasks t).serves = (s.tasks t).serves := by
  by_cases ht : t = s.next
  · subst ht
    simp only [Broadcast.spawn, Function.update_self, hs.fresh s.next le_rfl]
    cases task <;> first | rfl | exact hstart.elim
  · simp only [Broadcast.spawn, Function.update_of_ne ht]

theorem serves_advance [DecidableEq ι] (hs : Sound s)
    (h : s.advance stalled t (s.tasks t) = some s') (t' : Nat) :
    (s'.tasks t').serves =
      if t' = t then (s.tasks t).servesNext s.peers else (s.tasks t').serves := by
  have hput : ∀ task : Task ι, (Function.update s.tasks t task t').serves =
      if t' = t then task.serves else (s.tasks t').serves := by
    intro task
    by_cases ht : t' = t
    · subst ht; simp
    · simp [ht]
  cases htask : s.tasks t with
  | deliver target =>
    simp only [htask, Broadcast.advance] at h
    split at h
    · cases h
    · split at h
      · rename_i hpeer
        cases h
        rw [Task.servesNext, hpeer]
        exact hput _
      · rename_i hpeer
        cases h
        rw [Task.servesNext, hpeer]
        exact hput _
  | insert p c =>
    simp only [htask, Broadcast.advance] at h
    split at h
    · cases h
    · rename_i hlock
      have hsound : Sound ({ s with peers := (s.peers.insert p c).1, peersLock := some t }.put t
          .unlockPeers) :=
        hs.put (by simp [htask]) (hs.peers_taken (by simpa using hlock) trivial)
          (hs.sinks_kept (by simp [htask, Task.HoldsSink]))
      split at h
      · rename_i old _
        cases h
        rw [serves_spawn hsound (.own old) trivial]
        exact hput _
      · cases h; exact hput _
  | unlockPeers => simp only [htask, Broadcast.advance] at h; cases h; exact hput _
  | done => simp only [htask, Broadcast.advance] at h; cases h
  | _ =>
    simp only [htask, Broadcast.advance] at h
    split at h
    · cases h
    · cases h; exact hput _

/-- A delivery that is about to take the peers lock and finds a stalled connection's sink. -/
def FindsStalled (stalled : ι → Bool) (s : Broadcast ι) : BroadcastCall ι → Prop
  | .spawn _ => False
  | .run t => ∃ target q, s.tasks t = .deliver target ∧ s.peers target = some q ∧ stalled q = true

theorem step_unblocked [DecidableEq ι] {a : BroadcastCall ι} {o : List Empty} (hs : Sound s)
    (hub : Unblocked stalled s) (h : step stalled s a = some (s', o)) :
    Unblocked stalled s' ↔ ¬ FindsStalled stalled s a := by
  have hbefore := (unblocked_iff hs).mp hub
  rw [unblocked_iff (step_sound hs h)]
  rcases step_cases h with ⟨task, rfl, hstart, rfl⟩ | ⟨t, rfl, hadv⟩
  · simp only [serves_spawn hs task hstart]
    exact ⟨fun _ => id, fun _ => hbefore⟩
  · have hserves := serves_advance hs hadv
    constructor
    · rintro hafter ⟨target, q, htask, hpeer, hq⟩
      have heq : (s'.tasks t).serves = some q := by rw [hserves t, if_pos rfl, htask]; exact hpeer
      rw [hafter t q heq] at hq
      cases hq
    · intro hno t' c hc
      rw [hserves t'] at hc
      split at hc
      · cases htask : s.tasks t with
        | deliver target =>
          rw [htask] at hc
          by_contra hstalled
          exact hno ⟨target, c, htask, hc, by simpa using hstalled⟩
        | deliverLock c' =>
          rw [htask] at hc
          exact hbefore t c (by rw [htask]; exact hc)
        | _ => rw [htask] at hc; cases hc
      · exact hbefore t' c hc

section Progress

variable [DecidableEq ι]

/-- By steps of tasks that have been spawned. -/
def Reaches (stalled : ι → Bool) (s s' : Broadcast ι) : Prop :=
  ∃ as os, Machine.Runs (step stalled) s as os s' ∧ ∀ a ∈ as, ∃ t, a = .run t

theorem Reaches.refl : Reaches stalled s s := ⟨[], [], .nil, by simp⟩

theorem Reaches.trans {s'' : Broadcast ι} (h₁ : Reaches stalled s s')
    (h₂ : Reaches stalled s' s'') : Reaches stalled s s'' := by
  obtain ⟨as, os, hr₁, ha₁⟩ := h₁
  obtain ⟨bs, ps, hr₂, ha₂⟩ := h₂
  refine ⟨as ++ bs, os ++ ps, hr₁.trans hr₂, fun a ha => ?_⟩
  rcases List.mem_append.mp ha with ha | ha
  · exact ha₁ a ha
  · exact ha₂ a ha

theorem Reaches.run (h : s.advance stalled t (s.tasks t) = some s') : Reaches stalled s s' :=
  ⟨[.run t], [], .single (by simp only [step, h]), by simp⟩

theorem Reaches.sound (h : Reaches stalled s s') (hs : Sound s) : Sound s' := by
  obtain ⟨as, os, hr, -⟩ := h
  exact hr.invariant (fun _ _ _ _ => step_sound) hs

/-- The peers lock is free, and nothing else has changed for those who wait for it. -/
structure Clears (stalled : ι → Bool) (s s' : Broadcast ι) : Prop where
  reaches : Reaches stalled s s'
  free : s'.peersLock = none
  peers : s'.peers = s.peers
  waiting : ∀ t, (s.tasks t).WaitsPeers → s'.tasks t = s.tasks t

theorem clears_of_put {s₁ : Broadcast ι}
    (h : s.advance stalled t (s.tasks t) = some (s₁.put t task))
    (ht : ¬ (s.tasks t).WaitsPeers) (hfree : s₁.peersLock = none) (hpeers : s₁.peers = s.peers)
    (htasks : s₁.tasks = s.tasks) : Clears stalled s (s₁.put t task) where
  reaches := .run h
  free := hfree
  peers := hpeers
  waiting := by
    intro t' hwait
    have hne : t' ≠ t := by
      rintro rfl
      exact ht hwait
    simp only [Broadcast.put, Function.update_of_ne hne, htasks]

theorem deliverSend_clears (stalled : ι → Bool) (htask : s.tasks t = .deliverSend c)
    (hc : stalled c = false) : ∃ s', Clears stalled s s' ∧ s'.tasks t = .done := by
  have hadv : s.advance stalled t (s.tasks t) =
      some ({ s with sinkLock := Function.update s.sinkLock c none, peersLock := none }.put t
        .done) := by
    simp [htask, Broadcast.advance, hc]
  refine ⟨_, clears_of_put hadv (by simp [htask, Task.WaitsPeers]) rfl rfl rfl, ?_⟩
  simp [Broadcast.put]

theorem deliverLock_clears_of_free (stalled : ι → Bool) (htask : s.tasks t = .deliverLock c)
    (hc : stalled c = false) (hfree : s.sinkLock c = none) :
    ∃ s', Clears stalled s s' ∧ s'.tasks t = .done := by
  have hadv : s.advance stalled t (s.tasks t) =
      some ({ s with sinkLock := Function.update s.sinkLock c (some t) }.put t
        (.deliverSend c)) := by
    simp [htask, Broadcast.advance, hfree]
  obtain ⟨s', hclear, hdone⟩ := deliverSend_clears stalled (t := t) (c := c)
    (s := { s with sinkLock := Function.update s.sinkLock c (some t) }.put t (.deliverSend c))
    (by simp [Broadcast.put]) hc
  refine ⟨s', ⟨(Reaches.run hadv).trans hclear.reaches, hclear.free, hclear.peers, ?_⟩, hdone⟩
  intro t' hwait
  have hne : t' ≠ t := by
    rintro rfl
    rw [htask] at hwait
    exact hwait
  have hsame : ({ s with sinkLock := Function.update s.sinkLock c (some t) }.put t
      (.deliverSend c)).tasks t' = s.tasks t' := by
    simp [Broadcast.put, hne]
  rw [hclear.waiting t' (by rw [hsame]; exact hwait), hsame]

/-- A delivery that waits for a sink lock gets it: whoever holds it is not stalled. -/
theorem deliverLock_clears (hs : Sound s) (htask : s.tasks t = .deliverLock c)
    (hc : stalled c = false) : ∃ s', Clears stalled s s' ∧ s'.tasks t = .done := by
  cases hlock : s.sinkLock c with
  | none => exact deliverLock_clears_of_free stalled htask hc hlock
  | some t₁ =>
    have hholds := (hs.sinkHeld c t₁).mp hlock
    have hpeers : s.peersLock = some t := (hs.peersHeld t).mpr (by rw [htask]; trivial)
    -- the holder is not another delivery: that one would hold the peers lock too
    have hown : s.tasks t₁ = .ownSend c := by
      cases htask₁ : s.tasks t₁ with
      | ownSend c' =>
        rw [htask₁] at hholds
        exact congrArg Task.ownSend hholds
      | deliverSend c' =>
        have hpeers₁ := (hs.peersHeld t₁).mpr (by rw [htask₁]; trivial)
        rw [hpeers, Option.some.injEq] at hpeers₁
        subst hpeers₁
        rw [htask] at htask₁
        cases htask₁
      | _ => rw [htask₁] at hholds; exact hholds.elim
    have hadv : s.advance stalled t₁ (s.tasks t₁) =
        some ({ s with sinkLock := Function.update s.sinkLock c none }.put t₁ .done) := by
      simp [hown, Broadcast.advance, hc]
    have hne : t ≠ t₁ := by
      rintro rfl
      rw [htask] at hown
      cases hown
    obtain ⟨s', hclear, hdone⟩ := deliverLock_clears_of_free stalled (t := t) (c := c)
      (s := { s with sinkLock := Function.update s.sinkLock c none }.put t₁ .done)
      (by simp [Broadcast.put, hne, htask]) hc (by simp [Broadcast.put])
    refine ⟨s', ⟨(Reaches.run hadv).trans hclear.reaches, hclear.free, hclear.peers, ?_⟩, hdone⟩
    intro t' hwait
    have hne' : t' ≠ t₁ := by
      rintro rfl
      rw [hown] at hwait
      exact hwait
    have hsame : ({ s with sinkLock := Function.update s.sinkLock c none }.put t₁
        .done).tasks t' = s.tasks t' := by
      simp [Broadcast.put, hne']
    rw [hclear.waiting t' (by rw [hsame]; exact hwait), hsame]

theorem exists_clears (hs : Sound s) (hub : Unblocked stalled s) : ∃ s', Clears stalled s s' := by
  cases hlock : s.peersLock with
  | none => exact ⟨s, .refl, hlock, rfl, fun _ _ => rfl⟩
  | some t =>
    have hholds := (hs.peersHeld t).mp hlock
    have hlive := (unblocked_iff hs).mp hub t
    cases htask : s.tasks t with
    | deliverLock c =>
      obtain ⟨s', hclear, -⟩ := deliverLock_clears hs htask (hlive c (by rw [htask]; rfl))
      exact ⟨s', hclear⟩
    | deliverSend c =>
      obtain ⟨s', hclear, -⟩ := deliverSend_clears stalled htask (hlive c (by rw [htask]; rfl))
      exact ⟨s', hclear⟩
    | unlockPeers =>
      have hadv : s.advance stalled t (s.tasks t) =
          some ({ s with peersLock := none }.put t .done) := by
        simp [htask, Broadcast.advance]
      exact ⟨_, clears_of_put hadv (by simp [htask, Task.WaitsPeers]) rfl rfl rfl⟩
    | _ => rw [htask] at hholds; exact hholds.elim

/-- A delivery to a participant that is not stalled, a registration or a removal. -/
def Unaffected (stalled : ι → Bool) (s : Broadcast ι) : Task ι → Prop
  | .deliver target => ∀ c, s.peers target = some c → stalled c = false
  | .insert _ _ | .remove _ | .removeIfSame _ _ => True
  | _ => False

/-- Whoever waits for the peers lock and has no business with a stalled connection can finish. -/
def Proceeds (stalled : ι → Bool) (s : Broadcast ι) : Prop :=
  ∀ t, Unaffected stalled s (s.tasks t) → ∃ s', Reaches stalled s s' ∧ s'.tasks t = .done

theorem unlockPeers_done (stalled : ι → Bool) (htask : s.tasks t = .unlockPeers) :
    ∃ s', Reaches stalled s s' ∧ s'.tasks t = .done := by
  have hadv : s.advance stalled t (s.tasks t) =
      some ({ s with peersLock := none }.put t .done) := by
    simp [htask, Broadcast.advance]
  exact ⟨_, .run hadv, by simp [Broadcast.put]⟩

theorem finishes_of_free (hs : Sound s) (hfree : s.peersLock = none)
    (ht : Unaffected stalled s (s.tasks t)) : ∃ s', Reaches stalled s s' ∧ s'.tasks t = .done := by
  have hchange : ∀ peers : PeerMap ι, s.advance stalled t (s.tasks t) =
      some ({ s with peers, peersLock := some t }.put t .unlockPeers) →
      ∃ s', Reaches stalled s s' ∧ s'.tasks t = .done := by
    intro peers hadv
    obtain ⟨s', hreach, hdone⟩ := unlockPeers_done stalled (t := t)
      (s := { s with peers, peersLock := some t }.put t .unlockPeers) (by simp [Broadcast.put])
    exact ⟨s', (Reaches.run hadv).trans hreach, hdone⟩
  cases htask : s.tasks t with
  | deliver target =>
    rw [htask] at ht
    cases hpeer : s.peers target with
    | none =>
      have hadv : s.advance stalled t (s.tasks t) = some (s.put t .done) := by
        simp [htask, Broadcast.advance, hfree, hpeer]
      exact ⟨_, .run hadv, by simp [Broadcast.put]⟩
    | some c =>
      have hadv : s.advance stalled t (s.tasks t) =
          some ({ s with peersLock := some t }.put t (.deliverLock c)) := by
        simp [htask, Broadcast.advance, hfree, hpeer]
      obtain ⟨s', hclear, hdone⟩ := deliverLock_clears (hs.advance hadv) (t := t) (c := c)
        (by simp [Broadcast.put]) (ht c hpeer)
      exact ⟨s', (Reaches.run hadv).trans hclear.reaches, hdone⟩
  | insert p c =>
    cases hreplaced : s.peers p with
    | none =>
      exact hchange _ (by simp [htask, Broadcast.advance, hfree, PeerMap.insert, hreplaced]; rfl)
    | some old =>
      have hadv : s.advance stalled t (s.tasks t) =
          some (({ s with peers := (s.peers.insert p c).1, peersLock := some t }.put t
            .unlockPeers).spawn (.own old)) := by
        simp [htask, Broadcast.advance, hfree, PeerMap.insert, hreplaced]
      have hne : t ≠ s.next := by
        rintro rfl
        rw [hs.fresh s.next le_rfl] at htask
        cases htask
      obtain ⟨s', hreach, hdone⟩ := unlockPeers_done stalled (t := t)
        (s := ({ s with peers := (s.peers.insert p c).1, peersLock := some t }.put t
          .unlockPeers).spawn (.own old)) (by simp [Broadcast.put, Broadcast.spawn, hne])
      exact ⟨s', (Reaches.run hadv).trans hreach, hdone⟩
  | remove p => exact hchange _ (by simp [htask, Broadcast.advance, hfree]; rfl)
  | removeIfSame p c => exact hchange _ (by simp [htask, Broadcast.advance, hfree]; rfl)
  | _ => rw [htask] at ht; exact ht.elim

theorem proceeds_of_unblocked (hs : Sound s) (hub : Unblocked stalled s) : Proceeds stalled s := by
  intro t ht
  obtain ⟨s₁, hclear⟩ := exists_clears hs hub
  have hwait : (s.tasks t).WaitsPeers := by
    cases htask : s.tasks t <;> rw [htask] at ht <;> trivial
  have ht₁ : Unaffected stalled s₁ (s₁.tasks t) := by
    rw [hclear.waiting t hwait]
    cases htask : s.tasks t with
    | deliver target =>
      rw [htask] at ht
      intro c hc
      rw [hclear.peers] at hc
      exact ht c hc
    | _ => rw [htask] at ht; exact ht
  obtain ⟨s', hreach, hdone⟩ := finishes_of_free (hclear.reaches.sound hs) hclear.free ht₁
  exact ⟨s', hclear.reaches.trans hreach, hdone⟩

/-- In the states of a run no one who waits for a stalled socket holds the peers lock, and everyone
else can proceed, exactly when no delivery of the run finds the sink of a stalled connection. -/
theorem stalled_never_hold_iff (stalled : ι → Bool) (as : List (BroadcastCall ι)) :
    Machine.Always (step stalled) (fun s => Unblocked stalled s ∧ Proceeds stalled s) new as ↔
      Machine.Each (step stalled) (fun s a => ¬ FindsStalled stalled s a) new as := by
  have hub : Unblocked stalled (new : Broadcast ι) := by
    intro q _ t hwait
    exact hwait.elim
  refine Machine.always_iff_each (J := Sound) (fun _ _ _ _ => step_sound) ?_ sound_new
    ⟨hub, proceeds_of_unblocked sound_new hub⟩
  intro s a s' o hs hp hstep
  rw [← step_unblocked hs hp.1 hstep]
  exact ⟨fun h => h.1, fun h => ⟨h, proceeds_of_unblocked (step_sound hs hstep) h⟩⟩

/-- A delivery that serves a stalled connection keeps the peers lock for good. -/
theorem stalled_holder_forever {as : List (BroadcastCall ι)} {os : List Empty} (hs : Sound s)
    (hserves : (s.tasks t).serves = some c) (hc : stalled c = true)
    (hr : Machine.Runs (step stalled) s as os s') : s'.peersLock = some t := by
  have hinv := hr.invariant (I := fun s => Sound s ∧ (s.tasks t).serves = some c)
    (fun s a s' o hs ha => ?_) ⟨hs, hserves⟩
  · refine (hinv.1.peersHeld t).mpr ?_
    cases htask : s'.tasks t <;> rw [htask] at hinv <;>
      first | trivial | exact absurd hinv.2 (by simp [Task.serves])
  · refine ⟨step_sound hs.1 ha, ?_⟩
    rcases step_cases ha with ⟨task, rfl, hstart, rfl⟩ | ⟨t', rfl, hadv⟩
    · rw [serves_spawn hs.1 task hstart, hs.2]
    · rw [serves_advance hs.1 hadv t]
      split
      · rename_i heq
        subst heq
        cases htask : s.tasks t with
        | deliverLock c' => rw [← hs.2, htask]; rfl
        | deliverSend c' =>
          -- the send would have to finish
          rw [htask] at hs
          have heq : c' = c := Option.some.inj hs.2
          subst heq
          simp [htask, Broadcast.advance, hc] at hadv
        | _ => rw [htask] at hs; exact absurd hs.2 (by simp [Task.serves])
      · exact hs.2

end Progress

def oneMessage (p : ParticipantId) : List (BroadcastCall Bool) :=
  [.spawn (.insert p true), .run 0, .run 0, .spawn (.deliver p), .run 1]

/-- With a stalled reader, one delivery holds the peers lock from then on. -/
theorem one_message_blocks :
    ∃ s os, Machine.Runs (step fun c => c) new (oneMessage ⟨1⟩) os s ∧
      (s.tasks 1).WaitsOn true ∧ s.peersLock = some 1 ∧ ¬ Unblocked (fun c => c) s ∧
      ∀ as os' s', Machine.Runs (step fun c => c) s as os' s' → s'.peersLock = some 1 := by
  have hrun : ∃ s os, Machine.Runs (step fun c => c) new (oneMessage ⟨1⟩) os s ∧
      s.tasks 1 = .deliverLock true ∧ s.peersLock = some 1 :=
    ⟨_, _, Machine.run_sound rfl, rfl, rfl⟩
  obtain ⟨s, os, hr, htask, hlock⟩ := hrun
  have hs : Sound s := hr.invariant (fun _ _ _ _ => step_sound) sound_new
  have hwait : (s.tasks 1).WaitsOn true := by rw [htask]; rfl
  refine ⟨s, os, hr, hwait, hlock, fun hub => hub true rfl 1 hwait hlock, ?_⟩
  intro as os' s' hr'
  exact stalled_holder_forever (c := true) hs (by rw [htask]; rfl) rfl hr'

end Broadcast

end Bloom
end Bakopa
