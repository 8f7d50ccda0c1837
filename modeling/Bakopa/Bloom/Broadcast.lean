import Mathlib.Logic.Function.Basic
import Bakopa.Lib.Machine
import Bakopa.Bloom.Id

/-!
# Bakopa.Bloom.Broadcast

The locks of `bloom/ws/src/server.rs`: the peer map of `WebSocketBroadcast` behind one mutex, and
every connection's sink behind another.

A task is a delivery spawned by `send_to`, a call of `insert`, `remove` or `remove_if_same`, or a
send of a connection on its own sink. Its constructors are the points where it waits: for the
peers lock, for a sink lock, or for a send to finish. The guard of `peers.lock().await` in the
`if let` of `send_to` is a temporary of the scrutinee, so a delivery keeps the peers lock until
its send is over. `stalled` says whose socket never completes a send.

`Sound` says that the locks are held by the tasks that say so.
-/

namespace Bakopa
namespace Bloom

open Lib

/-- A connection stands for its sink. -/
abbrev PeerMap (ι : Type) := ParticipantId → Option ι

namespace PeerMap

variable {ι : Type}

/-- `HashMap::insert`, with the sink it replaces. -/
def insert (m : PeerMap ι) (p : ParticipantId) (c : ι) : PeerMap ι × Option ι :=
  (Function.update m p (some c), m p)

def remove (m : PeerMap ι) (p : ParticipantId) : PeerMap ι := Function.update m p none

def removeIfSame [DecidableEq ι] (m : PeerMap ι) (p : ParticipantId) (c : ι) : PeerMap ι :=
  match m p with
  | some current => if current = c then m.remove p else m
  | none => m

end PeerMap

inductive Task (ι : Type) where
  /-- A delivery before `peers.lock().await`. -/
  | deliver (target : ParticipantId)
  /-- A delivery before `sink.lock().await`, the peers lock held. -/
  | deliverLock (c : ι)
  /-- A delivery in `guard.send(..).await`, both locks held. -/
  | deliverSend (c : ι)
  | insert (p : ParticipantId) (c : ι)
  | remove (p : ParticipantId)
  | removeIfSame (p : ParticipantId) (c : ι)
  /-- The map has been changed; its guard lives to the end of the function. -/
  | unlockPeers
  /-- A send on the connection's own sink, or the close frame `insert` spawns. -/
  | own (c : ι)
  | ownSend (c : ι)
  | done
deriving DecidableEq

namespace Task

variable {ι : Type}

/-- Spawned or called, and waiting for its first lock. -/
def Starts : Task ι → Prop
  | .deliver _ | .insert _ _ | .remove _ | .removeIfSame _ _ | .own _ => True
  | .deliverLock _ | .deliverSend _ | .unlockPeers | .ownSend _ | .done => False

instance (task : Task ι) : Decidable task.Starts := by
  unfold Starts
  split <;> infer_instance

def HoldsPeers : Task ι → Prop
  | .deliverLock _ | .deliverSend _ | .unlockPeers => True
  | _ => False

def HoldsSink (c : ι) : Task ι → Prop
  | .deliverSend c' | .ownSend c' => c' = c
  | _ => False

/-- The connection a delivery is busy with once it has the peers lock. -/
def serves : Task ι → Option ι
  | .deliverLock c | .deliverSend c => some c
  | _ => none

/-- What it serves after its next step. -/
def servesNext (peers : PeerMap ι) : Task ι → Option ι
  | .deliver target => peers target
  | .deliverLock c => some c
  | _ => none

/-- Waiting for the peers lock. -/
def WaitsPeers : Task ι → Prop
  | .deliver _ | .insert _ _ | .remove _ | .removeIfSame _ _ => True
  | _ => False

/-- Waiting for the sink lock of `c`, or for a send to `c` to finish. -/
def WaitsOn (c : ι) : Task ι → Prop
  | .deliverLock c' | .deliverSend c' | .own c' | .ownSend c' => c' = c
  | _ => False

end Task

structure Broadcast (ι : Type) where
  peers : PeerMap ι
  /-- The task that holds the lock. -/
  peersLock : Option Nat
  sinkLock : ι → Option Nat
  tasks : Nat → Task ι
  next : Nat

inductive BroadcastCall (ι : Type) where
  | spawn (task : Task ι)
  | run (t : Nat)

namespace Broadcast

variable {ι : Type}

def new : Broadcast ι := ⟨fun _ => none, none, fun _ => none, fun _ => .done, 0⟩

def put (s : Broadcast ι) (t : Nat) (task : Task ι) : Broadcast ι :=
  { s with tasks := Function.update s.tasks t task }

def spawn (s : Broadcast ι) (task : Task ι) : Broadcast ι :=
  { s with tasks := Function.update s.tasks s.next task, next := s.next + 1 }

section Step

variable [DecidableEq ι] (stalled : ι → Bool)

/-- One step of a task. A lock may go to any of those that wait for it. -/
def advance (s : Broadcast ι) (t : Nat) : Task ι → Option (Broadcast ι)
  | .deliver target =>
    if s.peersLock.isSome then none
    else
      match s.peers target with
      | some c => some ({ s with peersLock := some t }.put t (.deliverLock c))
      | none => some (s.put t .done)
  | .deliverLock c =>
    if (s.sinkLock c).isSome then none
    else some ({ s with sinkLock := Function.update s.sinkLock c (some t) }.put t (.deliverSend c))
  | .deliverSend c =>
    if stalled c then none
    else
      some ({ s with sinkLock := Function.update s.sinkLock c none, peersLock := none }.put t .done)
  | .insert p c =>
    if s.peersLock.isSome then none
    else
      let (peers, replaced) := s.peers.insert p c
      let s := { s with peers, peersLock := some t }.put t .unlockPeers
      match replaced with
      | some old => some (s.spawn (.own old))
      | none => some s
  | .remove p =>
    if s.peersLock.isSome then none
    else some ({ s with peers := s.peers.remove p, peersLock := some t }.put t .unlockPeers)
  | .removeIfSame p c =>
    if s.peersLock.isSome then none
    else some ({ s with peers := s.peers.removeIfSame p c, peersLock := some t }.put t .unlockPeers)
  | .unlockPeers => some ({ s with peersLock := none }.put t .done)
  | .own c =>
    if (s.sinkLock c).isSome then none
    else some ({ s with sinkLock := Function.update s.sinkLock c (some t) }.put t (.ownSend c))
  | .ownSend c =>
    if stalled c then none
    else some ({ s with sinkLock := Function.update s.sinkLock c none }.put t .done)
  | .done => none

def step : Machine (Broadcast ι) (BroadcastCall ι) Empty
  | s, .spawn task => if task.Starts then some (s.spawn task, []) else none
  | s, .run t =>
    match s.advance stalled t (s.tasks t) with
    | some s' => some (s', [])
    | none => none

end Step

/-! ## Who holds the locks -/

structure Sound (s : Broadcast ι) : Prop where
  fresh : ∀ t, s.next ≤ t → s.tasks t = .done
  peersHeld : ∀ t, s.peersLock = some t ↔ (s.tasks t).HoldsPeers
  sinkHeld : ∀ c t, s.sinkLock c = some t ↔ (s.tasks t).HoldsSink c

variable {s s' : Broadcast ι} {t : Nat} {task : Task ι} {c : ι} {stalled : ι → Bool}

theorem sound_new : Sound (new : Broadcast ι) where
  fresh := fun _ _ => rfl
  peersHeld := by simp [new, Task.HoldsPeers]
  sinkHeld := by simp [new, Task.HoldsSink]

theorem Sound.spawn (hs : Sound s) (hstart : task.Starts) : Sound (s.spawn task) := by
  have hdone := hs.fresh s.next le_rfl
  have hpeers : ∀ t, (Function.update s.tasks s.next task t).HoldsPeers ↔
      (s.tasks t).HoldsPeers := by
    intro t
    by_cases ht : t = s.next
    · subst ht
      rw [Function.update_self, hdone]
      cases task <;> simp_all [Task.Starts, Task.HoldsPeers]
    · rw [Function.update_of_ne ht]
  have hsink : ∀ c t, (Function.update s.tasks s.next task t).HoldsSink c ↔
      (s.tasks t).HoldsSink c := by
    intro c t
    by_cases ht : t = s.next
    · subst ht
      rw [Function.update_self, hdone]
      cases task <;> simp_all [Task.Starts, Task.HoldsSink]
    · rw [Function.update_of_ne ht]
  refine ⟨fun t ht => ?_, fun t => ?_, fun c t => ?_⟩
  · have hlt : s.next + 1 ≤ t := ht
    have hne : t ≠ s.next := by omega
    simp only [Broadcast.spawn, Function.update_of_ne hne]
    exact hs.fresh t (by omega)
  · exact (hs.peersHeld t).trans (hpeers t).symm
  · exact (hs.sinkHeld c t).trans (hsink c t).symm

/-- A task that moves on keeps the state sound if the locks change as its hold on them does. -/
theorem Sound.put {peersLock : Option Nat} {sinkLock : ι → Option Nat} {peers : PeerMap ι}
    (hs : Sound s) (ht : s.tasks t ≠ .done)
    (hpeers : ∀ t', peersLock = some t' ↔
      if t' = t then task.HoldsPeers else (s.tasks t').HoldsPeers)
    (hsink : ∀ c t', sinkLock c = some t' ↔
      if t' = t then task.HoldsSink c else (s.tasks t').HoldsSink c) :
    Sound ({ s with peers, peersLock, sinkLock }.put t task) := by
  have hlt : t < s.next := by
    by_contra hge
    exact ht (hs.fresh t (by omega))
  refine ⟨fun t' ht' => ?_, fun t' => ?_, fun c t' => ?_⟩
  · have hge : s.next ≤ t' := ht'
    have hne : t' ≠ t := by omega
    simp only [Broadcast.put, Function.update_of_ne hne]
    exact hs.fresh t' hge
  · rw [Broadcast.put]
    refine (hpeers t').trans ?_
    by_cases hne : t' = t
    · subst hne; simp
    · simp [hne]
  · rw [Broadcast.put]
    refine (hsink c t').trans ?_
    by_cases hne : t' = t
    · subst hne; simp
    · simp [hne]

/-! How a step of `t` to `task` changes the lock it takes, releases or leaves alone. -/

theorem Sound.peers_kept (hs : Sound s) (hh : task.HoldsPeers ↔ (s.tasks t).HoldsPeers) (t' : Nat) :
    s.peersLock = some t' ↔ if t' = t then task.HoldsPeers else (s.tasks t').HoldsPeers := by
  rw [hs.peersHeld t']
  split
  · rename_i heq; rw [heq, hh]
  · rfl

theorem Sound.peers_taken (hs : Sound s) (hfree : s.peersLock = none) (hh : task.HoldsPeers)
    (t' : Nat) :
    some t = some t' ↔ if t' = t then task.HoldsPeers else (s.tasks t').HoldsPeers := by
  have hnone : ¬ (s.tasks t').HoldsPeers := by
    rw [← hs.peersHeld t', hfree]
    simp
  by_cases heq : t' = t
  · simp [heq, hh]
  · simp [heq, hnone, Ne.symm heq]

theorem Sound.peers_released (hs : Sound s) (hheld : (s.tasks t).HoldsPeers)
    (hh : ¬ task.HoldsPeers) (t' : Nat) :
    none = some t' ↔ if t' = t then task.HoldsPeers else (s.tasks t').HoldsPeers := by
  have hlock := (hs.peersHeld t).mpr hheld
  by_cases heq : t' = t
  · simp [heq, hh]
  · have hother : ¬ (s.tasks t').HoldsPeers := by
      rw [← hs.peersHeld t', hlock]
      simp [Ne.symm heq]
    simp [heq, hother]

theorem Sound.sinks_kept (hs : Sound s) (hh : ∀ c, task.HoldsSink c ↔ (s.tasks t).HoldsSink c)
    (c : ι) (t' : Nat) :
    s.sinkLock c = some t' ↔ if t' = t then task.HoldsSink c else (s.tasks t').HoldsSink c := by
  rw [hs.sinkHeld c t']
  split
  · rename_i heq; rw [heq, hh]
  · rfl

theorem Sound.sinks_taken [DecidableEq ι] (hs : Sound s) (hfree : s.sinkLock c = none)
    (hbefore : ∀ c', ¬ (s.tasks t).HoldsSink c') (hh : ∀ c', task.HoldsSink c' ↔ c = c')
    (c' : ι) (t' : Nat) :
    Function.update s.sinkLock c (some t) c' = some t' ↔
      if t' = t then task.HoldsSink c' else (s.tasks t').HoldsSink c' := by
  by_cases hc : c' = c
  · subst hc
    have hnone : ¬ (s.tasks t').HoldsSink c' := by
      rw [← hs.sinkHeld c' t', hfree]
      simp
    rw [Function.update_self, hh]
    by_cases heq : t' = t
    · simp [heq]
    · simp [heq, hnone, Ne.symm heq]
  · rw [Function.update_of_ne hc, hs.sinkHeld c' t', hh]
    by_cases heq : t' = t
    · simp [heq, hbefore c', Ne.symm hc]
    · simp [heq]

theorem Sound.sinks_released [DecidableEq ι] (hs : Sound s)
    (hbefore : ∀ c', (s.tasks t).HoldsSink c' ↔ c = c') (hh : ∀ c', ¬ task.HoldsSink c')
    (c' : ι) (t' : Nat) :
    Function.update s.sinkLock c none c' = some t' ↔
      if t' = t then task.HoldsSink c' else (s.tasks t').HoldsSink c' := by
  by_cases hc : c' = c
  · subst hc
    have hlock := (hs.sinkHeld c' t).mpr ((hbefore c').mpr rfl)
    rw [Function.update_self]
    by_cases heq : t' = t
    · simp [heq, hh]
    · have hother : ¬ (s.tasks t').HoldsSink c' := by
        rw [← hs.sinkHeld c' t', hlock]
        simp [Ne.symm heq]
      simp [heq, hother]
  · rw [Function.update_of_ne hc, hs.sinkHeld c' t']
    by_cases heq : t' = t
    · simp [heq, hh, hbefore c', Ne.symm hc]
    · simp [heq]

theorem Sound.takesPeers {peers : PeerMap ι} (hs : Sound s) (hwaits : (s.tasks t).WaitsPeers)
    (hlock : ¬ s.peersLock.isSome = true) (hholds : task.HoldsPeers)
    (hsink : ∀ c, ¬ task.HoldsSink c) :
    Sound ({ s with peers, peersLock := some t }.put t task) := by
  have hne : s.tasks t ≠ .done := by
    intro hdone
    rw [hdone] at hwaits
    exact hwaits
  have hbefore : ∀ c, ¬ (s.tasks t).HoldsSink c := by
    intro c
    cases htask : s.tasks t <;> simp_all [Task.WaitsPeers, Task.HoldsSink]
  exact hs.put hne (hs.peers_taken (by simpa using hlock) hholds)
    (hs.sinks_kept fun c => iff_of_false (hsink c) (hbefore c))

theorem Sound.advance [DecidableEq ι] (hs : Sound s)
    (h : s.advance stalled t (s.tasks t) = some s') : Sound s' := by
  cases htask : s.tasks t with
  | deliver target =>
    simp only [htask, Broadcast.advance] at h
    split at h
    · cases h
    · rename_i hlock
      split at h
      · cases h
        exact hs.takesPeers (by simp [htask, Task.WaitsPeers]) hlock trivial fun _ => id
      · cases h
        exact hs.put (by simp [htask]) (hs.peers_kept (by simp [htask, Task.HoldsPeers]))
          (hs.sinks_kept (by simp [htask, Task.HoldsSink]))
  | deliverLock c =>
    simp only [htask, Broadcast.advance] at h
    split at h
    · cases h
    · rename_i hlock
      cases h
      exact hs.put (by simp [htask]) (hs.peers_kept (by simp [htask, Task.HoldsPeers]))
        (hs.sinks_taken (by simpa using hlock) (by simp [htask, Task.HoldsSink]) fun _ => Iff.rfl)
  | deliverSend c =>
    simp only [htask, Broadcast.advance] at h
    split at h
    · cases h
    · cases h
      exact hs.put (by simp [htask]) (hs.peers_released (by simp [htask, Task.HoldsPeers]) id)
        (hs.sinks_released (by simp [htask, Task.HoldsSink]) fun _ => id)
  | insert p c =>
    simp only [htask, Broadcast.advance] at h
    split at h
    · cases h
    · rename_i hlock
      have hput : Sound ({ s with peers := (s.peers.insert p c).1, peersLock := some t }.put t
          .unlockPeers) :=
        hs.takesPeers (by simp [htask, Task.WaitsPeers]) hlock trivial fun _ => id
      split at h
      · cases h; exact hput.spawn trivial
      · cases h; exact hput
  | remove p =>
    simp only [htask, Broadcast.advance] at h
    split at h
    · cases h
    · rename_i hlock
      cases h
      exact hs.takesPeers (by simp [htask, Task.WaitsPeers]) hlock trivial fun _ => id
  | removeIfSame p c =>
    simp only [htask, Broadcast.advance] at h
    split at h
    · cases h
    · rename_i hlock
      cases h
      exact hs.takesPeers (by simp [htask, Task.WaitsPeers]) hlock trivial fun _ => id
  | unlockPeers =>
    simp only [htask, Broadcast.advance] at h
    cases h
    exact hs.put (by simp [htask]) (hs.peers_released (by simp [htask, Task.HoldsPeers]) id)
      (hs.sinks_kept (by simp [htask, Task.HoldsSink]))
  | own c =>
    simp only [htask, Broadcast.advance] at h
    split at h
    · cases h
    · rename_i hlock
      cases h
      exact hs.put (by simp [htask]) (hs.peers_kept (by simp [htask, Task.HoldsPeers]))
        (hs.sinks_taken (by simpa using hlock) (by simp [htask, Task.HoldsSink]) fun _ => Iff.rfl)
  | ownSend c =>
    simp only [htask, Broadcast.advance] at h
    split at h
    · cases h
    · cases h
      exact hs.put (by simp [htask]) (hs.peers_kept (by simp [htask, Task.HoldsPeers]))
        (hs.sinks_released (by simp [htask, Task.HoldsSink]) fun _ => id)
  | done =>
    simp only [htask, Broadcast.advance] at h
    cases h

theorem step_cases [DecidableEq ι] {a : BroadcastCall ι} {o : List Empty}
    (h : step stalled s a = some (s', o)) :
    (∃ task : Task ι, a = .spawn task ∧ task.Starts ∧ s' = s.spawn task) ∨
    ∃ t, a = .run t ∧ s.advance stalled t (s.tasks t) = some s' := by
  cases a with
  | spawn task =>
    simp only [step] at h
    split at h
    · rename_i hstart
      cases h
      exact .inl ⟨task, rfl, hstart, rfl⟩
    · cases h
  | run t =>
    simp only [step] at h
    split at h
    · rename_i hadv
      cases h
      exact .inr ⟨t, rfl, hadv⟩
    · cases h

theorem step_sound [DecidableEq ι] {a : BroadcastCall ι} {o : List Empty} (hs : Sound s)
    (h : step stalled s a = some (s', o)) : Sound s' := by
  rcases step_cases h with ⟨task, -, hstart, rfl⟩ | ⟨t, -, hadv⟩
  · exact hs.spawn hstart
  · exact hs.advance hadv

end Broadcast

end Bloom
end Bakopa
