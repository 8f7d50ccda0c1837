import Bakopa.Bloom.Stalled

/-!
# Bakopa.Bloom.Deliveries

What becomes of the messages that `WebSocketBroadcast::send_to` of `bloom/ws/src/server.rs` spawns
a task for.

`observe` is `Broadcast.step` with three things put out: that `send_to` has been called, that the
task it spawned has looked its target up, and that the task's send is over. The lock that a delivery
keeps while it sends, which lets one stalled client block everybody (`Stalled`), is also what keeps
messages in order: they are written one after the other as they were looked up, each at most once,
and to the sink that the map still has for the target (`deliveries_in_order`).
-/

namespace Bakopa
namespace Bloom

open Lib

inductive Observed (ι : Type) where
  /-- `send_to` has spawned task `t` for this target. -/
  | spawned (t : Nat) (target : ParticipantId)
  /-- Task `t` has the peers lock, and the map has this sink for its target. -/
  | lookup (t : Nat) (target : ParticipantId) (found : Option ι)
  /-- The send of delivery `t` to `c` is over. -/
  | written (t : Nat) (c : ι)

namespace Observed

variable {ι : Type}

/-- The deliveries that have found a sink. -/
def found : Observed ι → List (Nat × ι)
  | .lookup t _ (some c) => [(t, c)]
  | .lookup _ _ none | .spawned _ _ | .written _ _ => []

def wrote : Observed ι → List (Nat × ι)
  | .written t c => [(t, c)]
  | .spawned _ _ | .lookup _ _ _ => []

def looker : Observed ι → Option Nat
  | .lookup t _ _ => some t
  | .spawned _ _ | .written _ _ => none

end Observed

namespace Broadcast

section Observing

variable {ι : Type}

def observed (s : Broadcast ι) : BroadcastCall ι → List (Observed ι)
  | .spawn (.deliver target) => [.spawned s.next target]
  | .spawn _ => []
  | .run t =>
    match s.tasks t with
    | .deliver target => [.lookup t target (s.peers target)]
    | .deliverSend c => [.written t c]
    | _ => []

def observe [DecidableEq ι] (stalled : ι → Bool) :
    Machine (Broadcast ι) (BroadcastCall ι) (Observed ι)
  | s, a => (step stalled s a).map fun x => (x.1, s.observed a)

/-- The delivery that holds the peers lock, if one does. -/
def underway (s : Broadcast ι) : List (Nat × ι) :=
  match s.peersLock with
  | some t => ((s.tasks t).serves.map fun c => (t, c)).toList
  | none => []

end Observing

variable {ι : Type} {s s' : Broadcast ι} {a : BroadcastCall ι} {o : List (Observed ι)} {t : Nat}
  {c : ι} {stalled : ι → Bool}

theorem holdsPeers_of_serves {task : Task ι} (h : task.serves = some c) : task.HoldsPeers := by
  cases task <;> cases h <;> trivial

theorem underway_of_serves (hs : Sound s) (h : (s.tasks t).serves = some c) :
    s.underway = [(t, c)] := by
  have hlock : s.peersLock = some t := (hs.peersHeld t).mpr (holdsPeers_of_serves h)
  simp [underway, hlock, h]

theorem underway_eq_nil (h : ∀ t, (s.tasks t).serves = none) : s.underway = [] := by
  unfold underway
  split
  · simp [h]
  · rfl

theorem serves_eq_none (hs : Sound s) (hfree : s.peersLock = none) (t : Nat) :
    (s.tasks t).serves = none := by
  cases h : (s.tasks t).serves with
  | none => rfl
  | some c =>
    have hlock := (hs.peersHeld t).mpr (holdsPeers_of_serves h)
    rw [hfree] at hlock
    cases hlock

theorem serves_eq_none_of_ne (hs : Sound s) (hholds : (s.tasks t).HoldsPeers) {t' : Nat}
    (ht : t' ≠ t) : (s.tasks t').serves = none := by
  cases h : (s.tasks t').serves with
  | none => rfl
  | some c =>
    have hlock := (hs.peersHeld t').mpr (holdsPeers_of_serves h)
    rw [(hs.peersHeld t).mpr hholds] at hlock
    exact absurd (Option.some.inj hlock).symm ht

theorem underway_congr (hs : Sound s) (hs' : Sound s')
    (h : ∀ t, (s'.tasks t).serves = (s.tasks t).serves) : s'.underway = s.underway := by
  by_cases hone : ∃ t c, (s.tasks t).serves = some c
  · obtain ⟨t, c, ht⟩ := hone
    rw [underway_of_serves hs ht, underway_of_serves hs' ((h t).trans ht)]
  · have hnone : ∀ t, (s.tasks t).serves = none := by
      intro t
      cases ht : (s.tasks t).serves with
      | none => rfl
      | some c => exact absurd ⟨t, c, ht⟩ hone
    rw [underway_eq_nil hnone, underway_eq_nil fun t => (h t).trans (hnone t)]

section Steps

variable [DecidableEq ι]

theorem observe_cases (h : observe stalled s a = some (s', o)) :
    (∃ task, a = .spawn task ∧ task.Starts ∧ s' = s.spawn task ∧ o = s.observed (.spawn task)) ∨
    ∃ t, a = .run t ∧ s.advance stalled t (s.tasks t) = some s' ∧ o = s.observed (.run t) := by
  obtain ⟨⟨s₁, o₁⟩, hstep, heq⟩ := Option.map_eq_some_iff.mp h
  simp only [Prod.mk.injEq] at heq
  obtain ⟨rfl, rfl⟩ := heq
  rcases step_cases hstep with ⟨task, rfl, hstart, rfl⟩ | ⟨t, rfl, hadv⟩
  · exact .inl ⟨task, rfl, hstart, rfl, rfl⟩
  · exact .inr ⟨t, rfl, hadv, rfl⟩

theorem observe_sound (hs : Sound s) (h : observe stalled s a = some (s', o)) : Sound s' := by
  rcases observe_cases h with ⟨task, -, hstart, rfl, -⟩ | ⟨t, -, hadv, -⟩
  · exact hs.spawn hstart
  · exact hs.advance hadv

theorem free_of_waits (hw : (s.tasks t).WaitsPeers)
    (h : s.advance stalled t (s.tasks t) = some s') : s.peersLock = none := by
  cases htask : s.tasks t <;> rw [htask] at hw h <;> first | exact hw.elim | skip
  all_goals
    simp only [Broadcast.advance] at h
    split at h
    · cases h
    · rename_i hlock
      simpa using hlock

/-- Of the deliveries that find a sink, a step takes the next from the one under way. -/
theorem observe_fifo (hs : Sound s) (h : observe stalled s a = some (s', o)) :
    o.flatMap Observed.wrote ++ s'.underway = s.underway ++ o.flatMap Observed.found := by
  have hs' := observe_sound hs h
  rcases observe_cases h with ⟨task, rfl, hstart, rfl, rfl⟩ | ⟨t, rfl, hadv, rfl⟩
  · rw [underway_congr hs hs' fun t => serves_spawn hs task hstart t]
    cases task <;> simp [observed, Observed.wrote, Observed.found]
  have hserves := serves_advance hs hadv
  -- a task that takes the lock for something else, or keeps off it
  have hquiet : (s.tasks t).servesNext s.peers = none → (s.tasks t).serves = none →
      s'.underway = s.underway := by
    intro hnext hnow
    refine underway_congr hs hs' fun t' => ?_
    rw [hserves t']
    split
    · rename_i heq; rw [heq, hnext, hnow]
    · rfl
  cases htask : s.tasks t with
  | deliver target =>
    have hfree := free_of_waits (by rw [htask]; trivial) hadv
    have hbefore := underway_eq_nil (serves_eq_none hs hfree)
    have hout : s.observed (.run t) = [.lookup t target (s.peers target)] := by
      simp only [observed, htask]
    cases hpeer : s.peers target with
    | none =>
      have hafter : s'.underway = s.underway :=
        hquiet (by rw [htask]; exact hpeer) (by rw [htask]; rfl)
      rw [hafter, hbefore, hout, hpeer]
      rfl
    | some c =>
      have hnow : (s'.tasks t).serves = some c := by
        rw [hserves t, if_pos rfl, htask]
        exact hpeer
      rw [underway_of_serves hs' hnow, hbefore, hout, hpeer]
      rfl
  | deliverLock c =>
    have hnow : (s'.tasks t).serves = some c := by
      rw [hserves t, if_pos rfl, htask]
      rfl
    rw [underway_of_serves hs' hnow, underway_of_serves hs (by rw [htask]; rfl), observed, htask]
    rfl
  | deliverSend c =>
    have hholds : (s.tasks t).HoldsPeers := by rw [htask]; trivial
    have hafter : ∀ t', (s'.tasks t').serves = none := by
      intro t'
      rw [hserves t']
      split
      · rw [htask]; rfl
      · rename_i hne; exact serves_eq_none_of_ne hs hholds hne
    rw [underway_eq_nil hafter, underway_of_serves hs (by rw [htask]; rfl), observed, htask]
    rfl
  | done => rw [htask] at hadv; cases hadv
  | _ =>
    rw [hquiet (by rw [htask]; rfl) (by rw [htask]; rfl), observed, htask]
    simp

theorem advance_peers (hheld : s.peersLock ≠ none)
    (h : s.advance stalled t (s.tasks t) = some s') : s'.peers = s.peers := by
  by_cases hw : (s.tasks t).WaitsPeers
  · exact absurd (free_of_waits hw h) hheld
  · cases htask : s.tasks t <;> rw [htask] at hw h <;> first | exact absurd trivial hw | skip
    · simp only [Broadcast.advance] at h
      split at h <;> cases h
      rfl
    · simp only [Broadcast.advance] at h
      split at h <;> cases h
      rfl
    · cases h
      rfl
    · simp only [Broadcast.advance] at h
      split at h <;> cases h
      rfl
    · simp only [Broadcast.advance] at h
      split at h <;> cases h
      rfl
    · cases h

/-- A task that has run waits no more for its first lock, and no delivery is spawned by another
task. -/
theorem advance_deliver (h : s.advance stalled t (s.tasks t) = some s') :
    s.next ≤ s'.next ∧
      ∀ t' target, s'.tasks t' = .deliver target → t' ≠ t ∧ s.tasks t' = .deliver target := by
  have hput : ∀ (task : Task ι), (∀ target, task ≠ .deliver target) → ∀ t' target,
      Function.update s.tasks t task t' = .deliver target →
        t' ≠ t ∧ s.tasks t' = .deliver target := by
    intro task htask t' target heq
    by_cases ht : t' = t
    · subst ht
      rw [Function.update_self] at heq
      exact absurd heq (htask target)
    · rw [Function.update_of_ne ht] at heq
      exact ⟨ht, heq⟩
  cases htask : s.tasks t with
  | deliver target =>
    simp only [htask, Broadcast.advance] at h
    split at h
    · cases h
    · split at h <;> cases h <;> exact ⟨le_rfl, hput _ (by simp)⟩
  | insert p c =>
    simp only [htask, Broadcast.advance] at h
    split at h
    · cases h
    · split at h
      · cases h
        refine ⟨Nat.le_succ _, fun t' target heq => ?_⟩
        by_cases ht : t' = s.next
        · subst ht
          simp [Broadcast.spawn, Broadcast.put] at heq
        · have hne : Function.update s.tasks t .unlockPeers t' = .deliver target := by
            simpa [Broadcast.spawn, Broadcast.put, Function.update_of_ne ht] using heq
          exact hput _ (by simp) t' target hne
      · cases h; exact ⟨le_rfl, hput _ (by simp)⟩
  | unlockPeers => rw [htask] at h; cases h; exact ⟨le_rfl, hput _ (by simp)⟩
  | done => rw [htask] at h; cases h
  | _ =>
    simp only [htask, Broadcast.advance] at h
    split at h
    · cases h
    · cases h; exact ⟨le_rfl, hput _ (by simp)⟩

/-- What has been put out says of the state: what a delivery has been spawned for, who one under way
is for, and that no task looks up twice. -/
structure Watched (s : Broadcast ι) (os : List (Observed ι)) : Prop where
  sound : Sound s
  asked : ∀ t p, s.tasks t = .deliver p → .spawned t p ∈ os
  traced : ∀ t p found, .lookup t p found ∈ os → .spawned t p ∈ os
  aimed : ∀ t c, (s.tasks t).serves = some c →
    ∃ p, .lookup t p (some c) ∈ os ∧ s.peers p = some c
  looked : ∀ t ∈ os.filterMap Observed.looker,
    t < s.next ∧ ∀ target, s.tasks t ≠ .deliver target
  once : (os.filterMap Observed.looker).Nodup

omit [DecidableEq ι] in
theorem watched_new : Watched (new : Broadcast ι) [] where
  sound := sound_new
  asked := by
    intro t p h
    cases h
  traced := by
    intro t p found h
    cases h
  aimed := by
    intro t c h
    cases h
  looked := by
    intro t h
    cases h
  once := List.nodup_nil

variable {os : List (Observed ι)}

omit [DecidableEq ι] in
theorem lookup_observed {p : ParticipantId} {found : Option ι} {t' : Nat}
    (h : .lookup t' p found ∈ s.observed a) : a = .run t' ∧ s.tasks t' = .deliver p := by
  cases a with
  | spawn task => cases task <;> simp [observed] at h
  | run t => cases htask : s.tasks t <;> simp_all [observed]

omit [DecidableEq ι] in
theorem looker_observed (s : Broadcast ι) (t : Nat) :
    (s.observed (.run t)).filterMap Observed.looker =
      match s.tasks t with
      | .deliver _ => [t]
      | _ => [] := by
  cases htask : s.tasks t <;> simp [observed, htask, Observed.looker]

omit [DecidableEq ι] in
theorem looker_spawn (s : Broadcast ι) (task : Task ι) :
    (os ++ s.observed (.spawn task)).filterMap Observed.looker =
      os.filterMap Observed.looker := by
  cases task <;> simp [observed, Observed.looker]

omit [DecidableEq ι] in
theorem Watched.spawn {task : Task ι} (hw : Watched s os) (hstart : task.Starts) :
    Watched (s.spawn task) (os ++ s.observed (.spawn task)) where
  sound := hw.sound.spawn hstart
  asked := by
    intro t p h
    by_cases ht : t = s.next
    · subst ht
      simp only [Broadcast.spawn, Function.update_self] at h
      subst h
      exact List.mem_append_right _ List.mem_cons_self
    · simp only [Broadcast.spawn, Function.update_of_ne ht] at h
      exact List.mem_append_left _ (hw.asked t p h)
  traced := by
    intro t p found h
    rcases List.mem_append.mp h with h | h
    · exact List.mem_append_left _ (hw.traced t p found h)
    · cases (lookup_observed h).1
  aimed := by
    intro t c h
    rw [serves_spawn hw.sound task hstart] at h
    obtain ⟨p, hmem, hpeer⟩ := hw.aimed t c h
    exact ⟨p, List.mem_append_left _ hmem, hpeer⟩
  looked := by
    intro t ht
    rw [looker_spawn] at ht
    obtain ⟨hlt, hnot⟩ := hw.looked t ht
    have hne : t ≠ s.next := Nat.ne_of_lt hlt
    refine ⟨Nat.lt_succ_of_lt hlt, fun target => ?_⟩
    simpa [Broadcast.spawn, Function.update_of_ne hne] using hnot target
  once := by
    rw [looker_spawn]
    exact hw.once

/-- The sink of a delivery under way stays in the map. -/
theorem Watched.kept (hw : Watched s os) (h : s.advance stalled t (s.tasks t) = some s') {t' : Nat}
    (hserves : (s.tasks t').serves = some c) :
    ∃ p, .lookup t' p (some c) ∈ os ++ s.observed (.run t) ∧ s'.peers p = some c := by
  obtain ⟨p, hmem, hpeer⟩ := hw.aimed t' c hserves
  have hlock := (hw.sound.peersHeld t').mpr (holdsPeers_of_serves hserves)
  refine ⟨p, List.mem_append_left _ hmem, ?_⟩
  rw [advance_peers (by rw [hlock]; exact Option.some_ne_none t') h]
  exact hpeer

theorem Watched.advance (hw : Watched s os) (h : s.advance stalled t (s.tasks t) = some s') :
    Watched s' (os ++ s.observed (.run t)) := by
  have hserves := serves_advance hw.sound h
  obtain ⟨hnext, hdeliver⟩ := advance_deliver h
  have hlt : t < s.next := by
    by_contra hge
    rw [hw.sound.fresh t (Nat.le_of_not_lt hge)] at h
    cases h
  refine ⟨hw.sound.advance h, fun t' p htask => ?_, fun t' p found hmem => ?_, fun t' c hc => ?_,
    fun t' ht' => ?_, ?_⟩
  · exact List.mem_append_left _ (hw.asked t' p (hdeliver t' p htask).2)
  · rcases List.mem_append.mp hmem with hmem | hmem
    · exact List.mem_append_left _ (hw.traced t' p found hmem)
    · exact List.mem_append_left _ (hw.asked t' p (lookup_observed hmem).2)
  · rw [hserves t'] at hc
    split at hc
    · rename_i heq
      subst heq
      cases htask : s.tasks t' with
      | deliver target =>
        -- it has just looked its target up
        rw [htask] at hc
        have hpeer : s.peers target = some c := hc
        refine ⟨target, List.mem_append_right _ ?_, ?_⟩
        · simp only [observed, htask, hpeer, List.mem_singleton]
        · simp only [htask, Broadcast.advance, hpeer] at h
          split at h
          · cases h
          · cases h
            exact hpeer
      | deliverLock c' => exact hw.kept h (by rw [htask]; rw [htask] at hc; exact hc)
      | _ => rw [htask] at hc; cases hc
    · exact hw.kept h hc
  · have hafter : ∀ target, s'.tasks t' ≠ .deliver target := by
      intro target htarget
      obtain ⟨hne, hbefore⟩ := hdeliver t' target htarget
      rw [List.filterMap_append, List.mem_append, looker_observed] at ht'
      rcases ht' with ht' | ht'
      · exact (hw.looked t' ht').2 target hbefore
      · split at ht'
        · exact hne (List.mem_singleton.mp ht')
        · cases ht'
    refine ⟨?_, hafter⟩
    rw [List.filterMap_append, List.mem_append, looker_observed] at ht'
    rcases ht' with ht' | ht'
    · exact Nat.lt_of_lt_of_le (hw.looked t' ht').1 hnext
    · split at ht'
      · rw [List.mem_singleton.mp ht']
        exact Nat.lt_of_lt_of_le hlt hnext
      · cases ht'
  · rw [List.filterMap_append, looker_observed]
    split
    · rename_i target htask
      rw [List.nodup_append]
      refine ⟨hw.once, List.nodup_singleton t, ?_⟩
      rintro x hx y hy rfl
      rw [List.mem_singleton.mp hy] at hx
      exact (hw.looked t hx).2 target htask
    · rw [List.append_nil]
      exact hw.once

theorem watched_of_run {as : List (BroadcastCall ι)}
    (hr : Machine.Runs (observe stalled) new as os s) : Watched s os := by
  refine hr.history (I := fun s _ os => Watched s os) watched_new ?_
  intro s as os a s' o _ hw h
  rcases observe_cases h with ⟨task, -, hstart, rfl, rfl⟩ | ⟨t, -, hadv, rfl⟩
  · exact hw.spawn hstart
  · exact hw.advance hadv

/-- Everyone is registered, or about to be, under the participant id that `owner` gives. -/
structure Registered (owner : ι → ParticipantId) (s : Broadcast ι) : Prop where
  peers : ∀ p c, s.peers p = some c → owner c = p
  inserts : ∀ t p c, s.tasks t = .insert p c → owner c = p

variable {owner : ι → ParticipantId}

omit [DecidableEq ι] in
theorem Registered.spawn {task : Task ι} (hr : Registered owner s)
    (h : ∀ p c, task = .insert p c → owner c = p) : Registered owner (s.spawn task) where
  peers := hr.peers
  inserts := by
    intro t p c htask
    by_cases ht : t = s.next
    · subst ht
      simp only [Broadcast.spawn, Function.update_self] at htask
      exact h p c htask
    · simp only [Broadcast.spawn, Function.update_of_ne ht] at htask
      exact hr.inserts t p c htask

omit [DecidableEq ι] in
theorem Registered.put {task : Task ι} {peers : PeerMap ι} {peersLock : Option Nat}
    {sinkLock : ι → Option Nat} (hr : Registered owner s) (htask : ∀ p c, task ≠ .insert p c)
    (hpeers : ∀ p c, peers p = some c → owner c = p) :
    Registered owner ({ s with peers, peersLock, sinkLock }.put t task) where
  peers := hpeers
  inserts := by
    intro t' p c h
    by_cases ht : t' = t
    · subst ht
      simp only [Broadcast.put, Function.update_self] at h
      exact absurd h (htask p c)
    · simp only [Broadcast.put, Function.update_of_ne ht] at h
      exact hr.inserts t' p c h

omit [DecidableEq ι] in
theorem Registered.removed (hr : Registered owner s) (p : ParticipantId) :
    ∀ p' c, s.peers.remove p p' = some c → owner c = p' := by
  intro p' c h
  by_cases hp : p' = p
  · rw [PeerMap.remove, hp, Function.update_self] at h
    cases h
  · rw [PeerMap.remove, Function.update_of_ne hp] at h
    exact hr.peers p' c h

theorem Registered.removedIfSame (hr : Registered owner s) (p : ParticipantId) (c : ι) :
    ∀ p' c', s.peers.removeIfSame p c p' = some c' → owner c' = p' := by
  intro p' c' h
  cases hcurrent : s.peers p with
  | none =>
    simp only [PeerMap.removeIfSame, hcurrent] at h
    exact hr.peers p' c' h
  | some current =>
    simp only [PeerMap.removeIfSame, hcurrent] at h
    split at h
    · exact hr.removed p p' c' h
    · exact hr.peers p' c' h

theorem Registered.advance (hr : Registered owner s)
    (h : s.advance stalled t (s.tasks t) = some s') : Registered owner s' := by
  cases htask : s.tasks t with
  | deliver target =>
    simp only [htask, Broadcast.advance] at h
    split at h
    · cases h
    · split at h <;> cases h <;> exact hr.put (by simp) hr.peers
  | insert p c =>
    have hinserted : ∀ p' c', (s.peers.insert p c).1 p' = some c' → owner c' = p' := by
      intro p' c' heq
      by_cases hp : p' = p
      · simp only [PeerMap.insert, hp, Function.update_self] at heq
        cases heq
        rw [hp]
        exact hr.inserts t p c htask
      · simp only [PeerMap.insert, Function.update_of_ne hp] at heq
        exact hr.peers p' c' heq
    simp only [htask, Broadcast.advance] at h
    split at h
    · cases h
    · split at h <;> cases h
      · exact (hr.put (by simp) hinserted).spawn (by simp)
      · exact hr.put (by simp) hinserted
  | remove p =>
    simp only [htask, Broadcast.advance] at h
    split at h <;> cases h
    exact hr.put (by simp) (hr.removed p)
  | removeIfSame p c =>
    simp only [htask, Broadcast.advance] at h
    split at h <;> cases h
    refine hr.put (by simp) fun p' c' heq => ?_
    exact hr.removedIfSame p c p' c' heq
  | unlockPeers => rw [htask] at h; cases h; exact hr.put (by simp) hr.peers
  | done => rw [htask] at h; cases h
  | _ =>
    simp only [htask, Broadcast.advance] at h
    split at h
    · cases h
    · cases h; exact hr.put (by simp) hr.peers

theorem registered_of_run {as : List (BroadcastCall ι)}
    (hreg : ∀ p c, .spawn (.insert p c) ∈ as → owner c = p)
    (hr : Machine.Runs (observe stalled) new as os s) : Registered owner s := by
  have hnew : Registered owner (new : Broadcast ι) := by
    refine ⟨fun p c h => ?_, fun t p c h => ?_⟩ <;> cases h
  refine (hr.outputs_of (Q := fun a => ∀ p c, a = .spawn (.insert p c) → owner c = p)
    (O := fun _ => True) ?_ (fun a ha p c h => hreg p c (h ▸ ha)) hnew).1
  intro s a s' o hs hq h
  refine ⟨?_, fun _ _ => trivial⟩
  rcases observe_cases h with ⟨task, rfl, -, rfl, -⟩ | ⟨t, rfl, hadv, -⟩
  · exact hs.spawn fun p c htask => hq p c (by rw [htask])
  · exact hs.advance hadv

theorem written_observed (h : observe stalled s a = some (s', o)) {before after : List (Observed ι)}
    (ho : o = before ++ .written t c :: after) :
    before = [] ∧ after = [] ∧ s.tasks t = .deliverSend c := by
  have hsingle : ∀ (x : Observed ι), [x] = before ++ .written t c :: after →
      before = [] ∧ after = [] ∧ x = .written t c := by
    intro x hx
    cases before with
    | nil => cases hx; exact ⟨rfl, rfl, rfl⟩
    | cons y before => simp at hx
  rcases observe_cases h with ⟨task, -, -, -, hout⟩ | ⟨t', -, -, hout⟩
  · rw [ho] at hout
    cases task with
    | deliver target => cases (hsingle _ hout.symm).2.2
    | _ => simp [observed] at hout
  · rw [ho] at hout
    cases htask : s.tasks t' with
    | deliver target =>
      simp only [observed, htask] at hout
      cases (hsingle _ hout.symm).2.2
    | deliverSend c' =>
      simp only [observed, htask] at hout
      obtain ⟨hbefore, hafter, heq⟩ := hsingle _ hout.symm
      cases heq
      exact ⟨hbefore, hafter, htask⟩
    | _ => simp [observed, htask] at hout

omit [DecidableEq ι] in
theorem found_sublist (os : List (Observed ι)) :
    ((os.flatMap Observed.found).map Prod.fst).Sublist (os.filterMap Observed.looker) := by
  induction os with
  | nil => exact List.nil_sublist []
  | cons x os ih =>
    rw [List.flatMap_cons, List.map_append]
    cases x with
    | spawned t p => exact ih
    | written t c => exact ih
    | lookup t p found =>
      cases found with
      | none => exact ih.cons t
      | some c => exact ih.cons_cons t

omit [DecidableEq ι] in
theorem underway_length (s : Broadcast ι) : s.underway.length ≤ 1 := by
  unfold underway
  split
  · cases (s.tasks _).serves <;> simp
  · simp

/-- In every run of the spawned tasks, whatever order they run in: the messages are written one
after the other as they looked their targets up, with at most one not yet written; no message is
written twice; and one is written to the connection that `send_to` was called for, which the map
has for its target at that moment. -/
theorem deliveries_in_order {as : List (BroadcastCall ι)}
    (hreg : ∀ p c, .spawn (.insert p c) ∈ as → owner c = p)
    (hr : Machine.Runs (observe stalled) new as os s) :
    os.flatMap Observed.wrote ++ s.underway = os.flatMap Observed.found ∧
    s.underway.length ≤ 1 ∧ ((os.flatMap Observed.wrote).map Prod.fst).Nodup ∧
    ∀ before after t c, os = before ++ .written t c :: after →
      ∃ bs s₁, bs <+: as ∧ Machine.Runs (observe stalled) new bs before s₁ ∧
        .spawned t (owner c) ∈ before ∧ .lookup t (owner c) (some c) ∈ before ∧
        s₁.peers (owner c) = some c := by
  have hfifo : os.flatMap Observed.wrote ++ s.underway = os.flatMap Observed.found := by
    have hrun : os.flatMap Observed.wrote ++ s.underway =
        (new : Broadcast ι).underway ++ os.flatMap Observed.found :=
      hr.fifo (I := Sound) (fun _ _ _ _ => observe_sound) (fun _ _ _ _ => observe_fifo) sound_new
    rw [hrun]
    rfl
  have hw := watched_of_run hr
  refine ⟨hfifo, underway_length s, ?_, ?_⟩
  · have hfound : ((os.flatMap Observed.found).map Prod.fst).Nodup :=
      (found_sublist os).nodup hw.once
    rw [← hfifo, List.map_append] at hfound
    exact (List.nodup_append.mp hfound).1
  · intro before after t c hos
    obtain ⟨bs, pre, s₁, a, o₁, o₂, s₂, cs, post, hr₁, ha, -, rfl, -, rfl⟩ :=
      hr.split_at_output hos
    obtain ⟨rfl, -, htask⟩ := written_observed ha rfl
    rw [List.append_nil]
    obtain ⟨p, hlookup, hpeer⟩ := (watched_of_run hr₁).aimed t c (by rw [htask]; rfl)
    have howner : owner c = p := (registered_of_run
      (fun p c h => hreg p c (List.mem_append_left _ h)) hr₁).peers p c hpeer
    subst howner
    exact ⟨bs, s₁, List.prefix_append _ _, hr₁, (watched_of_run hr₁).traced t _ _ hlookup, hlookup, hpeer⟩

end Steps

/-- Two participants with a connection each, and a message for both; the second is looked up first,
and the first has to wait for the peers lock. -/
def twoMessages : List (BroadcastCall Bool) :=
  [.spawn (.insert ⟨1⟩ true), .run 0, .run 0, .spawn (.insert ⟨2⟩ false), .run 1, .run 1,
    .spawn (.deliver ⟨1⟩), .spawn (.deliver ⟨2⟩), .run 3, .run 3, .run 3, .run 2, .run 2, .run 2]

def twoOwners (c : Bool) : ParticipantId := if c then ⟨1⟩ else ⟨2⟩

theorem deliveries_in_order_two_messages :
    ∃ s os, Machine.Runs (observe fun _ => false) new twoMessages os s ∧
      os.flatMap Observed.wrote = [(3, false), (2, true)] ∧
      os.flatMap Observed.wrote ++ s.underway = os.flatMap Observed.found ∧
      ∃ before after, os = before ++ .written 2 true :: after ∧
        .lookup 2 ⟨1⟩ (some true) ∈ before := by
  have hrun : ∃ s os, Machine.Runs (observe fun _ => false) new twoMessages os s ∧
      os.flatMap Observed.wrote = [(3, false), (2, true)] ∧
      ∃ before, os = before ++ [.written 2 true] :=
    ⟨_, _, Machine.run_sound rfl, rfl,
      [.spawned 2 ⟨1⟩, .spawned 3 ⟨2⟩, .lookup 3 ⟨2⟩ (some false), .written 3 false,
        .lookup 2 ⟨1⟩ (some true)], rfl⟩
  obtain ⟨s, os, hr, hwrote, before, hos⟩ := hrun
  have hreg : ∀ p c, .spawn (.insert p c) ∈ twoMessages → twoOwners c = p := by
    intro p c h
    simp only [twoMessages, List.mem_cons, BroadcastCall.spawn.injEq, reduceCtorEq, or_false,
      false_or, Task.insert.injEq, List.not_mem_nil] at h
    rcases h with ⟨rfl, rfl⟩ | ⟨rfl, rfl⟩ <;> rfl
  have horder := deliveries_in_order hreg hr
  obtain ⟨bs, s₁, -, -, -, hlookup, -⟩ := horder.2.2.2 before [] 2 true hos
  exact ⟨s, os, hr, hwrote, horder.1, before, [], hos, hlookup⟩

end Broadcast

end Bloom
end Bakopa
