import Mathlib.Data.List.Perm.Subperm
import Bakopa.Bloom.Deliveries
import Bakopa.Bloom.Notices
import Bakopa.Bloom.RoomTexts

/-!
# Bakopa.Bloom.Sockets

The server down to its sockets: the handlers of `Handlers`, and the tasks of `Broadcast` that their
messages are spawned in.

A handler's `sink.send` spawns a send on its own sink, its `broadcast.send_to` a delivery; the text
is in the closure of the task (`mail`). The tasks run whenever their locks are free, between any two
steps of any connection. A call spawns its tasks after its last change of a room, so they are
spawned here at its end. The steps of one connection are not kept in the order of
`handle_connection`: what holds of all orders holds of those.

`sockets_private` says what a client can find on its socket.
-/

namespace Bakopa
namespace Bloom

open Lib

/-- The task a message is spawned in. -/
def Sent.task {ι : Type} (c : ι) : Sent → Task ι
  | .reply _ => .own c
  | .sendTo target _ => .deliver target

structure Sockets (ι : Type) where
  handlers : Handlers ι
  hub : Broadcast ι
  /-- What a task has to send, and the connection whose handler spawned it. -/
  mail : Nat → Option (ι × Sent)

inductive SocketCall (ι : Type) where
  | handler (a : HandlerCall ι)
  /-- `broadcast.insert` of `handle_connection`. -/
  | insert (c : ι)
  /-- `broadcast.remove_if_same` of `handle_disconnect`. -/
  | removeIfSame (c : ι)
  /-- A ping, a pong or a close frame. -/
  | frame (c : ι)
  | run (t : Nat)

def SocketCall.handlerCall {ι : Type} : SocketCall ι → Option (HandlerCall ι)
  | .handler a => some a
  | .insert _ | .removeIfSame _ | .frame _ | .run _ => none

/-- A message whose send on the socket of `conn` is over. -/
structure Written (ι : Type) where
  task : Nat
  conn : ι
  mail : ι × Sent

def Written.message {ι : Type} (w : Written ι) : ServerToClient := w.mail.2.message

def Written.entry {ι : Type} (w : Written ι) : Nat × ι × Sent := (w.task, w.mail)

namespace Sockets

variable {ι : Type}

structure Initial (s : Sockets ι) : Prop where
  handlers : s.handlers.Initial
  hub : s.hub = .new
  mail : ∀ t, s.mail t = none

def spawn (s : Sockets ι) (task : Task ι) : Sockets ι := { s with hub := s.hub.spawn task }

def post (s : Sockets ι) (x : ι × Sent) : Sockets ι :=
  { s with
    hub := s.hub.spawn (x.2.task x.1)
    mail := Function.update s.mail s.hub.next (some x) }

def written (s : Sockets ι) (t : Nat) : List (Written ι) :=
  match s.hub.tasks t with
  | .deliverSend c | .ownSend c => (s.mail t).toList.map fun x => ⟨t, c, x⟩
  | _ => []

/-- The message of a delivery that finds no socket, with its task. -/
def missed (s : Sockets ι) : SocketCall ι → List (Nat × ι × Sent)
  | .run t =>
    match s.hub.tasks t with
    | .deliver target =>
      match s.hub.peers target with
      | none => (s.mail t).toList.map (Prod.mk t)
      | some _ => []
    | _ => []
  | .handler _ | .insert _ | .removeIfSame _ | .frame _ => []

def step [DecidableEq ι] [UuidCrate] [BloomJson] (stalled : ι → Bool) :
    Machine (Sockets ι) (SocketCall ι) (Written ι)
  | s, .handler a =>
    match Handlers.step s.handlers a with
    | none => none
    | some (handlers, o) => some (o.foldl post { s with handlers }, [])
  | s, .insert c => some (s.spawn (.insert (s.handlers.pid c) c), [])
  | s, .removeIfSame c => some (s.spawn (.removeIfSame (s.handlers.pid c) c), [])
  | s, .frame c => some (s.spawn (.own c), [])
  | s, .run t =>
    match s.hub.advance stalled t (s.hub.tasks t) with
    | none => none
    | some hub => some ({ s with hub }, s.written t)

end Sockets

/-- The task after its next step. -/
def Task.after {ι : Type} (peers : PeerMap ι) : Task ι → Task ι
  | .deliver target =>
    match peers target with
    | some c => .deliverLock c
    | none => .done
  | .deliverLock c => .deliverSend c
  | .own c => .ownSend c
  | .insert _ _ | .remove _ | .removeIfSame _ _ => .unlockPeers
  | .deliverSend _ | .ownSend _ | .unlockPeers | .done => .done

/-- The task is one that sends `x`: to a sink of its target, or to the sender's own. -/
def Task.Sends {ι : Type} (owner : ι → ParticipantId) (x : ι × Sent) (task : Task ι) : Prop :=
  match x.2, task with
  | _, .done => True
  | .sendTo target _, .deliver p => p = target
  | .sendTo target _, .deliverLock c | .sendTo target _, .deliverSend c => owner c = target
  | .reply _, .own c | .reply _, .ownSend c => c = x.1
  | _, _ => False

namespace Broadcast

variable {ι : Type} [DecidableEq ι] {s s' : Broadcast ι} {t : Nat} {stalled : ι → Bool}

theorem advance_form (h : s.advance stalled t (s.tasks t) = some s') :
    s.tasks t ≠ .done ∧ ∃ (peers : PeerMap ι) (peersLock : Option Nat) (sinkLock : ι → Option Nat),
      s' = { s with peers, peersLock, sinkLock }.put t ((s.tasks t).after s.peers) ∨
      ∃ p c old, s.tasks t = .insert p c ∧
        s' = ({ s with peers, peersLock, sinkLock }.put t .unlockPeers).spawn (.own old) := by
  cases htask : s.tasks t with
  | deliver target =>
    refine ⟨by simp, ?_⟩
    simp only [htask, Broadcast.advance] at h
    split at h
    · cases h
    · cases hpeer : s.peers target with
      | none =>
        simp only [hpeer] at h
        cases h
        exact ⟨_, _, _, .inl (by simp only [Task.after, hpeer]; rfl)⟩
      | some c =>
        simp only [hpeer] at h
        cases h
        exact ⟨_, _, _, .inl (by simp only [Task.after, hpeer]; rfl)⟩
  | insert p c =>
    refine ⟨by simp, ?_⟩
    simp only [htask, Broadcast.advance] at h
    split at h
    · cases h
    · split at h
      · cases h
        exact ⟨_, _, _, .inr ⟨p, c, _, rfl, rfl⟩⟩
      · cases h
        exact ⟨_, _, _, .inl rfl⟩
  | done => rw [htask] at h; cases h
  | unlockPeers =>
    rw [htask] at h
    cases h
    exact ⟨by simp, _, _, _, .inl rfl⟩
  | _ =>
    refine ⟨by simp, ?_⟩
    simp only [htask, Broadcast.advance] at h
    split at h
    · cases h
    · cases h
      exact ⟨_, _, _, .inl rfl⟩

theorem lt_next_of_advance (hs : Sound s) (h : s.advance stalled t (s.tasks t) = some s') :
    t < s.next := by
  by_contra hge
  exact (advance_form h).1 (hs.fresh t (Nat.le_of_not_lt hge))

theorem advance_tasks (hs : Sound s) (h : s.advance stalled t (s.tasks t) = some s') :
    s.tasks t ≠ .done ∧ s'.tasks t = (s.tasks t).after s.peers ∧ s.next ≤ s'.next ∧
      ∀ t', t' ≠ t → t' < s.next → s'.tasks t' = s.tasks t' := by
  have hlt := lt_next_of_advance hs h
  obtain ⟨hrunning, peers, peersLock, sinkLock, hform⟩ := advance_form h
  refine ⟨hrunning, ?_⟩
  rcases hform with rfl | ⟨p, c, old, htask, rfl⟩
  · refine ⟨Function.update_self .., le_rfl, fun t' ht _ => ?_⟩
    exact Function.update_of_ne ht ..
  · have hne : t ≠ s.next := Nat.ne_of_lt hlt
    refine ⟨?_, Nat.le_succ _, fun t' ht hlt' => ?_⟩
    · simp [Broadcast.spawn, Broadcast.put, Function.update_of_ne hne, htask, Task.after]
    · simp [Broadcast.spawn, Broadcast.put, Function.update_of_ne (Nat.ne_of_lt hlt'),
        Function.update_of_ne ht]

end Broadcast

namespace Task

variable {ι : Type} {owner : ι → ParticipantId} {x : ι × Sent} {task : Task ι}

theorem sends_task (owner : ι → ParticipantId) (x : ι × Sent) :
    Task.Sends owner x (x.2.task x.1) := by
  obtain ⟨c, sent⟩ := x
  cases sent with
  | reply message => exact rfl
  | sendTo target message => exact rfl

theorem Sends.after {peers : PeerMap ι} (h : Task.Sends owner x task)
    (hpeers : ∀ p c, peers p = some c → owner c = p) :
    Task.Sends owner x (task.after peers) := by
  obtain ⟨c, sent⟩ := x
  cases sent with
  | reply message =>
    cases task with
    | own c' => exact h
    | ownSend c' => trivial
    | done => trivial
    | _ => exact h.elim
  | sendTo target message =>
    cases task with
    | deliver p =>
      have htarget : p = target := h
      subst htarget
      simp only [Task.after]
      cases hpeer : peers p with
      | none => trivial
      | some c' => exact hpeers p c' hpeer
    | deliverLock c' => exact h
    | deliverSend c' => trivial
    | done => trivial
    | _ => exact h.elim

end Task

/-! ## What is written -/

namespace Sockets

variable {ι : Type}

def forSocket [DecidableEq ι] (owner : ι → ParticipantId) (c : ι) :
    ι × Sent → Option ServerToClient
  | (d, .reply message) => if d = c then some message else none
  | (_, .sendTo target message) => if target = owner c then some message else none

/-- Each message handed out is the mail of one task, which sends it; a task that is done has
written its mail, where it was for, or has found no socket. -/
structure Carries [DecidableEq ι] (owner : ι → ParticipantId) (handed : List (ι × Sent))
    (ws : List (Written ι)) (lost : List (Nat × ι × Sent)) (s : Sockets ι) : Prop where
  sound : Broadcast.Sound s.hub
  registered : Broadcast.Registered owner s.hub
  fresh : ∀ t, s.hub.next ≤ t → s.mail t = none
  posted : ∃ ps : List (Nat × ι × Sent), ps.map Prod.snd = handed ∧ ps.Nodup ∧
    ∀ x, x ∈ ps ↔ s.mail x.1 = some x.2
  sends : ∀ t x, s.mail t = some x → Task.Sends owner x (s.hub.tasks t)
  finished : ∀ x, x ∈ ws.map Written.entry ++ lost ↔
    s.mail x.1 = some x.2 ∧ s.hub.tasks x.1 = .done
  once : (ws.map Written.entry ++ lost).Nodup
  placed : ∀ w ∈ ws, forSocket owner w.conn w.mail = some w.message
  missing : ∀ x ∈ lost, ∃ target message, x.2.2 = .sendTo target message

section Steps

variable [DecidableEq ι] {owner : ι → ParticipantId} {handed : List (ι × Sent)}
  {ws : List (Written ι)} {lost : List (Nat × ι × Sent)} {s : Sockets ι} {stalled : ι → Bool}

theorem Carries.lt_next (h : Carries owner handed ws lost s) {t : Nat} {x : ι × Sent}
    (hx : s.mail t = some x) : t < s.hub.next := by
  by_contra hge
  rw [h.fresh t (Nat.le_of_not_lt hge)] at hx
  cases hx

theorem Carries.spawn {task : Task ι} (h : Carries owner handed ws lost s) (hstart : task.Starts)
    (hinsert : ∀ p c, task = .insert p c → owner c = p) :
    Carries owner handed ws lost (s.spawn task) where
  sound := h.sound.spawn hstart
  registered := h.registered.spawn hinsert
  fresh := fun t ht => h.fresh t (Nat.le_of_succ_le ht)
  posted := h.posted
  sends := by
    intro t x hx
    have hne : t ≠ s.hub.next := Nat.ne_of_lt (h.lt_next hx)
    simpa [Sockets.spawn, Broadcast.spawn, Function.update_of_ne hne] using h.sends t x hx
  finished := by
    intro x
    rw [h.finished]
    refine and_congr_right fun hx => ?_
    have hne : x.1 ≠ s.hub.next := Nat.ne_of_lt (h.lt_next hx)
    simp [Sockets.spawn, Broadcast.spawn, Function.update_of_ne hne]
  once := h.once
  placed := h.placed
  missing := h.missing

omit [DecidableEq ι] in
theorem post_mail (s : Sockets ι) (x : ι × Sent) {t : Nat} {y : ι × Sent} :
    (s.post x).mail t = some y ↔ t = s.hub.next ∧ y = x ∨ t ≠ s.hub.next ∧ s.mail t = some y := by
  by_cases ht : t = s.hub.next
  · subst ht
    simp [Sockets.post, eq_comm]
  · simp [Sockets.post, ht]

theorem Carries.post (h : Carries owner handed ws lost s) (x : ι × Sent) :
    Carries owner (handed ++ [x]) ws lost (s.post x) := by
  have hstart : (x.2.task x.1).Starts := by
    cases x.2 <;> trivial
  have hnone := h.fresh s.hub.next le_rfl
  have hspawned := h.spawn hstart (by cases x.2 <;> simp [Sent.task])
  refine ⟨hspawned.sound, hspawned.registered, fun t ht => ?_, ?_, fun t y hy => ?_,
    fun y => ?_, h.once, h.placed, h.missing⟩
  · have hlt : s.hub.next < t := ht
    simp only [Sockets.post, Function.update_of_ne (Nat.ne_of_gt hlt)]
    exact h.fresh t (Nat.le_of_lt hlt)
  · obtain ⟨ps, hps, hnodup, hmem⟩ := h.posted
    have hfresh : (s.hub.next, x) ∉ ps := by
      rw [hmem]
      simp [hnone]
    refine ⟨ps ++ [(s.hub.next, x)], by rw [List.map_append, hps]; rfl, ?_, fun y => ?_⟩
    · exact hnodup.append (List.nodup_singleton _) (by simpa using hfresh)
    · rw [post_mail, List.mem_append, List.mem_singleton, hmem, Prod.ext_iff]
      constructor
      · rintro (hy | hy)
        · exact .inr ⟨Nat.ne_of_lt (h.lt_next hy), hy⟩
        · exact .inl hy
      · rintro (hy | ⟨-, hy⟩)
        · exact .inr hy
        · exact .inl hy
  · rcases (post_mail s x).mp hy with ⟨rfl, rfl⟩ | ⟨-, hy⟩
    · simpa [Sockets.post, Broadcast.spawn] using Task.sends_task owner y
    · exact hspawned.sends t y hy
  · rw [hspawned.finished, post_mail]
    by_cases hy : y.1 = s.hub.next
    · -- the new task is not done
      have hrunning : (s.post x).hub.tasks y.1 ≠ .done := by
        rw [hy]
        cases hx : x.2 <;> simp [Sockets.post, Broadcast.spawn, Sent.task, hx]
      exact iff_of_false (fun hd => hrunning hd.2) fun hd => hrunning hd.2
    · simp only [hy, false_and, false_or, ne_eq, not_false_eq_true, true_and]
      rfl

theorem Carries.foldl_post (h : Carries owner handed ws lost s) (o : List (ι × Sent)) :
    Carries owner (handed ++ o) ws lost (o.foldl Sockets.post s) := by
  induction o generalizing s handed with
  | nil =>
    rw [List.append_nil]
    exact h
  | cons x o ih =>
    rw [List.append_cons]
    exact ih (h.post x)

omit [DecidableEq ι] in
theorem foldl_post_handlers (s : Sockets ι) (o : List (ι × Sent)) :
    (o.foldl Sockets.post s).handlers = s.handlers := by
  induction o generalizing s with
  | nil => rfl
  | cons x o ih => exact ih (s.post x)

omit [DecidableEq ι] in
theorem mem_written {t : Nat} {w : Written ι} (h : w ∈ s.written t) :
    w.task = t ∧ s.mail t = some w.mail ∧
      (s.hub.tasks t = .deliverSend w.conn ∨ s.hub.tasks t = .ownSend w.conn) := by
  unfold written at h
  split at h
  · rename_i c htask
    obtain ⟨x, hx, rfl⟩ := List.mem_map.mp h
    exact ⟨rfl, Option.mem_toList.mp hx, .inl htask⟩
  · rename_i c htask
    obtain ⟨x, hx, rfl⟩ := List.mem_map.mp h
    exact ⟨rfl, Option.mem_toList.mp hx, .inr htask⟩
  · cases h

omit [DecidableEq ι] in
theorem mem_missed {a : SocketCall ι} {x : Nat × ι × Sent} (h : x ∈ s.missed a) :
    a = .run x.1 ∧ s.mail x.1 = some x.2 ∧ ∃ target, s.hub.tasks x.1 = .deliver target := by
  cases a with
  | run t =>
    simp only [missed] at h
    split at h
    · rename_i target htask
      split at h
      · obtain ⟨y, hy, rfl⟩ := List.mem_map.mp h
        exact ⟨rfl, Option.mem_toList.mp hy, target, htask⟩
      · cases h
    · cases h
  | _ => cases h

theorem forSocket_of_sends {c : ι} {x : ι × Sent} {task : Task ι} (h : Task.Sends owner x task)
    (htask : task = .deliverSend c ∨ task = .ownSend c) :
    forSocket owner c x = some x.2.message := by
  obtain ⟨d, sent⟩ := x
  cases sent with
  | reply message =>
    rcases htask with rfl | rfl
    · exact h.elim
    · exact if_pos (Eq.symm h)
  | sendTo target message =>
    rcases htask with rfl | rfl
    · exact if_pos (Eq.symm h)
    · exact h.elim

theorem Carries.entries (h : Carries owner handed ws lost s) {t : Nat}
    (hrunning : s.hub.tasks t ≠ .done) :
    (s.written t).map Written.entry ++ s.missed (.run t) =
      if (s.hub.tasks t).after s.hub.peers = .done then (s.mail t).toList.map (Prod.mk t)
      else [] := by
  cases hmail : s.mail t with
  | none =>
    cases htask : s.hub.tasks t with
    | deliver target => cases hpeer : s.hub.peers target <;> simp [written, missed, *]
    | _ => simp [written, missed, htask, hmail]
  | some x =>
    have hsends := h.sends t x hmail
    cases htask : s.hub.tasks t with
    | deliver target =>
      cases hpeer : s.hub.peers target <;> simp [written, missed, Task.after, *]
    | unlockPeers =>
      -- no message is sent by a task that registers
      rw [htask] at hsends
      obtain ⟨c, sent⟩ := x
      cases sent <;> exact hsends.elim
    | done => exact absurd htask hrunning
    | _ => simp [written, missed, Written.entry, Task.after, htask, hmail]

theorem Carries.run {t : Nat} {hub : Broadcast ι} (h : Carries owner handed ws lost s)
    (hadv : s.hub.advance stalled t (s.hub.tasks t) = some hub) :
    Carries owner handed (ws ++ s.written t) (lost ++ s.missed (.run t)) { s with hub } := by
  obtain ⟨hrunning, hafter, hnext, hothers⟩ := Broadcast.advance_tasks h.sound hadv
  have hentries := h.entries hrunning
  have hnew : ∀ x, x ∈ (s.written t).map Written.entry ++ s.missed (.run t) ↔
      x.1 = t ∧ s.mail x.1 = some x.2 ∧ hub.tasks x.1 = .done := by
    intro x
    rw [hentries, ← hafter]
    split
    · rename_i hdone
      rw [List.mem_map]
      constructor
      · rintro ⟨y, hy, rfl⟩
        exact ⟨rfl, Option.mem_toList.mp hy, hdone⟩
      · rintro ⟨rfl, hx, -⟩
        exact ⟨x.2, Option.mem_toList.mpr hx, rfl⟩
    · rename_i hdone
      refine iff_of_false List.not_mem_nil ?_
      rintro ⟨rfl, -, hx⟩
      exact hdone hx
  have hperm : ((ws ++ s.written t).map Written.entry ++ (lost ++ s.missed (.run t))).Perm
      ((ws.map Written.entry ++ lost) ++
        ((s.written t).map Written.entry ++ s.missed (.run t))) := by
    rw [List.map_append]
    simp only [List.append_assoc]
    refine List.Perm.append_left _ ?_
    simp only [← List.append_assoc]
    exact List.Perm.append_right _ List.perm_append_comm
  refine ⟨h.sound.advance hadv, h.registered.advance hadv, fun t' ht' => ?_, h.posted,
    fun t' x hx => ?_, fun x => ?_, ?_, fun w hw => ?_, fun x hx => ?_⟩
  · exact h.fresh t' (Nat.le_trans hnext ht')
  · by_cases ht : t' = t
    · subst ht
      rw [hafter]
      exact (h.sends t' x hx).after h.registered.peers
    · rw [hothers t' ht (h.lt_next hx)]
      exact h.sends t' x hx
  · rw [hperm.mem_iff, List.mem_append, hnew, h.finished]
    by_cases ht : x.1 = t
    · rw [ht]
      simp [hrunning]
    · simp only [ht, false_and, or_false]
      refine and_congr_right fun hx => ?_
      rw [hothers x.1 ht (h.lt_next hx)]
  · rw [hperm.nodup_iff]
    refine h.once.append ?_ fun x hx hx' => ?_
    · rw [hentries]
      split
      · cases s.mail t <;> simp
      · exact List.nodup_nil
    · obtain ⟨rfl, -, -⟩ := (hnew x).mp hx'
      exact hrunning ((h.finished x).mp hx).2
  · rcases List.mem_append.mp hw with hw | hw
    · exact h.placed w hw
    · obtain ⟨-, hmail, htask⟩ := mem_written hw
      exact forSocket_of_sends (h.sends t w.mail hmail) htask
  · rcases List.mem_append.mp hx with hx | hx
    · exact h.missing x hx
    · obtain ⟨-, hmail, target, htask⟩ := mem_missed hx
      have hsends := h.sends x.1 x.2 hmail
      rw [htask] at hsends
      obtain ⟨t', c, sent⟩ := x
      cases sent with
      | reply message => exact hsends.elim
      | sendTo target message => exact ⟨target, message, rfl⟩

end Steps

section Runs

variable [DecidableEq ι] [UuidCrate] [BloomJson] {s₀ s s' : Sockets ι} {a : SocketCall ι}
  {as : List (SocketCall ι)} {ws o : List (Written ι)} {owner : ι → ParticipantId}
  {handed : List (ι × Sent)} {lost : List (Nat × ι × Sent)} {stalled : ι → Bool}

theorem handlers_pid {s s' : Handlers ι} {as : List (HandlerCall ι)} {os : List (ι × Sent)}
    (hr : Machine.Runs Handlers.step s as os s') : s'.pid = s.pid := by
  induction hr with
  | nil => rfl
  | cons ha _ ih => exact ih.trans (Handlers.step_took ha).pid

/-- A step of the whole is one of the handlers or of a task. -/
theorem step_carries (h : Carries owner handed ws lost s) (howner : s.handlers.pid = owner)
    (hstep : step stalled s a = some (s', o)) :
    ∃ more, Machine.Runs Handlers.step s.handlers a.handlerCall.toList more s'.handlers ∧
      Carries owner (handed ++ more) (ws ++ o) (lost ++ s.missed a) s' := by
  have hspawn : ∀ task : Task ι, task.Starts → (∀ p c, task = .insert p c → owner c = p) →
      ∃ more, Machine.Runs Handlers.step s.handlers [] more s.handlers ∧
        Carries owner (handed ++ more) (ws ++ []) (lost ++ []) (s.spawn task) := by
    intro task hstart hinsert
    refine ⟨[], .nil, ?_⟩
    simp only [List.append_nil]
    exact h.spawn hstart hinsert
  cases a with
  | handler a =>
    simp only [step] at hstep
    split at hstep
    · cases hstep
    · rename_i handlers os hhandlers
      cases hstep
      refine ⟨os, ?_, ?_⟩
      · rw [foldl_post_handlers]
        exact .single hhandlers
      · simp only [missed, List.append_nil]
        have hkept : Carries owner handed ws lost { s with handlers } :=
          ⟨h.sound, h.registered, h.fresh, h.posted, h.sends, h.finished, h.once, h.placed,
            h.missing⟩
        exact hkept.foldl_post os
  | insert c =>
    cases hstep
    refine hspawn _ trivial fun p c' htask => ?_
    cases htask
    rw [howner]
  | removeIfSame c =>
    cases hstep
    exact hspawn _ trivial fun p c' htask => by cases htask
  | frame c =>
    cases hstep
    exact hspawn _ trivial fun p c' htask => by cases htask
  | run t =>
    simp only [step] at hstep
    split at hstep
    · cases hstep
    · rename_i hub hadv
      cases hstep
      refine ⟨[], .nil, ?_⟩
      rw [List.append_nil]
      exact h.run hadv

/-- A run of the whole is one of the handlers, with what they have handed out written, lost, or
still with the tasks; nothing is lost if each delivery finds a socket. -/
theorem carries_of_run (h₀ : s₀.Initial) (hr : Machine.Runs (step stalled) s₀ as ws s) :
    ∃ os lost, Machine.Runs Handlers.step s₀.handlers (as.filterMap SocketCall.handlerCall) os
        s.handlers ∧ Carries s₀.handlers.pid os ws lost s ∧
      (lost = [] ↔ Machine.Each (step stalled) (fun s a => s.missed a = []) s₀ as) := by
  refine hr.history (I := fun s as ws => ∃ os lost, Machine.Runs Handlers.step s₀.handlers
    (as.filterMap SocketCall.handlerCall) os s.handlers ∧ Carries s₀.handlers.pid os ws lost s ∧
      (lost = [] ↔ Machine.Each (step stalled) (fun s a => s.missed a = []) s₀ as)) ?_ ?_
  · refine ⟨[], [], .nil, ⟨?_, ?_, fun t _ => h₀.mail t, ⟨[], rfl, List.nodup_nil, fun x => ?_⟩,
      fun t x hx => ?_, fun x => ?_, List.nodup_nil, fun w hw => ?_, fun x hx => ?_⟩,
      iff_of_true rfl trivial⟩
    · rw [h₀.hub]
      exact Broadcast.sound_new
    · rw [h₀.hub]
      refine ⟨fun p c hc => ?_, fun t p c hc => ?_⟩ <;> cases hc
    · simp [h₀.mail]
    · rw [h₀.mail t] at hx
      cases hx
    · simp [h₀.mail]
    · cases hw
    · cases hx
  · rintro s as ws a s' o hruns ⟨os, lost, hhandlers, hcarries, hlost⟩ hstep
    obtain ⟨more, hmore, hcarries'⟩ := step_carries hcarries (handlers_pid hhandlers) hstep
    refine ⟨os ++ more, lost ++ s.missed a, ?_, hcarries', ?_⟩
    · rw [List.filterMap_append]
      have hlast : [a].filterMap SocketCall.handlerCall = a.handlerCall.toList := by
        cases hcall : a.handlerCall <;> simp [hcall]
      rw [hlast]
      exact hhandlers.trans hmore
    · rw [List.append_eq_nil_iff, Machine.Each.snoc_iff hruns hstep, hlost]

omit [UuidCrate] [BloomJson] in
theorem Carries.written_mail (h : Carries owner handed ws lost s) {w : Written ι} (hw : w ∈ ws) :
    s.mail w.task = some w.mail :=
  ((h.finished w.entry).mp (List.mem_append_left _ (List.mem_map_of_mem hw))).1

omit [UuidCrate] [BloomJson] in
/-- What is written on a socket is part of what was handed out for it, each message at most as
often. -/
theorem Carries.subperm (h : Carries owner handed ws lost s) (c : ι) :
    ((ws.filter fun w => w.conn = c).map Written.message).Subperm
      (handed.filterMap (forSocket owner c)) := by
  obtain ⟨ps, rfl, -, hps⟩ := h.posted
  have hnodup : ((ws.filter fun w => w.conn = c).map Written.entry).Nodup :=
    (List.filter_sublist.map Written.entry).nodup h.once.of_append_left
  have hsubset : (ws.filter fun w => w.conn = c).map Written.entry ⊆ ps := by
    intro y hy
    obtain ⟨w, hw, rfl⟩ := List.mem_map.mp hy
    exact (hps _).mpr (h.written_mail (List.mem_filter.mp hw).1)
  obtain ⟨l, hperm, hsub⟩ := hnodup.subperm hsubset
  -- read off the messages on both sides
  refine ⟨l.filterMap fun y => forSocket owner c y.2, ?_, ?_⟩
  · refine (hperm.filterMap _).trans (List.Perm.of_eq ?_)
    rw [List.filterMap_map, ← List.filterMap_eq_map]
    refine List.filterMap_congr fun w hw => ?_
    obtain ⟨hw, hc⟩ := List.mem_filter.mp hw
    have hfor := h.placed w hw
    rw [of_decide_eq_true hc] at hfor
    exact hfor
  · rw [List.filterMap_map]
    exact hsub.filterMap _

/-- What a step hands to `send_to` goes to members of the room it acts on, and a relay comes from
one. -/
theorem step_sendTo {s s' : Handlers ι} {a : HandlerCall ι} {o : List (ι × Sent)} {c : ι}
    {q : ParticipantId} {m : ServerToClient} (hs : Handlers.Tracked s)
    (h : Handlers.step s a = some (s', o)) (hm : (c, .sendTo q m) ∈ o) :
    (∃ r, s.actsOn a = some r ∧ q ∈ s'.members r) ∧
      (m.IsRelay → ∃ r, s.roomId a.conn = some r ∧ s.pid a.conn ∈ s.members r ∧
        q ∈ s.members r) := by
  obtain ⟨sent, rfl, hnotices⟩ := Handlers.step_notices hs h
  obtain ⟨m', hm', heq⟩ := List.mem_map.mp hm
  cases heq
  obtain ⟨⟨r, hroom, hq⟩, hrelay⟩ := hnotices.sendTo hm'
  refine ⟨⟨r, ?_, hq⟩, fun hm => ?_⟩
  · rcases hroom with hroom | ⟨hnone, hat⟩
    · simp only [Handlers.actsOn, hroom]
    · simp only [Handlers.actsOn, hnone, hat]
  · obtain ⟨-, -, -, r, -, -, -, hat, -, hmember, -⟩ := hrelay hm
    have hsender := hs.held a.conn r hat
    refine ⟨r, hat, hsender, ?_⟩
    have htook := Handlers.step_took h
    obtain ⟨hstay, -⟩ := hrelay hm
    have hrooms : s'.core.rooms = s.core.rooms := by
      rw [htook.rooms, hstay]
      rfl
    rwa [hrooms] at hmember

/-- Why a message may be on the socket of `c`: a step `a` of the handlers has handed it out, to the
step's own connection, or to a member of the room that it acts on; and, if it is a relay, from
another member. -/
def Entitled (s₁ s₂ : Handlers ι) (a : HandlerCall ι) (c : ι) : Sent → Prop
  | .reply _ => c = a.conn
  | .sendTo target message =>
    target = s₁.pid c ∧ (∃ r, s₁.actsOn a = some r ∧ target ∈ s₂.members r) ∧
      (message.IsRelay → ∃ r, s₁.roomId a.conn = some r ∧ s₁.pid a.conn ∈ s₁.members r ∧
        target ∈ s₁.members r)

/-- In every run of any number of connections and of the tasks they spawn, in whatever order these
run and whoever stalls: what is written on a socket is, message for message and each at most once,
what the handlers handed out for it; and whatever is written there was handed out by a step of the
connection's own handler for itself, or for its participant as a member of the room the step acted
on, a relay by another member of the same room. -/
theorem sockets_private (h₀ : s₀.Initial) (hd : Function.Injective s₀.handlers.pid)
    (hr : Machine.Runs (step stalled) s₀ as ws s) :
    ∃ os, Machine.Runs Handlers.step s₀.handlers (as.filterMap SocketCall.handlerCall) os
        s.handlers ∧
      (∀ c, ((ws.filter fun w => w.conn = c).map Written.message).Subperm
        (os.filterMap (forSocket s₀.handlers.pid c))) ∧
      ∀ w ∈ ws, ∃ bs a cs pre s₁ s₂ o,
        as.filterMap SocketCall.handlerCall = bs ++ a :: cs ∧
        Machine.Runs Handlers.step s₀.handlers bs pre s₁ ∧
        Handlers.step s₁ a = some (s₂, o) ∧ w.mail ∈ o ∧
        Entitled s₁ s₂ a w.conn w.mail.2 := by
  obtain ⟨os, lost, hhandlers, hcarries, -⟩ := carries_of_run h₀ hr
  refine ⟨os, hhandlers, hcarries.subperm, fun w hw => ?_⟩
  have hfor := hcarries.placed w hw
  have hhanded : w.mail ∈ os := by
    obtain ⟨ps, rfl, -, hps⟩ := hcarries.posted
    exact List.mem_map.mpr ⟨w.entry, (hps _).mpr (hcarries.written_mail hw), rfl⟩
  obtain ⟨before, after, hos⟩ := List.append_of_mem hhanded
  obtain ⟨bs, pre, s₁, a, o₁, o₂, s₂, cs, -, hbs, hstep, -, -, -, has⟩ :=
    hhandlers.split_at_output hos
  refine ⟨bs, a, cs, pre, s₁, s₂, _, has, hbs, hstep, by simp, ?_⟩
  have hconn := Handlers.step_conn hstep w.mail (by simp)
  have hpid : s₁.pid = s₀.handlers.pid := handlers_pid hbs
  have htracked : Handlers.Tracked s₁ := hbs.invariant
    (fun _ _ _ _ => Handlers.step_tracked) (h₀.handlers.tracked hd)
  obtain ⟨t, c, ⟨d, sent⟩⟩ := w
  cases sent with
  | reply message =>
    have hself : d = c := by
      by_contra hne
      simp [forSocket, hne] at hfor
    exact hself.symm.trans hconn
  | sendTo target message =>
    have htarget : target = s₁.pid c := by
      rw [hpid]
      by_contra hne
      simp [forSocket, hne] at hfor
    exact ⟨htarget, step_sendTo htracked hstep (List.mem_append_right _ List.mem_cons_self)⟩

end Runs

section Samples

/-- Both clients register, one makes a room and the other joins it; then the offer is delivered,
before anything else that was spawned. -/
def offerFirst : List (SocketCall Bool) :=
  [.insert true, .run 0, .run 0, .insert false, .run 1, .run 1,
    .handler (.text true 0 ⟨7⟩ Handlers.createRoomText),
    .handler (.text false 0 ⟨8⟩ Handlers.joinRoomText),
    .handler (.text true 0 ⟨8⟩ Handlers.offerText), .run 7, .run 7, .run 7]

theorem sockets_private_offer :
    let _ := hyphenated
    let _ := Handlers.relayJson
    ∃ s ws, ∃ os : List (Bool × Sent),
      Machine.Runs (step fun _ => false) ⟨Handlers.twoClients, .new, fun _ => none⟩
        offerFirst ws s ∧
      ws.map (fun w => (w.conn, w.message)) =
        [(false, .offer (ParticipantId.mk 1).toString ⟨"v=0"⟩)] ∧
      ((ws.filter fun w => w.conn = false).map Written.message).Subperm
        (os.filterMap (forSocket Handlers.twoClients.pid false)) := by
  intro _ _
  have hrun : ((Machine.run (step fun _ => false) ⟨Handlers.twoClients, .new, fun _ => none⟩
      offerFirst).map fun r => r.2.map fun w => (w.conn, w.message)) =
      some [(false, .offer (ParticipantId.mk 1).toString ⟨"v=0"⟩)] := by decide +kernel
  obtain ⟨⟨s, ws⟩, hr, hws⟩ := Option.map_eq_some_iff.mp hrun
  obtain ⟨os, -, hsub, -⟩ := sockets_private ⟨Handlers.twoClients_initial, rfl, fun _ => rfl⟩
    Handlers.twoClients_distinct (Machine.run_sound hr)
  exact ⟨s, ws, os, Machine.run_sound hr, hws, hsub false⟩

end Samples

end Sockets

end Bloom
end Bakopa
