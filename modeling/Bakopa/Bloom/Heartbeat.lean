import Bakopa.Bloom.Disconnect
import Bakopa.Lib.Windows

/-!
# Bakopa.Bloom.Heartbeat

The pings of `process_messages` in `bloom/ws/src/server.rs`: at every tick of its timer a connection
is sent a ping, and ends when the last pong is `interval * miss_allowed` ago.

A connection is heard from when it is accepted and whenever a pong comes; `heard` reads the time of
the last of these off the calls. `Beating` says that the server's `last_pong` is this time, and that
a connection has timed out exactly when some tick found it overdue (`TimedOut`). The rest follows
from the calls alone: how long a silent client is served, and that one which answers is kept.
-/

namespace Bakopa
namespace Bloom

open Lib

def pingTimeout : Nat :=
  let pingCfg : PingConfig := {}
  pingCfg.interval * pingCfg.missAllowed

def pingTimeoutClose : Wire := .close pingTimeoutCloseCode "ping timeout"

section Calls

variable {ι : Type} [DecidableEq ι]

/-- The time at which the call is heard from `c`. -/
def ServerCall.heardAt (c : ι) : ServerCall ι → Option Nat
  | .accept d now => if d = c then some now else none
  | .frame d now .pong => if d = c then some now else none
  | _ => none

def heard (c : ι) (as : List (ServerCall ι)) : Option Nat :=
  (as.filterMap (ServerCall.heardAt c)).getLast?

/-- A tick that finds `c` overdue, after the calls `pre`. -/
def Overdue (c : ι) (pre : List (ServerCall ι)) (a : ServerCall ι) : Prop :=
  ∃ now t, a = .frame c now .tick ∧ heard c pre = some t ∧ pingTimeout ≤ now - t

def TimedOut (c : ι) (as : List (ServerCall ι)) : Prop :=
  ∃ pre a post, as = pre ++ a :: post ∧ Overdue c pre a

variable {c : ι} {as : List (ServerCall ι)} {a : ServerCall ι} {t : Nat}

theorem ServerCall.heardAt_accept (now : Nat) : (ServerCall.accept c now).heardAt c = some now :=
  if_pos rfl

theorem ServerCall.heardAt_pong (now : Nat) : (ServerCall.frame c now .pong).heardAt c = some now :=
  if_pos rfl

theorem ServerCall.heardAt_eq_none (hc : c ≠ a.conn) : a.heardAt c = none := by
  cases a with
  | refuse d => rfl
  | accept d now => exact if_neg (Ne.symm hc)
  | frame d now frame =>
    cases frame with
    | pong => exact if_neg (Ne.symm hc)
    | _ => rfl
  | abnormalClose d => rfl
  | unregister d => rfl

theorem heard_snoc : heard c (as ++ [a]) = (a.heardAt c).or (heard c as) := by
  unfold heard
  rw [List.filterMap_append]
  cases ha : a.heardAt c <;> simp [ha]

theorem timedOut_snoc : TimedOut c (as ++ [a]) ↔ TimedOut c as ∨ Overdue c as a := by
  constructor
  · rintro ⟨pre, b, post, h, hover⟩
    rcases snoc_split h with ⟨rfl, rfl, rfl⟩ | ⟨rest, rfl, rfl⟩
    · exact .inr hover
    · exact .inl ⟨pre, b, rest, rfl, hover⟩
  · rintro (⟨pre, b, post, rfl, hover⟩ | hover)
    · exact ⟨pre, b, post ++ [a], by simp, hover⟩
    · exact ⟨as, a, [], rfl, hover⟩

/-- When `c` makes the call, by the clock. -/
def ServerCall.timeOf (c : ι) : ServerCall ι → Option Nat
  | .accept d now | .frame d now _ => if d = c then some now else none
  | .refuse _ | .abnormalClose _ | .unregister _ => none

/-- The clock of `c` does not go back. -/
def Clocked (c : ι) (as : List (ServerCall ι)) : Prop :=
  (as.filterMap (ServerCall.timeOf c)).Pairwise (· ≤ ·)

theorem ServerCall.timeOf_frame (now : Nat) (frame : Frame) :
    (ServerCall.frame c now frame).timeOf c = some now :=
  if_pos rfl

theorem ServerCall.timeOf_of_heardAt (h : a.heardAt c = some t) : a.timeOf c = some t := by
  cases a with
  | refuse d => cases h
  | accept d now => exact h
  | frame d now frame =>
    cases frame with
    | pong => exact h
    | _ => cases h
  | abnormalClose d => cases h
  | unregister d => cases h

theorem Clocked.of_append {as' : List (ServerCall ι)} (h : Clocked c (as ++ as')) :
    Clocked c as := by
  rw [Clocked, List.filterMap_append, List.pairwise_append] at h
  exact h.1

theorem Clocked.le {pre post : List (ServerCall ι)} {b : ServerCall ι} {x y : Nat}
    (h : Clocked c (pre ++ a :: post)) (ha : a.timeOf c = some x) (hb : b ∈ post)
    (hy : b.timeOf c = some y) : x ≤ y := by
  rw [Clocked, List.filterMap_append, List.pairwise_append, List.filterMap_cons_some ha,
    List.pairwise_cons] at h
  exact h.2.1.1 y (List.mem_filterMap.mpr ⟨b, hb, hy⟩)

theorem heard_mem (h : heard c as = some t) : ∃ b ∈ as, b.heardAt c = some t :=
  List.mem_filterMap.mp (List.mem_of_getLast? h)

theorem Clocked.le_heard (hclock : Clocked c as) (h : heard c as = some t) {b : ServerCall ι}
    {x : Nat} (hb : b ∈ as) (hx : b.heardAt c = some x) : x ≤ t := by
  induction as using List.reverseRecOn with
  | nil => cases hb
  | append_singleton as a ih =>
    rw [heard_snoc] at h
    cases ha : a.heardAt c with
    | none =>
      rw [ha, Option.none_or] at h
      rcases List.mem_append.mp hb with hb | hb
      · exact ih hclock.of_append h hb
      · rw [List.mem_singleton.mp hb, ha] at hx
        cases hx
    | some t' =>
      rw [ha, Option.some_or] at h
      cases h
      rcases List.mem_append.mp hb with hb | hb
      · obtain ⟨pre, post, rfl⟩ := List.append_of_mem hb
        rw [List.append_assoc, List.cons_append] at hclock
        exact hclock.le (ServerCall.timeOf_of_heardAt hx) (List.mem_append_right post (by simp))
          (ServerCall.timeOf_of_heardAt ha)
      · rw [List.mem_singleton.mp hb, ha] at hx
        exact (Option.some.inj hx).ge

theorem not_timedOut_nil : ¬ TimedOut c [] := by
  rintro ⟨pre, a, post, h, -⟩
  simp at h

end Calls

namespace Server

variable {ι : Type}

def TickEnded (s : Server ι) (c : ι) : Prop := ∃ room, s.ended c = some (.tick, room)

section Runs

variable [DecidableEq ι] [UuidCrate] [BloomJson] {s s' : Server ι} {a : ServerCall ι}
  {o : List (ι × Wire)} {c : ι} {t : Nat}

theorem step_tick {now : Nat} (hphase : s.phase c = .serving t) :
    step s (.frame c now .tick) =
      if pingTimeout ≤ now - t then
        some (s.finish c .tick (s.roomId c), [(c, .ping), (c, pingTimeoutClose)])
      else some (s, [(c, .ping)]) := by
  simp only [step, hphase, processMessage]
  rfl

theorem processMessage_serving {now lastPong : Nat} {frame : Frame}
    (hphase : s.phase c = .serving lastPong)
    (h : s.processMessage c now lastPong frame = some (s', o)) (hserving : s'.phase c = .serving t) :
    ((ServerCall.frame c now frame).heardAt c).or (some lastPong) = some t := by
  have hstay : s'.phase c = s.phase c → lastPong = t := by
    intro hsame
    rw [hsame, hphase] at hserving
    cases hserving
    rfl
  have hfinish : ∀ (s₁ : Server ι) room, s' = s₁.finish c frame room → False := by
    rintro s₁ room rfl
    simp [finish] at hserving
  cases frame with
  | text drawn text =>
    obtain ⟨handlers, os, -, rfl, -⟩ := call_eq_some h
    exact congrArg some (hstay rfl)
  | ping payload => cases h; exact congrArg some (hstay rfl)
  | pong =>
    cases h
    simpa [setPhase, ServerCall.heardAt] using hserving
  | binary =>
    simp only [processMessage] at h
    split at h
    · cases h
    · cases h; exact (hfinish _ _ rfl).elim
  | close code => cases h; exact (hfinish _ _ rfl).elim
  | readError => cases h; exact (hfinish _ _ rfl).elim
  | eof => cases h; exact (hfinish _ _ rfl).elim
  | tick =>
    simp only [processMessage] at h
    split at h
    · cases h; exact (hfinish _ _ rfl).elim
    · cases h; exact congrArg some (hstay rfl)

theorem step_serving (h : step s a = some (s', o)) (hserving : s'.phase c = .serving t) :
    a.heardAt c = some t ∨ a.heardAt c = none ∧ s.phase c = .serving t := by
  by_cases hc : c = a.conn
  · subst hc
    cases a with
    | refuse c =>
      simp only [step, ServerCall.conn] at h hserving
      split at h
      · cases h; simp [setPhase] at hserving
      · cases h
    | accept c now =>
      simp only [step, ServerCall.conn] at h hserving
      split at h
      · cases h
        simp only [setPhase, Function.update_self, Phase.serving.injEq] at hserving
        exact .inl (by simp [ServerCall.heardAt, ServerCall.conn, hserving])
      · cases h
    | frame c now frame =>
      simp only [step, ServerCall.conn] at h hserving ⊢
      split at h
      · rename_i lastPong hphase
        have hor := processMessage_serving hphase h hserving
        cases hheard : (ServerCall.frame c now frame).heardAt c with
        | none =>
          rw [hheard, Option.none_or] at hor
          cases hor
          exact .inr ⟨rfl, hphase⟩
        | some t' => rw [hheard, Option.some_or] at hor; exact .inl hor
      · cases h
    | abnormalClose c =>
      simp only [step, ServerCall.conn] at h hserving
      split at h
      · split at h
        · cases h
        · cases h; simp [setPhase] at hserving
      · cases h
    | unregister c =>
      simp only [step, ServerCall.conn] at h hserving
      split at h
      · cases h; simp [setPhase] at hserving
      · cases h; simp [setPhase] at hserving
      · cases h
  · have hphase : s'.phase c = s.phase c := congrArg Prod.fst ((step_stepped h).others c hc)
    exact .inr ⟨ServerCall.heardAt_eq_none hc, by rw [← hphase, hserving]⟩

theorem frame_serving {now : Nat} {frame : Frame}
    (h : step s (.frame c now frame) = some (s', o)) : ∃ t, s.phase c = .serving t := by
  simp only [step] at h
  split at h
  · exact ⟨_, ‹_›⟩
  · cases h

theorem call_not_close {b : HandlerCall ι} (h : s.call b = some (s', o)) :
    (c, pingTimeoutClose) ∉ o := by
  obtain ⟨handlers, os, -, -, rfl⟩ := call_eq_some h
  simp [pingTimeoutClose]

theorem step_not_close (h : step s a = some (s', o)) (ha : ∀ now, a ≠ .frame c now .tick) :
    (c, pingTimeoutClose) ∉ o := by
  cases a with
  | refuse d =>
    simp only [step] at h
    split at h
    · cases h; exact List.not_mem_nil
    · cases h
  | accept d now =>
    simp only [step, insert] at h
    split at h
    · split at h <;> cases h <;> simp [pingTimeoutClose]
    · cases h
  | frame d now frame =>
    obtain ⟨t, hphase⟩ := frame_serving h
    simp only [step, hphase] at h
    cases frame with
    | text drawn text => exact call_not_close h
    | ping payload => cases h; simp [pingTimeoutClose]
    | pong => cases h; exact List.not_mem_nil
    | binary =>
      simp only [processMessage] at h
      split at h
      · cases h
      · rename_i s₁ o₁ hcall
        cases h
        rw [List.mem_append, not_or]
        exact ⟨call_not_close hcall, by simp [pingTimeoutClose, pingTimeoutCloseCode]⟩
    | close code => cases h; exact List.not_mem_nil
    | readError => cases h; exact List.not_mem_nil
    | eof => cases h; exact List.not_mem_nil
    | tick =>
      have hd : c ≠ d := fun heq => ha now (by rw [heq])
      simp only [processMessage] at h
      split at h <;> cases h <;> simp [hd]
  | abnormalClose d =>
    simp only [step] at h
    split at h
    · split at h
      · cases h
      · rename_i hcall
        cases h
        exact call_not_close hcall
    · cases h
  | unregister d =>
    simp only [step] at h
    split at h
    · cases h; exact List.not_mem_nil
    · cases h; exact List.not_mem_nil
    · cases h

def NotEnded (l : Phase × Option (Frame × Option RoomId)) : Prop :=
  (l.1 = .waiting ∨ ∃ t, l.1 = .serving t) → l.2 = none

omit [DecidableEq ι] [UuidCrate] [BloomJson] in
theorem Turn.notEnded {room : Option RoomId} {l l' : Phase × Option (Frame × Option RoomId)}
    (h : Turn a room l l') (hl : NotEnded l) : NotEnded l' := by
  cases h <;> simp_all [NotEnded]

omit [DecidableEq ι] [UuidCrate] [BloomJson] in
theorem Turn.tick_ended_iff {room : Option RoomId}
    {l l' : Phase × Option (Frame × Option RoomId)} (h : Turn a room l l') (hl : NotEnded l)
    (ha : ∀ now, a ≠ .frame a.conn now .tick) :
    (∃ room, l'.2 = some (.tick, room)) ↔ ∃ room, l.2 = some (.tick, room) := by
  cases h with
  | finish hframe =>
    rename_i c now frame t e
    have hnone : e = none := hl (.inr ⟨t, rfl⟩)
    have hne : frame ≠ .tick := fun heq => ha now (by rw [heq]; rfl)
    simp [hnone, hne]
  | _ => exact Iff.rfl

/-- What the calls so far say of the last pongs and of the connections that timed out. -/
structure Beating (s : Server ι) (as : List (ServerCall ι)) (os : List (ι × Wire)) : Prop where
  notEnded : ∀ c, NotEnded (s.life c)
  heard : ∀ c t, s.phase c = .serving t → heard c as = some t
  ended : ∀ c, s.TickEnded c ↔ TimedOut c as
  closed : ∀ c, TimedOut c as → os.count (c, pingTimeoutClose) = 1
  open_ : ∀ c, ¬ TimedOut c as → (c, pingTimeoutClose) ∉ os

omit [UuidCrate] [BloomJson] in
theorem Initial.beating (h : Initial s) : Beating s [] [] where
  notEnded := fun c _ => h.ended c
  heard := by
    intro c t ht
    rw [h.waiting c] at ht
    cases ht
  ended := by
    intro c
    refine ⟨?_, fun ht => absurd ht not_timedOut_nil⟩
    rintro ⟨room, he⟩
    rw [h.ended c] at he
    cases he
  closed := fun c ht => absurd ht not_timedOut_nil
  open_ := fun c _ => List.not_mem_nil

variable {as : List (ServerCall ι)} {os : List (ι × Wire)}

omit [UuidCrate] [BloomJson] in
theorem Beating.not_timedOut (hb : Beating s as os) (hphase : s.phase c = .serving t) :
    ¬ TimedOut c as := by
  rw [← hb.ended c]
  rintro ⟨room, he⟩
  have hnone : s.ended c = none := hb.notEnded c (.inr ⟨t, hphase⟩)
  rw [hnone] at he
  cases he

theorem Beating.other (hb : Beating s as os) (h : step s a = some (s', o))
    (ha : ∀ now, a ≠ .frame c now .tick) :
    (s'.TickEnded c ↔ TimedOut c (as ++ [a])) ∧ (TimedOut c (as ++ [a]) ↔ TimedOut c as) := by
  have hlog : TimedOut c (as ++ [a]) ↔ TimedOut c as := by
    rw [timedOut_snoc, or_iff_left]
    rintro ⟨now, t, rfl, -⟩
    exact ha now rfl
  refine ⟨?_, hlog⟩
  rw [hlog, ← hb.ended c]
  have hst := step_stepped h
  by_cases hc : c = a.conn
  · subst hc
    exact hst.turn.tick_ended_iff (hb.notEnded a.conn) ha
  · have he : s'.ended c = s.ended c := congrArg Prod.snd (hst.others c hc)
    simp only [TickEnded, he]

theorem Beating.tick (hb : Beating s as os) {now : Nat}
    (h : step s (.frame c now .tick) = some (s', o)) :
    ¬ TimedOut c as ∧ (s'.TickEnded c ↔ TimedOut c (as ++ [.frame c now .tick])) ∧
      (TimedOut c (as ++ [.frame c now .tick]) → o.count (c, pingTimeoutClose) = 1) ∧
      (¬ TimedOut c (as ++ [.frame c now .tick]) → (c, pingTimeoutClose) ∉ o) := by
  obtain ⟨t, hphase⟩ := frame_serving h
  have hno := hb.not_timedOut hphase
  have hheard := hb.heard c t hphase
  have hlog : TimedOut c (as ++ [.frame c now .tick]) ↔ pingTimeout ≤ now - t := by
    rw [timedOut_snoc, or_iff_right hno]
    constructor
    · rintro ⟨now', t', heq, ht', hlate⟩
      cases heq
      rw [hheard] at ht'
      cases ht'
      exact hlate
    · exact fun hlate => ⟨now, t, rfl, hheard, hlate⟩
  rw [step_tick hphase] at h
  rw [hlog]
  split at h
  · rename_i hlate
    cases h
    refine ⟨hno, iff_of_true ⟨s.roomId c, by simp [finish]⟩ hlate, fun _ => ?_, absurd hlate⟩
    simp [pingTimeoutClose]
  · rename_i hlate
    cases h
    have hnone : s.ended c = none := hb.notEnded c (.inr ⟨t, hphase⟩)
    refine ⟨hno, iff_of_false ?_ hlate, fun ht => absurd ht hlate, fun _ => ?_⟩
    · rintro ⟨room, he⟩
      rw [hnone] at he
      cases he
    · simp [pingTimeoutClose]

theorem Beating.step (hb : Beating s as os) (h : step s a = some (s', o)) :
    Beating s' (as ++ [a]) (os ++ o) := by
  have hcases : ∀ c, (s'.TickEnded c ↔ TimedOut c (as ++ [a])) ∧
      (TimedOut c (as ++ [a]) → (os ++ o).count (c, pingTimeoutClose) = 1) ∧
      (¬ TimedOut c (as ++ [a]) → (c, pingTimeoutClose) ∉ os ++ o) := by
    intro c
    by_cases ha : ∃ now, a = .frame c now .tick
    · obtain ⟨now, rfl⟩ := ha
      obtain ⟨hno, hended, hclose, hopen⟩ := hb.tick h
      have hbefore := hb.open_ c hno
      refine ⟨hended, fun ht => ?_, fun ht => ?_⟩
      · rw [List.count_append, hclose ht, List.count_eq_zero.mpr hbefore]
      · rw [List.mem_append, not_or]
        exact ⟨hbefore, hopen ht⟩
    · simp only [not_exists] at ha
      obtain ⟨hended, hlog⟩ := hb.other h ha
      have hnone := step_not_close h ha
      refine ⟨hended, fun ht => ?_, fun ht => ?_⟩
      · rw [List.count_append, List.count_eq_zero.mpr hnone, hb.closed c (hlog.mp ht)]
      · rw [List.mem_append, not_or]
        exact ⟨hb.open_ c fun hbefore => ht (hlog.mpr hbefore), hnone⟩
  refine ⟨fun c => ?_, fun c t ht => ?_, fun c => (hcases c).1, fun c => (hcases c).2.1,
    fun c => (hcases c).2.2⟩
  · have hst := step_stepped h
    by_cases hc : c = a.conn
    · subst hc
      exact hst.turn.notEnded (hb.notEnded a.conn)
    · rw [hst.others c hc]
      exact hb.notEnded c
  · rw [heard_snoc]
    rcases step_serving h ht with hheard | ⟨hnone, hbefore⟩
    · rw [hheard, Option.some_or]
    · rw [hnone, Option.none_or, hb.heard c t hbefore]

theorem beating_of_run {s₀ : Server ι} (h₀ : Initial s₀) (hr : Machine.Runs step s₀ as os s) :
    Beating s as os :=
  hr.history h₀.beating fun _ _ _ _ _ _ _ hb ha => hb.step ha

/-- In every run, a connection has ended for its silence exactly when some tick came
`interval * miss_allowed` or more after it was last heard from. Then one close frame has told it
so, and otherwise none. -/
theorem timed_out_iff {s₀ : Server ι} (h₀ : Initial s₀) (hr : Machine.Runs step s₀ as os s)
    (c : ι) :
    (s.TickEnded c ↔ TimedOut c as) ∧ (TimedOut c as → os.count (c, pingTimeoutClose) = 1) ∧
      (¬ TimedOut c as → os.count (c, pingTimeoutClose) = 0) := by
  have hb := beating_of_run h₀ hr
  exact ⟨hb.ended c, hb.closed c, fun h => List.count_eq_zero.mpr (hb.open_ c h)⟩

theorem accepted_of_serving {s₀ : Server ι} (h₀ : Initial s₀) (hr : Machine.Runs step s₀ as os s)
    (hphase : s.phase c = .serving t) : ∃ now, .accept c now ∈ as := by
  refine hr.history (I := fun s as _ => ∀ t, s.phase c = .serving t → ∃ now, .accept c now ∈ as)
    (fun t ht => ?_) (fun s as os a s' o _ ih ha t ht => ?_) t hphase
  · rw [h₀.waiting c] at ht
    cases ht
  · have hkeep : (∃ now, .accept c now ∈ as) → ∃ now, .accept c now ∈ as ++ [a] :=
      fun ⟨now, hmem⟩ => ⟨now, List.mem_append_left [a] hmem⟩
    rcases step_serving ha ht with hheard | ⟨-, hbefore⟩
    · cases a with
      | accept d now =>
        by_cases hd : d = c
        · subst hd
          exact ⟨now, by simp⟩
        · simp [ServerCall.heardAt, hd] at hheard
      | frame d now frame =>
        by_cases hd : d = c
        · subst hd
          obtain ⟨t', ht'⟩ := frame_serving ha
          exact hkeep (ih t' ht')
        · have hnone := ServerCall.heardAt_eq_none (a := .frame d now frame) (Ne.symm hd)
          rw [hnone] at hheard
          cases hheard
      | refuse d => cases hheard
      | abnormalClose d => cases hheard
      | unregister d => cases hheard
    · exact hkeep (ih t hbefore)

/-- Up to the last tick, a connection that is served was heard from less than
`interval * miss_allowed` before; so with a tick in the last `interval`, less than
`interval * (miss_allowed + 1)` ago. -/
theorem silent_dropped {s₀ : Server ι} (h₀ : Initial s₀) (hr : Machine.Runs step s₀ as os s)
    (hclock : Clocked c as) (hphase : s.phase c = .serving t) :
    heard c as = some t ∧ (∀ now, .frame c now .tick ∈ as → now < t + pingTimeout) ∧
      ∀ now T, .frame c now .tick ∈ as → T ≤ now + ({} : PingConfig).interval →
        T < t + ({} : PingConfig).interval * (({} : PingConfig).missAllowed + 1) := by
  have hb := beating_of_run h₀ hr
  have hheard := hb.heard c t hphase
  have hticks : ∀ now, .frame c now .tick ∈ as → now < t + pingTimeout := by
    intro now hmem
    obtain ⟨pre, post, rfl⟩ := List.append_of_mem hmem
    obtain ⟨s₁, ps, qs, hpre, hrest, rfl⟩ := hr.split
    cases hrest with
    | cons ha _ =>
      obtain ⟨t₁, ht₁⟩ := frame_serving ha
      have hpast := (beating_of_run h₀ hpre).heard c t₁ ht₁
      have hsoon : ¬ pingTimeout ≤ now - t₁ := fun hlate =>
        hb.not_timedOut hphase ⟨pre, _, post, rfl, now, t₁, rfl, hpast, hlate⟩
      obtain ⟨b, hbmem, hbt⟩ := heard_mem hpast
      have hle : t₁ ≤ t := hclock.le_heard hheard (List.mem_append_left _ hbmem) hbt
      omega
  refine ⟨hheard, hticks, fun now T hmem hT => ?_⟩
  have hnow := hticks now hmem
  have htimeout : pingTimeout = ({} : PingConfig).interval * ({} : PingConfig).missAllowed := rfl
  rw [Nat.mul_succ]
  omega

/-- A client that keeps up: every tick comes less than `interval * miss_allowed` after the tick
before it, or after the accept if it is the first, and every ping but the last is answered by a pong
before the next. -/
structure KeepsUp (c : ι) (as : List (ServerCall ι)) : Prop where
  timely : ∀ pre a mid now now' post, as = pre ++ a :: (mid ++ .frame c now' .tick :: post) →
    a = .accept c now ∨ a = .frame c now .tick → (∀ n, .frame c n .tick ∉ mid) →
    now' < now + pingTimeout
  answered : ∀ pre mid now now' post,
    as = pre ++ .frame c now .tick :: (mid ++ .frame c now' .tick :: post) →
    (∀ n, .frame c n .tick ∉ mid) → ∃ n, .frame c n .pong ∈ mid

/-- A client that keeps up is never closed for its silence. -/
theorem answering_kept {s₀ : Server ι} (h₀ : Initial s₀) (hr : Machine.Runs step s₀ as os s)
    (hclock : Clocked c as) (hup : KeepsUp c as) :
    ¬ s.TickEnded c ∧ (c, pingTimeoutClose) ∉ os := by
  have hb := beating_of_run h₀ hr
  have hno : ¬ TimedOut c as := by
    rintro ⟨pre, b, post, rfl, now', t, rfl, hheard, hlate⟩
    obtain ⟨s₁, ps, qs, hpre, hrest, -⟩ := hr.split
    have hserving : ∃ t', s₁.phase c = .serving t' := by
      cases hrest with
      | cons ha _ => exact frame_serving ha
    obtain ⟨t', ht'⟩ := hserving
    obtain ⟨n₀, haccept⟩ := accepted_of_serving h₀ hpre ht'
    -- the tick before this one, or the accept
    obtain ⟨before, a, mid, rfl, ⟨now, hbeat⟩, hmid⟩ :=
      exists_last (P := fun a => ∃ now, a = .accept c now ∨ a = .frame c now .tick) haccept
        ⟨n₀, .inl rfl⟩
    have hticks : ∀ n, .frame c n .tick ∉ mid := fun n hmem => hmid _ hmem ⟨n, .inr rfl⟩
    have heq : (before ++ a :: mid) ++ .frame c now' .tick :: post =
        before ++ a :: (mid ++ .frame c now' .tick :: post) := by simp
    have hsoon := hup.timely before a mid now now' post heq hbeat hticks
    have hpast : now ≤ t := by
      rcases hbeat with rfl | rfl
      · exact hclock.of_append.le_heard hheard (b := .accept c now) (by simp)
          (ServerCall.heardAt_accept now)
      · obtain ⟨n, hpong⟩ := hup.answered before mid now now' post heq hticks
        have hn : n ≤ t := hclock.of_append.le_heard hheard
          (List.mem_append_right before (List.mem_cons_of_mem _ hpong))
          (ServerCall.heardAt_pong n)
        have hle : now ≤ n := hclock.of_append.le (ServerCall.timeOf_frame now .tick) hpong
          (ServerCall.timeOf_frame n .pong)
        exact hle.trans hn
    have hpos : 0 < pingTimeout := by decide
    omega
  exact ⟨fun h => hno ((hb.ended c).mp h), hb.open_ c hno⟩

end Runs

section Samples

def silentClient : List (ServerCall Bool) :=
  [.accept true 0, .frame true 0 .tick, .frame true 30000000000 .tick,
    .frame true 60000000000 .tick]

theorem silent_dropped_two_ticks :
    let _ := hyphenated
    let _ := Handlers.taggedJson
    ∃ s os, Machine.Runs step twoConnections (silentClient.take 3) os s ∧
      s.phase true = .serving 0 ∧ heard true (silentClient.take 3) = some 0 ∧
      ∀ now T, .frame true now .tick ∈ silentClient.take 3 → T ≤ now + 30000000000 →
        T < 0 + 90000000000 := by
  intro _ _
  have hrun : ∃ s os, Machine.Runs step twoConnections (silentClient.take 3) os s ∧
      s.phase true = .serving 0 := ⟨_, _, Machine.run_sound rfl, rfl⟩
  obtain ⟨s, os, hr, hphase⟩ := hrun
  have hclock : Clocked true (silentClient.take 3) := by
    simp [Clocked, silentClient, ServerCall.timeOf]
  obtain ⟨hheard, -, hwithin⟩ := silent_dropped twoConnections_initial hr hclock hphase
  exact ⟨s, os, hr, hphase, hheard, hwithin⟩

theorem timed_out_iff_silent :
    let _ := hyphenated
    let _ := Handlers.taggedJson
    ∃ s os, Machine.Runs step twoConnections silentClient os s ∧
      s.TickEnded true ∧ os.count (true, pingTimeoutClose) = 1 := by
  intro _ _
  have hrun : ∃ s os, Machine.Runs step twoConnections silentClient os s ∧
      s.ended true = some (.tick, none) := ⟨_, _, Machine.run_sound rfl, rfl⟩
  obtain ⟨s, os, hr, hended⟩ := hrun
  obtain ⟨hiff, hclose, -⟩ := timed_out_iff twoConnections_initial hr true
  have hticked : s.TickEnded true := ⟨none, hended⟩
  exact ⟨s, os, hr, hticked, hclose (hiff.mp hticked)⟩

def answeringClient : List (ServerCall Bool) :=
  [.accept true 0, .frame true 0 .tick, .frame true 5 .pong, .frame true 30000000000 .tick]

theorem answeringClient_keepsUp : KeepsUp true answeringClient where
  timely := by
    intro pre a mid now now' post h hbeat hmid
    have htimeout : pingTimeout = 60000000000 := rfl
    rcases pre with _ | ⟨_, _ | ⟨_, _ | ⟨_, _ | ⟨_, _⟩⟩⟩⟩ <;>
      rcases mid with _ | ⟨_, _ | ⟨_, _ | ⟨_, _⟩⟩⟩ <;> simp [answeringClient] at h <;> grind
  answered := by
    intro pre mid now now' post h hmid
    rcases pre with _ | ⟨_, _ | ⟨_, _ | ⟨_, _ | ⟨_, _⟩⟩⟩⟩ <;>
      rcases mid with _ | ⟨_, _ | ⟨_, _ | ⟨_, _⟩⟩⟩ <;> simp [answeringClient] at h
    grind

theorem answering_kept_one_pong :
    let _ := hyphenated
    let _ := Handlers.taggedJson
    ∃ s os, Machine.Runs step twoConnections answeringClient os s ∧
      ¬ s.TickEnded true ∧ (true, pingTimeoutClose) ∉ os := by
  intro _ _
  have hrun : ∃ s os, Machine.Runs step twoConnections answeringClient os s :=
    ⟨_, _, Machine.run_sound rfl⟩
  obtain ⟨s, os, hr⟩ := hrun
  have hclock : Clocked true answeringClient := by
    simp [Clocked, answeringClient, ServerCall.timeOf]
  exact ⟨s, os, hr, answering_kept twoConnections_initial hr hclock answeringClient_keepsUp⟩

end Samples

end Server

end Bloom
end Bakopa
