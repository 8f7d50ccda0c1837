import Bakopa.Lib.Windows
import Bakopa.Syncer.RateLimiter

/-!
# Bakopa.Syncer.RateWindows

Whole histories of the limiter of `syncer/src/rate_limiter.rs`.

* `tick`                — one session's part of a check: the limiter, seen from a session, is a
  machine of its own (`session_run`), so no other session has a say in it.
* `windows_per_session` — what the sessions get: independence, the bound over any `k` windows in a
  row, and no refusal within the limit.
* `purge_exact`         — a counter never goes back to zero, so `purge_inactive` removes nothing; it
  does what its comment says exactly when there is nothing to remove.
-/

namespace Bakopa
namespace Syncer

open Lib

namespace RateLimiter

/-- A call of the limiter, at a clock reading. -/
inductive Call where
  | checkAndRecord (sessionId : String) (streamKind : StreamKind) (now : Nat)
  | purgeInactive (now : Nat)
deriving DecidableEq, Repr

def Call.now : Call → Nat
  | .checkAndRecord _ _ now => now
  | .purgeInactive now => now

def Call.bySession (sessionId : String) : Call → Bool
  | .checkAndRecord caller _ _ => caller == sessionId
  | .purgeInactive _ => false

/-- The decision on a check, with what was asked. -/
structure Answer where
  sessionId : String
  streamKind : StreamKind
  now : Nat
  decision : RateLimitDecision
deriving DecidableEq, Repr

def Answer.allowed (a : Answer) : Bool := a.decision == .allowed

def step : Machine RateLimiter Call Answer
  | l, .checkAndRecord sessionId streamKind now =>
    let (l, decision) := l.checkAndRecord sessionId streamKind now
    some (l, [⟨sessionId, streamKind, now, decision⟩])
  | l, .purgeInactive now => some (l.purgeInactive now, [])

/-! ## One session's view -/

def callsOf (sessionId : String) (calls : List Call) : List Call :=
  calls.filter fun call => call.bySession sessionId

def timesOf (sessionId : String) (calls : List Call) : List Nat :=
  (callsOf sessionId calls).map Call.now

def answersTo (sessionId : String) (answers : List Answer) : List Answer :=
  answers.filter fun answer => answer.sessionId == sessionId

/-- The clock readings at which a session was allowed. -/
def allowedAt (sessionId : String) (answers : List Answer) : List Nat :=
  ((answersTo sessionId answers).filter Answer.allowed).map Answer.now

/-- One session's part of `check_and_record`. -/
def tick (limit : UInt32) (window : Nat) (counter : Option WindowCounter) (now : Nat) :
    WindowCounter × Bool :=
  let counter := counter.getD ⟨now, 0⟩
  let counter := if shouldReset counter now window then ⟨now, 0⟩ else counter
  if counter.count < limit then ({ counter with count := counter.count + 1 }, true)
  else (counter, false)

def tickStep (limit : UInt32) (window : Nat) : Machine (Option WindowCounter) Nat (Nat × Bool)
  | counter, now =>
    let (counter, allowed) := tick limit window counter now
    some (some counter, [(now, allowed)])

def verdicts (sessionId : String) (answers : List Answer) : List (Nat × Bool) :=
  (answersTo sessionId answers).map fun answer => (answer.now, answer.allowed)

variable {l l' : RateLimiter} {n : UInt32} {w now : Nat} {sid caller : String} {kind : StreamKind}
  {call : Call} {calls : List Call} {answers o : List Answer} {c : WindowCounter}
  {counter counter' : Option WindowCounter} {times : List Nat} {os : List (Nat × Bool)}

@[simp] theorem callsOf_check_self : callsOf sid (.checkAndRecord sid kind now :: calls) =
    .checkAndRecord sid kind now :: callsOf sid calls := by
  simp [callsOf, Call.bySession]

theorem callsOf_check_ne (h : caller ≠ sid) :
    callsOf sid (.checkAndRecord caller kind now :: calls) = callsOf sid calls := by
  simp [callsOf, Call.bySession, h]

@[simp] theorem callsOf_purge : callsOf sid (.purgeInactive now :: calls) = callsOf sid calls :=
  rfl

@[simp] theorem answersTo_cons_self {decision : RateLimitDecision} :
    answersTo sid (⟨sid, kind, now, decision⟩ :: answers) =
      ⟨sid, kind, now, decision⟩ :: answersTo sid answers := by
  simp [answersTo]

theorem answersTo_cons_ne (h : caller ≠ sid) {decision : RateLimitDecision} :
    answersTo sid (⟨caller, kind, now, decision⟩ :: answers) = answersTo sid answers := by
  simp [answersTo, h]

@[simp] theorem allowed_ite (b : Bool) :
    Answer.allowed ⟨sid, kind, now, if b then .allowed else .rateLimited kind⟩ = b := by
  cases b
  · rfl
  · rfl

/-- The limiter with a new counter of one session. -/
def record (l : RateLimiter) (sid : String) (c : WindowCounter) : RateLimiter :=
  { l with sessions := l.sessions.insert sid c }

@[simp] theorem lookup_record_self :
    (l.record sid c).sessions.lookup sid = some c := Finmap.lookup_insert _

theorem lookup_record_ne {other : String} (h : sid ≠ other) :
    (l.record other c).sessions.lookup sid = l.sessions.lookup sid :=
  Finmap.lookup_insert_of_ne _ h

theorem checkAndRecord_tick (l : RateLimiter) (sid : String) (kind : StreamKind) (now : Nat) :
    l.checkAndRecord sid kind now =
      (l.record sid (tick l.limit l.window (l.sessions.lookup sid) now).1,
        if (tick l.limit l.window (l.sessions.lookup sid) now).2 then .allowed
        else .rateLimited kind) := by
  -- both take the same branch, whether or not the counter was reset
  have hsame : ∀ counter : WindowCounter,
      (if counter.count < l.limit then
        (l.record sid { counter with count := counter.count + 1 }, RateLimitDecision.allowed)
        else (l.record sid counter, .rateLimited kind)) =
      (l.record sid (if counter.count < l.limit then
          ({ counter with count := counter.count + 1 }, true) else (counter, false)).1,
        if (if counter.count < l.limit then
          ({ counter with count := counter.count + 1 }, true) else (counter, false)).2
        then .allowed else .rateLimited kind) := by
    intro counter
    split
    · rfl
    · rfl
  exact hsame _

/-- A check opens a window, counts in the current one, or finds it full. -/
theorem tick_cases (hn : 0 < n) (counter : Option WindowCounter) (now : Nat) :
    ((∀ c, counter = some c → w ≤ now - c.windowStart) ∧
      tick n w counter now = (⟨now, 1⟩, true)) ∨
    ∃ c, counter = some c ∧ now - c.windowStart < w ∧
      ((c.count < n ∧ tick n w counter now = (⟨c.windowStart, c.count + 1⟩, true)) ∨
        (n ≤ c.count ∧ tick n w counter now = (c, false))) := by
  have hopen : ∀ start, (if (⟨start, 0⟩ : WindowCounter).count < n then
      (({ (⟨start, 0⟩ : WindowCounter) with count := 0 + 1 } : WindowCounter), true)
      else (⟨start, 0⟩, false)) = (⟨start, 1⟩, true) := fun start => if_pos hn
  cases counter with
  | none =>
    refine .inl ⟨nofun, ?_⟩
    simp only [tick, Option.getD_none, ite_self]
    exact hopen now
  | some c =>
    by_cases hreset : w ≤ now - c.windowStart
    · refine .inl ⟨?_, ?_⟩
      · intro c' hc'
        cases hc'
        exact hreset
      · have hreset' : shouldReset c now w = true := by simpa [shouldReset] using hreset
        simp only [tick, Option.getD_some, hreset', if_true]
        exact hopen now
    · have hkeep : shouldReset c now w = false := by simpa [shouldReset] using hreset
      refine .inr ⟨c, rfl, by omega, ?_⟩
      simp only [tick, Option.getD_some, hkeep, Bool.false_eq_true, if_false]
      by_cases hfull : c.count < n
      · exact .inl ⟨hfull, if_pos hfull⟩
      · exact .inr ⟨UInt32.not_lt.mp hfull, if_neg hfull⟩

theorem toNat_count_succ (h : c.count < n) : (c.count + 1).toNat = c.count.toNat + 1 := by
  have hlt : c.count.toNat < n.toNat := UInt32.lt_iff_toNat_lt.mp h
  have hn : n.toNat < 2 ^ 32 := n.toNat_lt
  rw [UInt32.toNat_add]
  simp only [UInt32.toNat_one]
  omega

theorem tick_count_pos (hn : 0 < n) (counter : Option WindowCounter) (now : Nat) :
    0 < (tick n w counter now).1.count := by
  rcases tick_cases (w := w) hn counter now with ⟨-, h⟩ | ⟨c, -, -, ⟨hlt, h⟩ | ⟨hfull, h⟩⟩
  · rw [h]
    exact (by decide : (0 : UInt32) < 1)
  · rw [h, UInt32.lt_iff_toNat_lt, toNat_count_succ hlt]
    exact Nat.succ_pos _
  · rw [h]
    exact UInt32.lt_of_lt_of_le hn hfull

/-- Between calls every counter has counted something. -/
structure Counted (n : UInt32) (w : Nat) (l : RateLimiter) : Prop where
  limit : l.limit = n
  window : l.window = w
  pos : ∀ sid c, l.sessions.lookup sid = some c → 0 < c.count

theorem Counted.new (h : RateLimiter.new n w = some l) :
    Counted n w l ∧ ∀ sid, l.sessions.lookup sid = none := by
  unfold RateLimiter.new at h
  split at h
  · cases h
    exact ⟨⟨rfl, rfl, fun sid c hc => by cases hc⟩, fun sid => Finmap.lookup_empty sid⟩
  · cases h

theorem Counted.limit_pos (h : Counted n w l) : 0 < n := h.limit ▸ l.limit_pos

/-- There is nothing that `purge_inactive` removes. -/
theorem Counted.purgeInactive_eq (h : Counted n w l) (now : Nat) : l.purgeInactive now = l := by
  have hsessions : retain l.sessions (fun counter =>
      !shouldReset counter now l.window || counter.count > 0) = l.sessions := by
    refine Finmap.ext_lookup fun sid => ?_
    rw [lookup_retain]
    cases hc : l.sessions.lookup sid with
    | none => rfl
    | some c =>
      have hpos := h.pos sid c hc
      rw [Option.filter_some, if_pos (by simpa using Or.inr hpos)]
  unfold purgeInactive
  rw [hsessions]

theorem Counted.record (h : Counted n w l) (hc : 0 < c.count) (sid : String) :
    Counted n w (l.record sid c) := by
  refine ⟨h.limit, h.window, fun other c' hc' => ?_⟩
  by_cases hsid : other = sid
  · rw [hsid, lookup_record_self] at hc'
    cases hc'
    exact hc
  · rw [lookup_record_ne hsid] at hc'
    exact h.pos other c' hc'

theorem Counted.step_cases (h : Counted n w l) (hstep : step l call = some (l', o)) :
    (∃ sid kind now, call = .checkAndRecord sid kind now ∧
      l' = l.record sid (tick n w (l.sessions.lookup sid) now).1 ∧
      o = [⟨sid, kind, now, if (tick n w (l.sessions.lookup sid) now).2 then .allowed
        else .rateLimited kind⟩]) ∨
    (∃ now, call = .purgeInactive now ∧ l' = l ∧ o = []) := by
  cases call with
  | checkAndRecord sid kind now =>
    simp only [step, checkAndRecord_tick, h.limit, h.window, Option.some.injEq,
      Prod.mk.injEq] at hstep
    exact .inl ⟨sid, kind, now, rfl, hstep.1.symm, hstep.2.symm⟩
  | purgeInactive now =>
    simp only [step, h.purgeInactive_eq, Option.some.injEq, Prod.mk.injEq] at hstep
    exact .inr ⟨now, rfl, hstep.1.symm, hstep.2.symm⟩

theorem Counted.step (h : Counted n w l) (hstep : step l call = some (l', o)) :
    Counted n w l' := by
  rcases h.step_cases hstep with ⟨sid, kind, now, -, rfl, -⟩ | ⟨now, -, rfl, -⟩
  · exact h.record (tick_count_pos h.limit_pos _ _) sid
  · exact h

theorem Counted.run (h : Counted n w l) (hr : Machine.Runs RateLimiter.step l calls answers l') :
    Counted n w l' :=
  hr.invariant (fun _ _ _ _ h hstep => Counted.step h hstep) h

/-- What a run does with one session is a run of that session's counter alone. -/
theorem session_run (h : Counted n w l) (hr : Machine.Runs step l calls answers l')
    (sid : String) :
    Machine.Runs (tickStep n w) (l.sessions.lookup sid) (timesOf sid calls)
      (verdicts sid answers) (l'.sessions.lookup sid) := by
  induction hr with
  | nil => exact .nil
  | @cons l l₁ l' call calls o answers hstep _ ih =>
    have hrest := ih (h.step hstep)
    rcases h.step_cases hstep with ⟨caller, kind, now, rfl, rfl, rfl⟩ | ⟨now, rfl, rfl, rfl⟩
    · by_cases hsid : caller = sid
      · subst hsid
        rw [lookup_record_self] at hrest
        have hticked : tickStep n w (l.sessions.lookup caller) now =
            some (some (tick n w (l.sessions.lookup caller) now).1,
              [(now, (tick n w (l.sessions.lookup caller) now).2)]) := rfl
        simp only [timesOf, verdicts, callsOf_check_self, List.singleton_append,
          answersTo_cons_self, List.map_cons, allowed_ite]
        exact .cons hticked hrest
      · rw [lookup_record_ne (Ne.symm hsid)] at hrest
        simp only [timesOf, verdicts, callsOf_check_ne hsid, List.singleton_append,
          answersTo_cons_ne hsid]
        exact hrest
    · rw [timesOf, callsOf_purge]
      exact hrest

theorem own_calls (h : Counted n w l) (hr : Machine.Runs step l calls answers l')
    {fresh : RateLimiter} (hfresh : Counted n w fresh)
    (hsame : fresh.sessions.lookup sid = l.sessions.lookup sid) :
    ∃ l'', Machine.Runs step fresh (callsOf sid calls) (answersTo sid answers) l'' := by
  induction hr generalizing fresh with
  | nil => exact ⟨fresh, .nil⟩
  | @cons l l₁ l' call calls o answers hstep _ ih =>
    have hl₁ := h.step hstep
    rcases h.step_cases hstep with ⟨caller, kind, now, rfl, rfl, rfl⟩ | ⟨now, rfl, rfl, rfl⟩
    · by_cases hsid : caller = sid
      · subst hsid
        have hown : step fresh (.checkAndRecord caller kind now) =
            some (fresh.record caller (tick n w (l.sessions.lookup caller) now).1,
              [⟨caller, kind, now, if (tick n w (l.sessions.lookup caller) now).2 then .allowed
                else .rateLimited kind⟩]) := by
          simp only [step, checkAndRecord_tick, hfresh.limit, hfresh.window, hsame]
        obtain ⟨l'', hr'⟩ := ih hl₁ (hfresh.step hown)
          (by rw [lookup_record_self, lookup_record_self])
        refine ⟨l'', ?_⟩
        rw [callsOf_check_self, List.singleton_append, answersTo_cons_self]
        exact .cons hown hr'
      · rw [lookup_record_ne (Ne.symm hsid)] at ih
        rw [callsOf_check_ne hsid, List.singleton_append, answersTo_cons_ne hsid]
        exact ih hl₁ hfresh hsame
    · rw [callsOf_purge]
      exact ih h hfresh hsame

/-- The clock readings of the checks that passed. -/
def passed (os : List (Nat × Bool)) : List Nat := (os.filter Prod.snd).map Prod.fst

theorem passed_append {os' : List (Nat × Bool)} :
    passed (os ++ os') = passed os ++ passed os' := by
  simp [passed]

theorem passed_sublist : (passed os).Sublist (os.map Prod.fst) :=
  List.filter_sublist.map Prod.fst

theorem passed_verdicts : passed (verdicts sid answers) = allowedAt sid answers := by
  simp [passed, verdicts, allowedAt, List.filter_map, Function.comp_def]

theorem tickStep_eq {o : List (Nat × Bool)} (h : tickStep n w counter now = some (counter', o)) :
    counter' = some (tick n w counter now).1 ∧ o = [(now, (tick n w counter now).2)] := by
  simp only [tickStep, Option.some.injEq, Prod.mk.injEq] at h
  exact ⟨h.1.symm, h.2.symm⟩

theorem tick_times (hr : Machine.Runs (tickStep n w) counter times os counter') :
    os.map Prod.fst = times := by
  induction hr with
  | nil => rfl
  | cons h _ ih =>
    obtain ⟨-, rfl⟩ := tickStep_eq h
    rw [List.map_append, ih]
    rfl

theorem windowStart_mem (hn : 0 < n) (hr : Machine.Runs (tickStep n w) none times os (some c)) :
    c.windowStart ∈ times := by
  refine hr.history (I := fun counter times _ => ∀ c, counter = some c → c.windowStart ∈ times)
    nofun ?_ c rfl
  intro counter times os now counter' o _ ih h c hc
  obtain ⟨rfl, -⟩ := tickStep_eq h
  cases hc
  rcases tick_cases (w := w) hn counter now with ⟨-, htick⟩ | ⟨c, hc, -, ⟨-, htick⟩ | ⟨-, htick⟩⟩
  · rw [htick]
    simp
  · rw [htick]
    exact List.mem_append_left _ (ih c hc)
  · rw [htick]
    exact List.mem_append_left _ (ih c hc)

/-- The windows a counter has had: the last one is the one it counts. -/
structure Tally (n : UInt32) (w : Nat) (os : List (Nat × Bool)) (counter : Option WindowCounter)
    (blocks : List Block) : Prop where
  spaced : Spaced n.toNat w blocks
  passed_eq : passed os = blocks.flatMap (·.arrivals)
  empty : counter = none → blocks = []
  current : ∀ c, counter = some c → ∃ past arrivals,
    blocks = past ++ [⟨c.windowStart, arrivals⟩] ∧ arrivals.length = c.count.toNat

variable {blocks : List Block}

theorem Tally.over (h : Tally n w os counter blocks)
    (hnow : ∀ c, counter = some c → c.windowStart ≤ now)
    (hreset : ∀ c, counter = some c → w ≤ now - c.windowStart) :
    ∀ b ∈ blocks, b.start + w ≤ now := by
  intro b hb
  cases counter with
  | none => rw [h.empty rfl] at hb; cases hb
  | some c =>
    obtain ⟨past, arrivals, rfl, -⟩ := h.current c rfl
    have hstart := hnow c rfl
    have hover := hreset c rfl
    rcases List.mem_append.mp hb with hb | hb
    · have happart := (List.pairwise_append.mp h.spaced.apart).2.2 b hb _
        (List.mem_singleton_self _)
      dsimp only at happart
      omega
    · rw [List.mem_singleton.mp hb]
      dsimp only
      omega

theorem Tally.tick (h : Tally n w os counter blocks) (hn : 0 < n) (hw : 0 < w)
    (hnow : ∀ c, counter = some c → c.windowStart ≤ now) :
    ∃ blocks', Tally n w (os ++ [(now, (tick n w counter now).2)])
      (some (tick n w counter now).1) blocks' := by
  rcases tick_cases (w := w) hn counter now with ⟨hreset, htick⟩ | ⟨c, rfl, hin, hc⟩
  · refine ⟨blocks ++ [⟨now, [now]⟩], ?_⟩
    rw [htick]
    refine ⟨h.spaced.snoc (UInt32.lt_iff_toNat_lt.mp hn) hw (h.over hnow hreset), ?_, nofun, ?_⟩
    · rw [passed_append, h.passed_eq, List.flatMap_append]
      rfl
    · intro c hc
      cases hc
      exact ⟨blocks, [now], rfl, rfl⟩
  · obtain ⟨past, arrivals, rfl, hlength⟩ := h.current c rfl
    have hstart := hnow c rfl
    rcases hc with ⟨hlt, htick⟩ | ⟨hfull, htick⟩
    · have hroom : arrivals.length < n.toNat := by
        rw [hlength]
        exact UInt32.lt_iff_toNat_lt.mp hlt
      refine ⟨past ++ [⟨c.windowStart, arrivals ++ [now]⟩], ?_⟩
      rw [htick]
      refine ⟨h.spaced.extend hroom hstart (by omega), ?_, nofun, ?_⟩
      · rw [passed_append, h.passed_eq, List.flatMap_append, List.flatMap_append,
          List.append_assoc]
        simp [passed]
      · intro c' hc'
        cases hc'
        refine ⟨past, arrivals ++ [now], rfl, ?_⟩
        rw [toNat_count_succ hlt, List.length_append, hlength]
        rfl
    · refine ⟨past ++ [⟨c.windowStart, arrivals⟩], ?_⟩
      rw [htick]
      refine ⟨h.spaced, ?_, nofun, ?_⟩
      · rw [passed_append, ← h.passed_eq]
        exact List.append_nil _
      · intro c' hc'
        cases hc'
        exact ⟨past, arrivals, rfl, hlength⟩

theorem tally_of_run (hn : 0 < n) (hw : 0 < w)
    (hr : Machine.Runs (tickStep n w) none times os counter)
    (hsorted : times.Pairwise (· ≤ ·)) : ∃ blocks, Tally n w os counter blocks := by
  refine hr.history_of (I := fun counter _ os => ∃ blocks, Tally n w os counter blocks)
    sorted_of_append ?_ ?_ hsorted
  · exact ⟨[], ⟨List.Pairwise.nil, nofun, nofun⟩, rfl, fun _ => rfl, nofun⟩
  · rintro counter times os now counter' o hr hsorted ⟨blocks, htally⟩ h
    obtain ⟨rfl, rfl⟩ := tickStep_eq h
    refine htally.tick hn hw fun c hc => ?_
    subst hc
    exact le_last hsorted _ (windowStart_mem hn hr)

theorem passed_of_few (hn : 0 < n) (hw : 0 < w)
    (hr : Machine.Runs (tickStep n w) none times os counter) (hsorted : times.Pairwise (· ≤ ·))
    (hfew : ∀ a, times.countP (fun x => a ≤ x ∧ x < a + w) ≤ n.toNat) :
    ∀ x ∈ os, x.2 = true := by
  refine hr.history_of (I := fun _ _ os => ∀ x ∈ os, x.2 = true)
    (K := fun times => times.Pairwise (· ≤ ·) ∧
      ∀ a, times.countP (fun x => a ≤ x ∧ x < a + w) ≤ n.toNat)
    (fun times now h => ⟨sorted_of_append times now h.1, fun a => Nat.le_trans
      ((List.sublist_append_left times [now]).countP_le) (h.2 a)⟩) nofun ?_ ⟨hsorted, hfew⟩
  rintro counter times os now counter' o hr ⟨hsorted, hfew⟩ hbefore h
  obtain ⟨rfl, rfl⟩ := tickStep_eq h
  refine List.forall_mem_append.mpr ⟨hbefore, ?_⟩
  intro x hx
  rw [List.mem_singleton.mp hx]
  rcases tick_cases (w := w) hn counter now with ⟨-, htick⟩ | ⟨c, rfl, hin, ⟨-, htick⟩ | ⟨hfull, -⟩⟩
  · rw [htick]
  · rw [htick]
  · -- the window that is full has, with the new check, more than `limit` of them
    obtain ⟨blocks, htally⟩ := tally_of_run hn hw hr (sorted_of_append times now hsorted)
    obtain ⟨past, arrivals, rfl, hlength⟩ := htally.current c rfl
    have hstart := le_last hsorted _ (windowStart_mem hn hr)
    have hcounted : arrivals.Sublist (passed os) := by
      rw [htally.passed_eq, List.flatMap_append]
      simp
    have hsub : (arrivals ++ [now]).Sublist (times ++ [now]) := by
      rw [← tick_times hr]
      exact (hcounted.trans passed_sublist).append_right [now]
    have hin' : ∀ x ∈ arrivals ++ [now],
        decide (c.windowStart ≤ x ∧ x < c.windowStart + w) = true := by
      intro x hx
      refine decide_eq_true ?_
      rcases List.mem_append.mp hx with hx | hx
      · exact htally.spaced.within ⟨c.windowStart, arrivals⟩ (by simp) x hx
      · rw [List.mem_singleton.mp hx]
        omega
    have hle := length_le_of_countP_le hsub hin' (hfew c.windowStart)
    have hfull' : n.toNat ≤ c.count.toNat := UInt32.le_iff_toNat_le.mp hfull
    rw [List.length_append, List.length_singleton] at hle
    omega

theorem timesOf_sublist : (timesOf sid calls).Sublist (calls.map Call.now) :=
  List.filter_sublist.map Call.now

theorem session_run_new {l₀ : RateLimiter} (hnew : RateLimiter.new n w = some l₀)
    (hr : Machine.Runs step l₀ calls answers l) (sid : String) :
    Machine.Runs (tickStep n w) none (timesOf sid calls) (verdicts sid answers)
      (l.sessions.lookup sid) := by
  obtain ⟨hcounted, hempty⟩ := Counted.new hnew
  rw [← hempty sid]
  exact session_run hcounted hr sid

/-- In every run of a new limiter at clock readings that never go back, for every session: a new
limiter fed only that session's checks gives it the same answers, and so does, but for the stream
kinds they name, every run with the session's checks at the same instants; any `k` windows in a row
(from any instant on) have at most `(k + 1) * limit` allowed checks; and if no interval of the
length of a window has more than `limit` checks, all of them are allowed. -/
theorem windows_per_session {l₀ : RateLimiter} (hnew : RateLimiter.new n w = some l₀) (hw : 0 < w)
    (hr : Machine.Runs step l₀ calls answers l)
    (hsorted : (calls.map Call.now).Pairwise (· ≤ ·)) (sid : String) :
    ((∃ l', Machine.Runs step l₀ (callsOf sid calls) (answersTo sid answers) l') ∧
      ∀ calls' answers' l', Machine.Runs step l₀ calls' answers' l' →
        timesOf sid calls' = timesOf sid calls →
        (answersTo sid answers').map Answer.allowed = (answersTo sid answers).map Answer.allowed) ∧
    (∀ a k, (allowedAt sid answers).countP (fun x => a ≤ x ∧ x < a + k * w) ≤
      (k + 1) * n.toNat) ∧
    ((∀ a, (timesOf sid calls).countP (fun x => a ≤ x ∧ x < a + w) ≤ n.toNat) →
      ∀ answer ∈ answersTo sid answers, answer.decision = .allowed) := by
  have hcounted := (Counted.new hnew).1
  have hn := hcounted.limit_pos
  have hsession := session_run_new hnew hr sid
  have hsorted' : (timesOf sid calls).Pairwise (· ≤ ·) := hsorted.sublist timesOf_sublist
  refine ⟨⟨own_calls hcounted hr hcounted rfl, ?_⟩, fun a k => ?_, fun hfew answer hanswer => ?_⟩
  · intro calls' answers' l' hr' htimes
    have hsession' := session_run_new hnew hr' sid
    rw [htimes] at hsession'
    have hsame := congrArg (List.map Prod.snd) (hsession.det hsession').1
    simpa [verdicts, Function.comp_def] using hsame
  · obtain ⟨blocks, htally⟩ := tally_of_run hn hw hsession hsorted'
    rw [← passed_verdicts, htally.passed_eq]
    exact countP_blocks_le htally.spaced a k
  · have hpassed := passed_of_few hn hw hsession hsorted' hfew (answer.now, answer.allowed)
      (List.mem_map_of_mem hanswer)
    exact eq_of_beq hpassed

/-- Two a window of ten: the third check of `a` is refused whatever `b` does, the next window is
counted from its own first check, and `b` keeps to the limit. -/
theorem windows_per_session_two_sessions :
    ∃ l₀ answers l, RateLimiter.new 2 10 = some l₀ ∧
      Machine.Runs step l₀
        [.checkAndRecord "a" .pose 0, .checkAndRecord "b" .chat 5, .checkAndRecord "a" .chat 6,
          .checkAndRecord "a" .pose 9, .checkAndRecord "a" .pose 10, .checkAndRecord "b" .pose 12]
        answers l ∧
      (answersTo "a" answers).map Answer.decision =
        [.allowed, .allowed, .rateLimited .pose, .allowed] ∧
      (allowedAt "a" answers).countP (fun x => 3 ≤ x ∧ x < 3 + 1 * 10) ≤ 2 * 2 ∧
      ∀ answer ∈ answersTo "b" answers, answer.decision = .allowed := by
  have hrun : ∃ l₀ answers l, RateLimiter.new 2 10 = some l₀ ∧
      Machine.Runs step l₀
        [.checkAndRecord "a" .pose 0, .checkAndRecord "b" .chat 5, .checkAndRecord "a" .chat 6,
          .checkAndRecord "a" .pose 9, .checkAndRecord "a" .pose 10, .checkAndRecord "b" .pose 12]
        answers l ∧
      (answersTo "a" answers).map Answer.decision =
        [.allowed, .allowed, .rateLimited .pose, .allowed] :=
    ⟨_, _, _, rfl, Machine.run_sound rfl, rfl⟩
  obtain ⟨l₀, answers, l, hnew, hr, hdecisions⟩ := hrun
  obtain ⟨-, hbound, -⟩ := windows_per_session hnew (by decide) hr (by decide) "a"
  obtain ⟨-, -, hkeeps⟩ := windows_per_session hnew (by decide) hr (by decide) "b"
  exact ⟨l₀, answers, l, hnew, hr, hdecisions, hbound 3 1,
    hkeeps fun a => List.countP_le_length⟩

/-! ## Purging -/

/-- What purging the state after `calls` at `now` should do. -/
structure Purges (calls : List Call) (l : RateLimiter) (now : Nat) : Prop where
  /-- Sessions whose window is over go. -/
  removes : ∀ sid c, l.sessions.lookup sid = some c → shouldReset c now l.window = true →
    (l.purgeInactive now).sessions.lookup sid = none
  /-- The others stay as they are. -/
  keeps : ∀ sid, (∀ c, l.sessions.lookup sid = some c → shouldReset c now l.window = false) →
    (l.purgeInactive now).sessions.lookup sid = l.sessions.lookup sid
  /-- What is called later is answered as without the purge. -/
  harmless : ∀ later answers l', (∀ call ∈ later, now ≤ call.now) →
    (later.map Call.now).Pairwise (· ≤ ·) → Machine.Runs step l later answers l' →
    ∃ l'', Machine.Runs step (l.purgeInactive now) later answers l''
  /-- Every session that is left made a check within the last window. -/
  active : ∀ sid c, (l.purgeInactive now).sessions.lookup sid = some c →
    ∃ t ∈ timesOf sid calls, now < t + l.window

/-- In every state a new limiter reaches, purging does what it should exactly when the window of no
session is over, so that there is nothing to remove. -/
theorem purge_exact {l₀ : RateLimiter} (hnew : RateLimiter.new n w = some l₀)
    (hr : Machine.Runs step l₀ calls answers l) (now : Nat) :
    Purges calls l now ↔
      ∀ sid c, l.sessions.lookup sid = some c → shouldReset c now l.window = false := by
  have hcounted := (Counted.new hnew).1.run hr
  have hsame := hcounted.purgeInactive_eq now
  constructor
  · intro h sid c hc
    rw [Bool.eq_false_iff]
    intro hover
    have hgone := h.removes sid c hc hover
    rw [hsame, hc] at hgone
    cases hgone
  · intro hcurrent
    refine ⟨fun sid c hc hover => ?_, fun sid _ => ?_, fun later answers l' _ _ hr' => ?_,
      fun sid c hc => ?_⟩
    · rw [hcurrent sid c hc] at hover
      cases hover
    · rw [hsame]
    · rw [hsame]
      exact ⟨l', hr'⟩
    · rw [hsame] at hc
      have hsession := session_run_new hnew hr sid
      rw [hc] at hsession
      refine ⟨c.windowStart, windowStart_mem hcounted.limit_pos hsession, ?_⟩
      have hin := hcurrent sid c hc
      simp only [shouldReset, ge_iff_le, decide_eq_false_iff_not] at hin
      omega

/-- A check at 0 in a window of ten, purged before the window is over. -/
theorem purge_exact_one_check :
    ∃ l₀ answers l, RateLimiter.new 2 10 = some l₀ ∧
      Machine.Runs step l₀ [.checkAndRecord "a" .pose 0] answers l ∧
      Purges [.checkAndRecord "a" .pose 0] l 9 := by
  have hrun : ∃ l₀ answers l, RateLimiter.new 2 10 = some l₀ ∧
      Machine.Runs step l₀ [.checkAndRecord "a" .pose 0] answers l ∧ l.window = 10 ∧
      l.sessions = Finmap.insert "a" ⟨0, 1⟩ ∅ :=
    ⟨_, _, _, rfl, Machine.run_sound rfl, rfl, rfl⟩
  obtain ⟨l₀, answers, l, hnew, hr, hwindow, hsessions⟩ := hrun
  refine ⟨l₀, answers, l, hnew, hr, (purge_exact hnew hr 9).mpr fun sid c hc => ?_⟩
  rw [hwindow]
  rw [hsessions] at hc
  by_cases hsid : sid = "a"
  · rw [hsid, Finmap.lookup_insert] at hc
    cases hc
    rfl
  · rw [Finmap.lookup_insert_of_ne _ hsid, Finmap.lookup_empty] at hc
    cases hc

/-- The session of a check at 0 is still there when its window has been over for ten. -/
theorem over_but_kept :
    ¬ ∀ (n : UInt32) (w now : Nat) (calls : List Call) (answers : List Answer)
        (l₀ l : RateLimiter), RateLimiter.new n w = some l₀ →
        Machine.Runs step l₀ calls answers l → (calls.map Call.now).Pairwise (· ≤ ·) →
        (∀ call ∈ calls, call.now ≤ now) → Purges calls l now := by
  intro h
  have hrun : ∃ l₀ answers l, RateLimiter.new 2 10 = some l₀ ∧
      Machine.Runs step l₀ [.checkAndRecord "a" .pose 0] answers l ∧
      ∃ c, l.sessions.lookup "a" = some c ∧ shouldReset c 20 l.window = true ∧
        (l.purgeInactive 20).sessions.lookup "a" = some c :=
    ⟨_, _, _, rfl, Machine.run_sound rfl, ⟨0, 1⟩, rfl, rfl, rfl⟩
  obtain ⟨l₀, answers, l, hnew, hr, c, hc, hover, hkept⟩ := hrun
  have hgone := (h 2 10 20 _ answers l₀ l hnew hr (by decide) (by decide)).removes "a" c hc hover
  rw [hkept] at hgone
  cases hgone

end RateLimiter

end Syncer
end Bakopa
