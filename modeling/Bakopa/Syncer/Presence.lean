import Mathlib.Data.List.Chain
import Bakopa.Lib.Machine

/-!
# Bakopa.Syncer.Presence

The presence of one participant, as an abstract machine: joins, leaves and failures come in, and
`joined` and `left` reports go out. A failure counts once, and is reported even when the
participant is not registered.

* `once_iff`        — no `left` follows a `left` unless a first failure comes `Late`: after a
  membership that a leave has ended.
* `alternating`     — without failures `joined` and `left` take turns.
* `Told`            — what the reports so far say about the status.
* `registered_iff`  — when a failure leaves the participant registered: the membership is `Kept`
  from before it, because an earlier failure was already counted.
-/

namespace Bakopa
namespace Syncer
namespace Presence

open Lib Lib.Machine

inductive Op where
  | join
  | leave
  | fail
deriving DecidableEq

inductive Report where
  | joined
  | left
deriving DecidableEq

structure Status where
  registered : Bool
  /-- A failure has been counted. -/
  failed : Bool
deriving DecidableEq

def fresh : Status := ⟨false, false⟩

def step : Machine Status Op Report
  | st, .join => some (⟨true, st.failed⟩, if st.registered then [.left, .joined] else [.joined])
  | st, .leave => some (⟨false, st.failed⟩, if st.registered then [.left] else [])
  | st, .fail => some (if st.failed then (st, []) else (⟨false, true⟩, [.left]))

variable {st st' : Status} {ops pre post : List Op} {os : List Report}

theorem failed_iff (h : Runs step st ops os st') :
    st'.failed = true ↔ st.failed = true ∨ .fail ∈ ops := by
  induction h with
  | nil => simp
  | @cons s s' s'' op ops o os hs _ ih =>
    rw [ih, List.mem_cons]
    cases op with
    | join => cases hs; simp
    | leave => cases hs; simp
    | fail =>
      simp only [step, Option.some.injEq] at hs
      split at hs
      · rename_i hf; cases hs; simp [hf]
      · cases hs; simp

theorem joined_mem_iff (h : Runs step st ops os st') : .joined ∈ os ↔ .join ∈ ops := by
  induction h with
  | nil => simp
  | @cons s s' s'' op ops o os hs _ ih =>
    rw [List.mem_append, List.mem_cons, ih]
    cases op with
    | join => cases hs; cases s.registered <;> simp
    | leave => cases hs; cases s.registered <;> simp
    | fail =>
      simp only [step, Option.some.injEq] at hs
      split at hs
      · cases hs; simp
      · cases hs; simp

/-- A history of operations and reports that led to `st`, also one in which the count of failures
was forgotten. -/
structure Told (st : Status) (ops : List Op) (os : List Report) : Prop where
  registered : st.registered = true ↔ os.getLast? = some .joined
  silent : os = [] ↔ .join ∉ ops ∧ .fail ∉ ops
  failed : st.failed = true → .fail ∈ ops

namespace Told

variable {op : Op} {o : List Report}

theorem fresh : Told Presence.fresh [] [] := ⟨by simp [Presence.fresh], by simp, nofun⟩

theorem step (h : Told st ops os) (hs : Presence.step st op = some (st', o)) :
    Told st' (ops ++ [op]) (os ++ o) := by
  cases op with
  | join =>
    cases hs
    refine ⟨?_, ?_, fun hf => List.mem_append_left _ (h.failed hf)⟩
    · cases st.registered <;> simp
    · cases st.registered <;> simp
  | leave =>
    cases hs
    have hreg := h.registered
    cases hst : st.registered with
    | true =>
      have hne : os ≠ [] := by
        rintro rfl
        simp [hst] at hreg
      have hops := h.silent.not.mp hne
      refine ⟨by simp, ?_, fun hf => List.mem_append_left _ (h.failed hf)⟩
      simpa using hops
    | false =>
      rw [hst] at hreg
      refine ⟨by simpa using hreg, ?_, fun hf => List.mem_append_left _ (h.failed hf)⟩
      simpa using h.silent
  | fail =>
    simp only [Presence.step, Option.some.injEq] at hs
    split at hs
    · rename_i hf
      cases hs
      have hmem := h.failed hf
      have hne : os ≠ [] := fun hnil => (h.silent.mp hnil).2 hmem
      exact ⟨by simpa using h.registered, by simp [hne], by simp⟩
    · cases hs
      exact ⟨by simp, by simp, by simp⟩

theorem run {ops' : List Op} {os' : List Report} (h : Told st ops os)
    (hr : Runs Presence.step st ops' os' st') : Told st' (ops ++ ops') (os ++ os') := by
  induction hr generalizing ops os with
  | nil => simpa using h
  | @cons s s' s'' op ops' o os' hs _ ih =>
    have hrest := ih (h.step hs)
    simpa only [List.append_assoc, List.singleton_append] using hrest

theorem forget (h : Told st ops os) : Told ⟨st.registered, false⟩ ops os :=
  ⟨h.registered, h.silent, nofun⟩

theorem last_left_iff (h : Told st ops os) :
    os.getLast? = some .left ↔ st.registered = false ∧ ¬ (.join ∉ ops ∧ .fail ∉ ops) := by
  rw [← h.silent, ← Bool.not_eq_true, h.registered]
  cases hlast : os.getLast? with
  | none => simpa using hlast
  | some r =>
    have hne : os ≠ [] := by
      rintro rfl
      cases hlast
    cases r <;> simp [hne]

end Told

/-- No `left` right after a `left`. -/
def Once (reports : List Report) : Prop := reports.IsChain fun x y => ¬ (x = .left ∧ y = .left)

/-- A membership has been ended by a leave, and none has begun since. -/
def Departed (ops : List Op) : Prop :=
  ∃ pre post, ops = pre ++ .leave :: post ∧ .join ∈ pre ∧ .join ∉ post

/-- The first failure comes when the participant has departed. -/
def Late (ops : List Op) : Prop :=
  ∃ pre post, ops = pre ++ .fail :: post ∧ .fail ∉ pre ∧ Departed pre

theorem departed_append (op : Op) :
    Departed (ops ++ [op]) ↔ (op = .leave ∧ .join ∈ ops) ∨ (op ≠ .join ∧ Departed ops) := by
  constructor
  · rintro ⟨pre, post, h, hpre, hpost⟩
    rcases snoc_split h with ⟨rfl, rfl, rfl⟩ | ⟨rest, rfl, rfl⟩
    · exact .inl ⟨rfl, hpre⟩
    · rw [List.mem_append, List.mem_singleton, not_or] at hpost
      exact .inr ⟨fun h => hpost.2 h.symm, pre, rest, rfl, hpre, hpost.1⟩
  · rintro (⟨rfl, h⟩ | ⟨hop, pre, post, rfl, hpre, hpost⟩)
    · exact ⟨ops, [], rfl, h, List.not_mem_nil⟩
    · refine ⟨pre, post ++ [op], by simp, hpre, ?_⟩
      simp only [List.mem_append, List.mem_singleton, not_or]
      exact ⟨hpost, fun h => hop h.symm⟩

theorem late_append (op : Op) :
    Late (ops ++ [op]) ↔ Late ops ∨ (op = .fail ∧ .fail ∉ ops ∧ Departed ops) := by
  constructor
  · rintro ⟨pre, post, h, hpre, hd⟩
    rcases snoc_split h with ⟨rfl, rfl, rfl⟩ | ⟨rest, rfl, rfl⟩
    · exact .inr ⟨rfl, hpre, hd⟩
    · exact .inl ⟨pre, rest, rfl, hpre, hd⟩
  · rintro (⟨pre, post, rfl, hpre, hd⟩ | ⟨rfl, hf, hd⟩)
    · exact ⟨pre, post ++ [op], by simp, hpre, hd⟩
    · exact ⟨ops, [], rfl, hf, hd⟩

theorem join_of_registered (h : Runs step fresh ops os st) (hreg : st.registered = true) :
    .join ∈ ops := by
  have general : ∀ {s s' : Status} {ops : List Op} {os : List Report}, Runs step s ops os s' →
      s'.registered = true → s.registered = true ∨ .join ∈ ops := by
    intro s s' ops os h
    induction h with
    | nil => exact Or.inl
    | @cons s s' s'' op ops o os hs _ ih =>
      intro hreg
      cases op with
      | join => exact .inr List.mem_cons_self
      | leave =>
        rcases ih hreg with h | h
        · cases hs; cases h
        · exact .inr (List.mem_cons_of_mem _ h)
      | fail =>
        rcases ih hreg with h | h
        · simp only [step, Option.some.injEq] at hs
          split at hs
          · cases hs; exact .inl h
          · cases hs; cases h
        · exact .inr (List.mem_cons_of_mem _ h)
  rcases general h hreg with h | h
  · cases h
  · exact h

theorem registered_iff_last (h : Runs step fresh ops os st) :
    st.registered = true ↔ os.getLast? = some .joined :=
  (Told.fresh.run h).registered

theorem reported_of_join (h : Runs step fresh ops os st) (hj : .join ∈ ops) : os ≠ [] :=
  fun hnil => ((Told.fresh.run h).silent.mp hnil).1 hj

theorem departed_iff (h : Runs step fresh ops os st) (hf : .fail ∉ ops) :
    Departed ops ↔ os.getLast? = some .left := by
  induction ops using List.reverseRecOn generalizing os st with
  | nil => cases h; simp [Departed]
  | append_singleton ops op ih =>
    obtain ⟨s, ps, o, hr, hs, rfl⟩ := h.split_last
    rw [List.mem_append, List.mem_singleton, not_or] at hf
    have ih := ih hr hf.1
    rw [departed_append]
    cases op with
    | join => cases hs; cases s.registered <;> simp
    | leave =>
      cases hs
      cases hreg : s.registered with
      | true => simp [join_of_registered hr hreg]
      | false =>
        -- a participant that joined and is not registered was last reported as `left`
        have hleft : .join ∈ ops → ps.getLast? = some .left := by
          intro hj
          have hne := reported_of_join hr hj
          have hlast := (registered_iff_last hr).not.mp (by simp [hreg])
          rw [List.getLast?_eq_getLast_of_ne_nil hne] at hlast ⊢
          cases hl : ps.getLast hne with
          | joined => exact absurd (by rw [hl]) hlast
          | left => rfl
        simp only [Bool.false_eq_true, if_false, List.append_nil, true_and, ne_eq, reduceCtorEq,
          not_false_eq_true, ih]
        exact ⟨fun h => h.elim hleft id, Or.inr⟩
    | fail => exact absurd rfl hf.2

theorem once_iff (h : Runs step fresh ops os st) : Once os ↔ ¬ Late ops := by
  induction ops using List.reverseRecOn generalizing os st with
  | nil => cases h; simp [Once, Late]
  | append_singleton ops op ih =>
    obtain ⟨s, ps, o, hr, hs, rfl⟩ := h.split_last
    have ih := ih hr
    have hreg := registered_iff_last hr
    rw [late_append, not_or, ← ih, Once, List.isChain_append]
    refine and_congr_right fun _ => ?_
    cases op with
    | join =>
      cases hs
      cases hr : s.registered <;> simp_all
    | leave =>
      cases hs
      cases hr : s.registered <;> simp_all
    | fail =>
      have hfailed := failed_iff hr
      simp only [step, Option.some.injEq] at hs
      split at hs
      · cases hs
        simp_all [fresh]
      · rename_i hf
        cases hs
        have hnf : .fail ∉ ops := by
          intro h
          exact hf (hfailed.mpr (.inr h))
        rw [departed_iff hr hnf]
        simp only [hnf, not_false_eq_true, true_and, List.isChain_singleton, List.head?_cons,
          Option.mem_some_iff, forall_eq', and_true]
        constructor
        · intro h hlast
          exact h _ hlast rfl
        · intro h x hx hleft
          rw [hleft] at hx
          exact h hx

/-- `joined` and `left` take turns, and `joined` is the first. -/
structure Alternating (reports : List Report) : Prop where
  turns : reports.IsChain (· ≠ ·)
  first : reports.head? ≠ some .left

theorem Alternating.append {o : List Report} (h : Alternating os) (ho : o.IsChain (· ≠ ·))
    (hjoined : o.head? = some .joined → os.getLast? ≠ some .joined)
    (hleft : o.head? = some .left → os.getLast? = some .joined) : Alternating (os ++ o) where
  turns := by
    refine List.isChain_append.mpr ⟨h.turns, ho, fun x hx y hy => ?_⟩
    rintro rfl
    cases x with
    | joined => exact hjoined hy hx
    | left =>
      rw [Option.mem_def, hleft hy] at hx
      cases hx
  first := by
    rw [List.head?_append]
    cases hos : os.head? with
    | some r =>
      rw [Option.some_or, ← hos]
      exact h.first
    | none =>
      intro hhead
      rw [List.head?_eq_none_iff.mp hos] at hleft
      exact absurd (hleft hhead) (by simp)

/-- Without failures the reports alternate. -/
theorem alternating (h : Runs step fresh ops os st) (hf : .fail ∉ ops) : Alternating os := by
  induction ops using List.reverseRecOn generalizing os st with
  | nil => cases h; exact ⟨.nil, by simp⟩
  | append_singleton ops op ih =>
    obtain ⟨s, ps, o, hr, hs, rfl⟩ := h.split_last
    rw [List.mem_append, List.mem_singleton, not_or] at hf
    have ih := ih hr hf.1
    have hreg := registered_iff_last hr
    cases op with
    | join =>
      cases hs
      cases hr : s.registered with
      | true => exact ih.append (by simp) (by simp) fun _ => hreg.mp hr
      | false => exact ih.append (by simp) (fun _ => by simpa [hr] using hreg) (by simp)
    | leave =>
      cases hs
      cases hr : s.registered with
      | true => exact ih.append (by simp) (by simp) fun _ => hreg.mp hr
      | false => exact ih.append (by simp) (by simp) (by simp)
    | fail => exact absurd rfl hf.2

/-- The participant is registered, by a join (or from the start) that came after a failure was
counted and that no leave has ended. -/
def Kept (st : Status) (ops : List Op) : Prop :=
  (∃ pre post, ops = pre ++ .join :: post ∧ .leave ∉ post ∧ (st.failed = true ∨ .fail ∈ pre)) ∨
  (st.registered = true ∧ st.failed = true ∧ .leave ∉ ops)

theorem kept_append {op : Op} :
    Kept st (ops ++ [op]) ↔
      (op = .join ∧ (st.failed = true ∨ .fail ∈ ops)) ∨ (op ≠ .leave ∧ Kept st ops) := by
  constructor
  · rintro (⟨pre, post, h, hpost, hfail⟩ | ⟨hreg, hfail, hleave⟩)
    · rcases snoc_split h with ⟨rfl, rfl, rfl⟩ | ⟨rest, rfl, rfl⟩
      · exact .inl ⟨rfl, hfail⟩
      · rw [List.mem_append, List.mem_singleton, not_or] at hpost
        exact .inr ⟨fun h => hpost.2 h.symm, .inl ⟨pre, rest, rfl, hpost.1, hfail⟩⟩
    · simp only [List.mem_append, List.mem_singleton, not_or] at hleave
      exact .inr ⟨fun h => hleave.2 h.symm, .inr ⟨hreg, hfail, hleave.1⟩⟩
  · rintro (⟨rfl, hfail⟩ | ⟨hop, ⟨pre, post, rfl, hpost, hfail⟩ | ⟨hreg, hfail, hleave⟩⟩)
    · exact .inl ⟨ops, [], rfl, List.not_mem_nil, hfail⟩
    · refine .inl ⟨pre, post ++ [op], by simp, ?_, hfail⟩
      simp only [List.mem_append, List.mem_singleton, not_or]
      exact ⟨hpost, fun h => hop h.symm⟩
    · refine .inr ⟨hreg, hfail, ?_⟩
      simp only [List.mem_append, List.mem_singleton, not_or]
      exact ⟨hleave, fun h => hop h.symm⟩

theorem kept_iff (h : Runs step st ops os st') :
    Kept st ops ↔ st'.registered = true ∧ st'.failed = true := by
  induction ops using List.reverseRecOn generalizing os st' with
  | nil => cases h; simp [Kept]
  | append_singleton ops op ih =>
    obtain ⟨s, ps, o, hr, hs, rfl⟩ := h.split_last
    rw [kept_append, ih hr, ← failed_iff hr]
    cases op with
    | join => cases hs; simp
    | leave => cases hs; simp
    | fail =>
      simp only [step, Option.some.injEq] at hs
      split at hs
      · cases hs; simp
      · rename_i hf; cases hs; simp [hf]

theorem registered_of_no_join (h : Runs step st ops os st') (hj : .join ∉ ops) :
    st'.registered = true ↔
      st.registered = true ∧ .leave ∉ ops ∧ (.fail ∉ ops ∨ st.failed = true) := by
  induction h with
  | nil => simp
  | @cons s s' s'' op ops o os hs _ ih =>
    rw [List.mem_cons, not_or] at hj
    rw [ih hj.2]
    cases op with
    | join => exact absurd rfl hj.1
    | leave => cases hs; simp
    | fail =>
      simp only [step, Option.some.injEq] at hs
      split at hs
      · rename_i hf; cases hs; simp [hf]
      · rename_i hf; cases hs; simp [hf]

/-- Once a failure is counted, only a leave ends a membership and only a join begins one. -/
theorem registered_of_failed (h : Runs step st ops os st') (hf : st.failed = true)
    (hj : .join ∉ ops) : st'.registered = true ↔ st.registered = true ∧ .leave ∉ ops := by
  rw [registered_of_no_join h hj]
  simp [hf]

theorem registered_iff (h : Runs step st (pre ++ .fail :: post) os st') (hj : .join ∉ post) :
    st'.registered = true ↔ Kept st pre ∧ .leave ∉ post := by
  obtain ⟨s, ps, qs, h₁, h₂, rfl⟩ := h.split
  rw [kept_iff h₁]
  cases h₂ with
  | @cons _ s₁ _ _ _ _ _ hs hrest =>
    simp only [step, Option.some.injEq] at hs
    split at hs
    · rename_i hf
      cases hs
      rw [registered_of_failed hrest hf hj]
      simp [hf]
    · rename_i hf
      cases hs
      rw [registered_of_failed hrest rfl hj]
      simp [hf]

end Presence
end Syncer
end Bakopa
