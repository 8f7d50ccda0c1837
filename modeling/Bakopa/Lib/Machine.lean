import Mathlib.Data.List.Induction

/-!
# Bakopa.Lib.Machine

Finite runs of partial machines with outputs.

* `Machine σ α ο`  — a step function: in state `s` a label `a` is either not enabled (`none`) or
  leads to a state and a list of outputs.
* `Runs m s as os s'` — `s'` is reached from `s` by the labels `as`, with outputs `os`.
* `run`            — a run as a function of its labels, so that a concrete one can be evaluated.
* `trace`          — the labels of a run, each with what its step puts out.
* `Always m P s as`, `Each m Q s as` — `P` holds of every state of the run of `as` from `s`,
  `Q` holds of every step it takes.
* `Throughout P l` — `P` holds of every element of a history and what came before it.
* `Followed P Q l` — after every element with `P` stands one with `Q`.

The proof rules at the end say what a step lemma gives for whole runs: an invariant, a view that
the outputs explain, a queue, a simulation, and an exact condition on the steps
(`always_iff_each`).
-/

namespace Bakopa
namespace Lib

/-- An element of `l ++ [a]` is the last one, or stands in `l`. -/
theorem snoc_split {α : Type} {l pre post : List α} {a x : α} (h : l ++ [a] = pre ++ x :: post) :
    (post = [] ∧ l = pre ∧ a = x) ∨ ∃ rest, post = rest ++ [a] ∧ l = pre ++ x :: rest := by
  rcases List.eq_nil_or_concat post with rfl | ⟨rest, last, rfl⟩
  · rw [List.append_singleton_inj] at h
    exact .inl ⟨rfl, h⟩
  · rw [List.concat_eq_append, ← List.cons_append, ← List.append_assoc,
      List.append_singleton_inj] at h
    obtain ⟨rfl, rfl⟩ := h
    exact .inr ⟨rest, List.concat_eq_append, rfl⟩

/-- Of the elements of a list with `P`, one is the last. -/
theorem exists_last {α : Type} {P : α → Prop} {l : List α} {x : α} (hx : x ∈ l) (hP : P x) :
    ∃ pre a post, l = pre ++ a :: post ∧ P a ∧ ∀ b ∈ post, ¬ P b := by
  induction l using List.reverseRecOn with
  | nil => cases hx
  | append_singleton l a ih =>
    by_cases ha : P a
    · exact ⟨l, a, [], rfl, ha, fun b hb => nomatch hb⟩
    · rcases List.mem_append.mp hx with hx | hx
      · obtain ⟨pre, b, post, rfl, hb, hpost⟩ := ih hx
        refine ⟨pre, b, post ++ [a], by simp, hb, fun y hy => ?_⟩
        rcases List.mem_append.mp hy with hy | hy
        · exact hpost y hy
        · rwa [List.mem_singleton.mp hy]
      · rw [List.mem_singleton.mp hx] at hP
        exact absurd hP ha

/-- `P` holds of every element of the list and what stands before it. -/
def Throughout {α : Type} (P : List α → α → Prop) (l : List α) : Prop :=
  ∀ pre a post, l = pre ++ a :: post → P pre a

namespace Throughout

variable {α : Type} {P : List α → α → Prop} {l l' : List α} {a : α}

theorem nil : Throughout P [] := by
  intro pre a post h
  simp at h

theorem of_forall (h : ∀ pre, ∀ a ∈ l, P pre a) : Throughout P l := by
  rintro pre a post rfl
  exact h pre a (by simp)

theorem cons_iff : Throughout P (a :: l) ↔ P [] a ∧ Throughout (fun pre => P (a :: pre)) l := by
  constructor
  · intro h
    refine ⟨h [] a l rfl, ?_⟩
    rintro pre b post rfl
    exact h (a :: pre) b post rfl
  · rintro ⟨hhead, htail⟩ pre b post h
    cases pre with
    | nil => cases h; exact hhead
    | cons x pre =>
      rw [List.cons_append, List.cons.injEq] at h
      obtain ⟨rfl, h⟩ := h
      exact htail pre b post h

theorem append_iff :
    Throughout P (l ++ l') ↔ Throughout P l ∧ Throughout (fun pre => P (l ++ pre)) l' := by
  induction l generalizing P with
  | nil => exact ⟨fun h => ⟨nil, h⟩, fun h => h.2⟩
  | cons a l ih => rw [List.cons_append, cons_iff, ih, cons_iff, and_assoc]; rfl

theorem singleton_iff : Throughout P [a] ↔ P [] a := by
  rw [cons_iff]
  exact ⟨fun h => h.1, fun h => ⟨h, nil⟩⟩

end Throughout

/-- Every element with `P` is followed by one with `Q`. -/
def Followed {α : Type} (P Q : α → Prop) (l : List α) : Prop :=
  ∀ pre a post, l = pre ++ a :: post → P a → ∃ b ∈ post, Q b

namespace Followed

variable {α : Type} {P Q : α → Prop} {l : List α} {a : α}

theorem nil : Followed P Q [] := by
  intro pre a post h
  simp at h

theorem snoc_iff : Followed P Q (l ++ [a]) ↔ ¬ P a ∧ (Q a ∨ Followed P Q l) := by
  constructor
  · intro h
    refine ⟨fun ha => ?_, ?_⟩
    · obtain ⟨b, hb, -⟩ := h l a [] rfl ha
      cases hb
    · by_cases hq : Q a
      · exact .inl hq
      · right
        rintro pre x post rfl hx
        obtain ⟨b, hb, hqb⟩ := h pre x (post ++ [a]) (by simp) hx
        rcases List.mem_append.mp hb with hb | hb
        · exact ⟨b, hb, hqb⟩
        · rw [List.mem_singleton.mp hb] at hqb
          exact absurd hqb hq
  · rintro ⟨hp, hq⟩ pre x post h hx
    rcases snoc_split h with ⟨rfl, rfl, rfl⟩ | ⟨rest, rfl, rfl⟩
    · exact absurd hx hp
    · rcases hq with hq | hq
      · exact ⟨a, by simp, hq⟩
      · obtain ⟨b, hb, hqb⟩ := hq pre x rest rfl hx
        exact ⟨b, List.mem_append_left _ hb, hqb⟩

end Followed

/-- `m s a = none` when `a` is not enabled in `s`. -/
abbrev Machine (σ α ο : Type) := σ → α → Option (σ × List ο)

namespace Machine

variable {σ α ο : Type}

inductive Runs (m : Machine σ α ο) : σ → List α → List ο → σ → Prop where
  | nil {s : σ} : Runs m s [] [] s
  | cons {s s' s'' : σ} {a : α} {as : List α} {o os : List ο} :
      m s a = some (s', o) → Runs m s' as os s'' → Runs m s (a :: as) (o ++ os) s''

def run (m : Machine σ α ο) : σ → List α → Option (σ × List ο)
  | s, [] => some (s, [])
  | s, a :: as =>
    match m s a with
    | none => none
    | some (s', o) =>
      match run m s' as with
      | none => none
      | some (s'', os) => some (s'', o ++ os)

def trace (m : Machine σ α ο) : σ → List α → List (α × List ο)
  | _, [] => []
  | s, a :: as =>
    match m s a with
    | none => []
    | some (s', o) => (a, o) :: trace m s' as

def Always (m : Machine σ α ο) (P : σ → Prop) : σ → List α → Prop
  | s, [] => P s
  | s, a :: as => P s ∧ ∀ s' o, m s a = some (s', o) → Always m P s' as

def Each (m : Machine σ α ο) (Q : σ → α → Prop) : σ → List α → Prop
  | _, [] => True
  | s, a :: as => ∀ s' o, m s a = some (s', o) → Q s a ∧ Each m Q s' as

theorem Runs.single {m : Machine σ α ο} {s s' : σ} {a : α} {o : List ο}
    (h : m s a = some (s', o)) : Runs m s [a] o s' := by
  have := Runs.cons h (Runs.nil (m := m))
  simpa using this

theorem Runs.trans {m : Machine σ α ο} {s s' s'' : σ} {as bs : List α} {os ps : List ο}
    (h₁ : Runs m s as os s') (h₂ : Runs m s' bs ps s'') : Runs m s (as ++ bs) (os ++ ps) s'' := by
  induction h₁ with
  | nil => exact h₂
  | cons hs _ ih => rw [List.append_assoc]; exact .cons hs (ih h₂)

/-- A run of `as ++ bs` passes through the state the run of `as` ends in. -/
theorem Runs.split {m : Machine σ α ο} {s s'' : σ} {as bs : List α} {os : List ο}
    (h : Runs m s (as ++ bs) os s'') :
    ∃ s' ps qs, Runs m s as ps s' ∧ Runs m s' bs qs s'' ∧ os = ps ++ qs := by
  induction as generalizing s os with
  | nil => exact ⟨s, [], os, .nil, h, rfl⟩
  | cons a as ih =>
    cases h with
    | cons hs hrest =>
      obtain ⟨s', ps, qs, h₁, h₂, rfl⟩ := ih hrest
      exact ⟨s', _, qs, .cons hs h₁, h₂, by rw [List.append_assoc]⟩

theorem Runs.det {m : Machine σ α ο} {s s' s'' : σ} {as : List α} {os ps : List ο}
    (h : Runs m s as os s') (h' : Runs m s as ps s'') : ps = os ∧ s'' = s' := by
  induction h generalizing ps with
  | nil => cases h'; exact ⟨rfl, rfl⟩
  | cons ha _ ih =>
    cases h' with
    | cons ha' hrest =>
      rw [ha] at ha'
      cases ha'
      obtain ⟨rfl, rfl⟩ := ih hrest
      exact ⟨rfl, rfl⟩

theorem Runs.split_last {m : Machine σ α ο} {s s'' : σ} {as : List α} {a : α} {os : List ο}
    (h : Runs m s (as ++ [a]) os s'') :
    ∃ s' ps o, Runs m s as ps s' ∧ m s' a = some (s'', o) ∧ os = ps ++ o := by
  obtain ⟨s', ps, qs, h₁, h₂, rfl⟩ := h.split
  cases h₂ with
  | cons ha hnil =>
    cases hnil
    exact ⟨s', ps, _, h₁, ha, by rw [List.append_nil]⟩

theorem Runs.split_at_output {m : Machine σ α ο} {s s' : σ} {as : List α} {os before after : List ο}
    {x : ο} (h : Runs m s as os s') (hos : os = before ++ x :: after) :
    ∃ bs pre s₁ a o₁ o₂ s₂ cs post, Runs m s bs pre s₁ ∧ m s₁ a = some (s₂, o₁ ++ x :: o₂) ∧
      Runs m s₂ cs post s' ∧ before = pre ++ o₁ ∧ after = o₂ ++ post ∧ as = bs ++ a :: cs := by
  induction h generalizing before with
  | nil => simp at hos
  | @cons s s₁ s' a as o os ha hrest ih =>
    have hlater : ∀ rest, before = o ++ rest → os = rest ++ x :: after →
        ∃ bs pre s₁ b o₁ o₂ s₂ cs post, Runs m s bs pre s₁ ∧ m s₁ b = some (s₂, o₁ ++ x :: o₂) ∧
          Runs m s₂ cs post s' ∧ before = pre ++ o₁ ∧ after = o₂ ++ post ∧
          a :: as = bs ++ b :: cs := by
      rintro rest rfl hrest
      obtain ⟨bs, pre, t₁, b, o₁, o₂, t₂, cs, post, h₁, h₂, h₃, rfl, rfl, rfl⟩ := ih hrest
      exact ⟨a :: bs, o ++ pre, t₁, b, o₁, o₂, t₂, cs, post, .cons ha h₁, h₂, h₃,
        by rw [List.append_assoc], rfl, rfl⟩
    rcases List.append_eq_append_iff.mp hos with ⟨rest, hb, hr⟩ | ⟨rest, ho, hr⟩
    · exact hlater rest hb hr
    · cases rest with
      | nil =>
        rw [List.append_nil] at ho
        exact hlater [] (by rw [List.append_nil, ho]) hr.symm
      | cons y rest =>
        rw [List.cons_append, List.cons.injEq] at hr
        obtain ⟨rfl, rfl⟩ := hr
        exact ⟨[], [], s, a, before, rest, s₁, as, os, .nil, ho ▸ ha, hrest, rfl, rfl, rfl⟩

/-- Every output of a run is put out by one of its steps. -/
theorem Runs.split_output {m : Machine σ α ο} {s s' : σ} {as : List α} {os before after : List ο}
    {x : ο} (h : Runs m s as os s') (hos : os = before ++ x :: after) :
    ∃ bs pre s₁ a o₁ o₂ s₂ cs post, Runs m s bs pre s₁ ∧ m s₁ a = some (s₂, o₁ ++ x :: o₂) ∧
      Runs m s₂ cs post s' ∧ before = pre ++ o₁ ∧ after = o₂ ++ post := by
  obtain ⟨bs, pre, s₁, a, o₁, o₂, s₂, cs, post, h₁, h₂, h₃, hb, ha, -⟩ := h.split_at_output hos
  exact ⟨bs, pre, s₁, a, o₁, o₂, s₂, cs, post, h₁, h₂, h₃, hb, ha⟩

theorem run_sound {m : Machine σ α ο} :
    ∀ {as : List α} {s s' : σ} {os : List ο}, run m s as = some (s', os) → Runs m s as os s' := by
  intro as
  induction as with
  | nil => intro s s' os h; simp only [run] at h; cases h; exact .nil
  | cons a as ih =>
    intro s s' os h
    simp only [run] at h
    split at h
    · cases h
    · rename_i s₁ o hs
      split at h
      · cases h
      · rename_i s₂ os' hr; cases h
        exact .cons hs (ih hr)

theorem trace_cons {m : Machine σ α ο} {s s' : σ} {a : α} {as : List α} {o : List ο}
    (h : m s a = some (s', o)) : trace m s (a :: as) = (a, o) :: trace m s' as := by
  rw [trace, h]

theorem Runs.invariant {m : Machine σ α ο} {I : σ → Prop}
    (hstep : ∀ s a s' o, I s → m s a = some (s', o) → I s') {s s' : σ} {as : List α}
    {os : List ο} (h : Runs m s as os s') (hs : I s) : I s' := by
  induction h with
  | nil => exact hs
  | cons ha _ ih => exact ih (hstep _ _ _ _ hs ha)

/-- As `Runs.invariant`, for an invariant that only the steps meeting `Q` preserve. -/
theorem Runs.invariant_each {m : Machine σ α ο} {I : σ → Prop} {Q : σ → α → Prop}
    (hstep : ∀ s a s' o, I s → Q s a → m s a = some (s', o) → I s') {s s' : σ} {as : List α}
    {os : List ο} (h : Runs m s as os s') (hq : Each m Q s as) (hs : I s) : I s' := by
  induction h with
  | nil => exact hs
  | cons ha _ ih =>
    obtain ⟨hqa, hrest⟩ := hq _ _ ha
    exact ih hrest (hstep _ _ _ _ hs hqa ha)

/-- What every step from a state with the invariant puts out, a run puts out. -/
theorem Runs.outputs {m : Machine σ α ο} {I : σ → Prop} {O : ο → Prop}
    (hI : ∀ s a s' o, I s → m s a = some (s', o) → I s')
    (hstep : ∀ s a s' o, I s → m s a = some (s', o) → ∀ x ∈ o, O x)
    {s s' : σ} {as : List α} {os : List ο} (h : Runs m s as os s') (hs : I s) :
    ∀ x ∈ os, O x := by
  induction h with
  | nil => intro x hx; cases hx
  | cons ha _ ih =>
    intro x hx
    rcases List.mem_append.mp hx with hx | hx
    · exact hstep _ _ _ _ hs ha x hx
    · exact ih (hI _ _ _ _ hs ha) x hx

/-- As `Runs.outputs`, for the outputs of a step together with its label. -/
theorem Runs.forall_trace {m : Machine σ α ο} {I : σ → Prop} {P : α × List ο → Prop}
    (hI : ∀ s a s' o, I s → m s a = some (s', o) → I s')
    (hstep : ∀ s a s' o, I s → m s a = some (s', o) → P (a, o)) {s s' : σ} {as : List α}
    {os : List ο} (h : Runs m s as os s') (hs : I s) : ∀ x ∈ trace m s as, P x := by
  induction h with
  | nil => intro x hx; cases hx
  | cons ha _ ih =>
    rw [trace_cons ha]
    exact List.forall_mem_cons.mpr ⟨hstep _ _ _ _ hs ha, ih (hI _ _ _ _ hs ha)⟩

/-- As `Runs.outputs`, for an invariant that only steps with labels in `Q` preserve. -/
theorem Runs.outputs_of {m : Machine σ α ο} {I : σ → Prop} {Q : α → Prop} {O : ο → Prop}
    (hstep : ∀ s a s' o, I s → Q a → m s a = some (s', o) → I s' ∧ ∀ x ∈ o, O x)
    {s s' : σ} {as : List α} {os : List ο} (h : Runs m s as os s') (hq : ∀ a ∈ as, Q a)
    (hs : I s) : I s' ∧ ∀ x ∈ os, O x := by
  induction h with
  | nil => exact ⟨hs, fun x hx => nomatch hx⟩
  | @cons _ _ _ a as _ _ ha _ ih =>
    obtain ⟨hI, ho⟩ := hstep _ _ _ _ hs (hq a List.mem_cons_self) ha
    obtain ⟨hI', hos⟩ := ih (fun b hb => hq b (List.mem_cons_of_mem a hb)) hI
    exact ⟨hI', List.forall_mem_append.mpr ⟨ho, hos⟩⟩

/-- If every step's outputs, applied to the view before it, give the view after it, then so do
the outputs of a run. -/
theorem Runs.foldl_view {m : Machine σ α ο} {ν : Type} {view : σ → ν} {apply : ν → ο → ν}
    (hstep : ∀ s a s' o, m s a = some (s', o) → o.foldl apply (view s) = view s')
    {s s' : σ} {as : List α} {os : List ο} (h : Runs m s as os s') :
    os.foldl apply (view s) = view s' := by
  induction h with
  | nil => rfl
  | cons ha _ ih => rw [List.foldl_append, hstep _ _ _ _ ha, ih]

/-- If every step takes its first elements from a queue and puts others at its end, a run takes
out what the queue held followed by what was put in, as far as the queue does not still hold it. -/
theorem Runs.fifo {m : Machine σ α ο} {γ : Type} {I : σ → Prop} {held : σ → List γ}
    {takes puts : ο → List γ} (hI : ∀ s a s' o, I s → m s a = some (s', o) → I s')
    (hstep : ∀ s a s' o, I s → m s a = some (s', o) →
      o.flatMap takes ++ held s' = held s ++ o.flatMap puts)
    {s s' : σ} {as : List α} {os : List ο} (h : Runs m s as os s') (hs : I s) :
    os.flatMap takes ++ held s' = held s ++ os.flatMap puts := by
  induction h with
  | nil => simp
  | @cons s s₁ s' a as o os ha _ ih =>
    calc (o ++ os).flatMap takes ++ held s'
        = o.flatMap takes ++ (os.flatMap takes ++ held s') := by
          rw [List.flatMap_append, List.append_assoc]
      _ = (o.flatMap takes ++ held s₁) ++ os.flatMap puts := by
          rw [ih (hI _ _ _ _ hs ha), List.append_assoc]
      _ = held s ++ (o ++ os).flatMap puts := by
          rw [hstep _ _ _ _ hs ha, List.flatMap_append, List.append_assoc]

/-- Steps that are runs of another machine make up a run of it. -/
theorem Runs.expand {β : Type} {m : Machine σ α ο} {m' : Machine σ β ο} {Q : α → β → Prop}
    (hstep : ∀ s a s' o, m s a = some (s', o) → ∃ bs, Runs m' s bs o s' ∧ ∀ b ∈ bs, Q a b)
    {s s' : σ} {as : List α} {os : List ο} (h : Runs m s as os s') :
    ∃ bs, Runs m' s bs os s' ∧ ∀ b ∈ bs, ∃ a ∈ as, Q a b := by
  induction h with
  | nil => exact ⟨[], .nil, by simp⟩
  | @cons _ _ _ a as _ _ ha _ ih =>
    obtain ⟨bs, hbs, hq⟩ := hstep _ _ _ _ ha
    obtain ⟨cs, hcs, hq'⟩ := ih
    refine ⟨bs ++ cs, hbs.trans hcs, fun b hb => ?_⟩
    rcases List.mem_append.mp hb with hb | hb
    · exact ⟨a, List.mem_cons_self, hq b hb⟩
    · obtain ⟨a', ha', hb'⟩ := hq' b hb
      exact ⟨a', List.mem_cons_of_mem a ha', hb'⟩

/-- If the outputs of every step spell a run of `m'` between the views of its states (`f` its
labels, `g` its outputs), then so do the outputs of a run. -/
theorem Runs.simulates {σ' α' ο' : Type} {m : Machine σ α ο} {m' : Machine σ' α' ο'}
    {view : σ → σ'} {f : ο → List α'} {g : ο → List ο'} {Q : α → Prop}
    (hstep : ∀ s a s' o, Q a → m s a = some (s', o) →
      Runs m' (view s) (o.flatMap f) (o.flatMap g) (view s'))
    {s s' : σ} {as : List α} {os : List ο} (h : Runs m s as os s') (hq : ∀ a ∈ as, Q a) :
    Runs m' (view s) (os.flatMap f) (os.flatMap g) (view s') := by
  induction h with
  | nil => exact .nil
  | cons ha _ ih =>
    rw [List.flatMap_append, List.flatMap_append]
    exact (hstep _ _ _ _ (hq _ List.mem_cons_self) ha).trans
      (ih fun a h => hq a (List.mem_cons_of_mem _ h))

/-- Where a hidden step keeps `E`, and a visible one can be taken alike on the other side of `E`, a
run can be taken there without its hidden steps; what they put out is all that is missing. -/
theorem Runs.purge {m : Machine σ α ο} {E : σ → σ → Prop} {V : α → Bool} {K : ο → Bool}
    {Q : α → Prop}
    (hvisible : ∀ s t a s' o, E s t → Q a → V a = true → m s a = some (s', o) →
      (∃ t', m t a = some (t', o) ∧ E s' t') ∧ ∀ x ∈ o, K x = true)
    (hhidden : ∀ s t a s' o, E s t → Q a → V a = false → m s a = some (s', o) →
      E s' t ∧ ∀ x ∈ o, K x = false)
    {s s' t : σ} {as : List α} {os : List ο} (h : Runs m s as os s') (hq : ∀ a ∈ as, Q a)
    (hE : E s t) : ∃ t', Runs m t (as.filter V) (os.filter K) t' ∧ E s' t' := by
  induction h generalizing t with
  | nil => exact ⟨t, .nil, hE⟩
  | @cons s s₁ s' a as o os ha _ ih =>
    have hqa := hq a List.mem_cons_self
    have hrest : ∀ b ∈ as, Q b := fun b hb => hq b (List.mem_cons_of_mem a hb)
    cases hv : V a with
    | true =>
      obtain ⟨⟨t₁, ht, hE₁⟩, hK⟩ := hvisible s t a s₁ o hE hqa hv ha
      obtain ⟨t', hr, hE'⟩ := ih hrest hE₁
      refine ⟨t', ?_, hE'⟩
      rw [List.filter_cons_of_pos hv, List.filter_append, List.filter_eq_self.mpr hK]
      exact .cons ht hr
    | false =>
      obtain ⟨hE₁, hK⟩ := hhidden s t a s₁ o hE hqa hv ha
      obtain ⟨t', hr, hE'⟩ := ih hrest hE₁
      have hnone : o.filter K = [] := List.filter_eq_nil_iff.mpr fun x hx => by simp [hK x hx]
      refine ⟨t', ?_, hE'⟩
      rw [List.filter_cons_of_neg (by simp [hv]), List.filter_append, hnone]
      exact hr

/-- An invariant of the state together with the labels and outputs that led to it. -/
theorem Runs.history {m : Machine σ α ο} {I : σ → List α → List ο → Prop} {s₀ : σ}
    (hnil : I s₀ [] [])
    (hstep : ∀ s as os a s' o, Runs m s₀ as os s → I s as os → m s a = some (s', o) →
      I s' (as ++ [a]) (os ++ o)) {s : σ} {as : List α} {os : List ο} (h : Runs m s₀ as os s) :
    I s as os := by
  induction as using List.reverseRecOn generalizing s os with
  | nil => cases h; exact hnil
  | append_singleton as a ih =>
    obtain ⟨s', ps, o, hr, ha, rfl⟩ := h.split_last
    exact hstep s' as ps a s o hr (ih hr) ha

/-- As `Runs.history`, where the labels are of a kind that those before the last one are of too. -/
theorem Runs.history_of {m : Machine σ α ο} {K : List α → Prop} {I : σ → List α → List ο → Prop}
    {s₀ : σ} (hK : ∀ as a, K (as ++ [a]) → K as) (hnil : I s₀ [] [])
    (hstep : ∀ s as os a s' o, Runs m s₀ as os s → K (as ++ [a]) → I s as os →
      m s a = some (s', o) → I s' (as ++ [a]) (os ++ o)) {s : σ} {as : List α} {os : List ο}
    (h : Runs m s₀ as os s) (hk : K as) : I s as os := by
  refine h.history (I := fun s as os => K as → I s as os) (fun _ => hnil) ?_ hk
  intro s as os a s' o hr ih ha hk
  exact hstep s as os a s' o hr hk (ih (hK as a hk)) ha

theorem Always.head {m : Machine σ α ο} {P : σ → Prop} {s : σ} {as : List α}
    (h : Always m P s as) : P s := by
  cases as with
  | nil => exact h
  | cons a as => exact h.1

theorem Always.last {m : Machine σ α ο} {P : σ → Prop} {s s' : σ} {as : List α} {os : List ο}
    (h : Always m P s as) (hr : Runs m s as os s') : P s' := by
  induction hr with
  | nil => exact h
  | cons ha _ ih => exact ih (h.2 _ _ ha)

theorem Always.snoc {m : Machine σ α ο} {P : σ → Prop} {s s' : σ} {as : List α} {os : List ο}
    {a : α} (h : Always m P s as) (hr : Runs m s as os s')
    (hnext : ∀ s'' o, m s' a = some (s'', o) → P s'') : Always m P s (as ++ [a]) := by
  induction hr with
  | nil => exact ⟨h, hnext⟩
  | cons hb _ ih =>
    refine ⟨h.1, fun t o hb' => ?_⟩
    have hrest := h.2 t o hb'
    rw [hb] at hb'
    cases hb'
    exact ih hrest hnext

theorem Each.step {m : Machine σ α ο} {Q : σ → α → Prop} {s s' : σ} {a : α} {as : List α}
    {o : List ο} (h : m s a = some (s', o)) (hq : Q s a) (hrest : Each m Q s' as) :
    Each m Q s (a :: as) := by
  intro s₁ o₁ h₁
  rw [h] at h₁
  cases h₁
  exact ⟨hq, hrest⟩

theorem Each.snoc_iff {m : Machine σ α ο} {Q : σ → α → Prop} {s s' s'' : σ} {a : α} {as : List α}
    {os o : List ο} (hr : Runs m s as os s') (ha : m s' a = some (s'', o)) :
    Each m Q s (as ++ [a]) ↔ Each m Q s as ∧ Q s' a := by
  induction hr with
  | nil => exact ⟨fun h => ⟨trivial, (h s'' o ha).1⟩, fun h => .step ha h.2 trivial⟩
  | cons hb _ ih =>
    constructor
    · intro h
      obtain ⟨hq, hrest⟩ := h _ _ hb
      obtain ⟨hrest, hlast⟩ := (ih ha).mp hrest
      exact ⟨.step hb hq hrest, hlast⟩
    · rintro ⟨h, hlast⟩
      obtain ⟨hq, hrest⟩ := h _ _ hb
      exact .step hb hq ((ih ha).mpr ⟨hrest, hlast⟩)

theorem Each.congr {m : Machine σ α ο} {Q R : σ → α → Prop} {s : σ} {as : List α}
    (hQR : ∀ s, ∀ a ∈ as, ∀ s' o, m s a = some (s', o) → (Q s a ↔ R s a)) :
    Each m Q s as ↔ Each m R s as := by
  induction as generalizing s with
  | nil => exact Iff.rfl
  | cons a as ih =>
    have hrest : ∀ s', Each m Q s' as ↔ Each m R s' as := fun s' =>
      ih fun s b hb => hQR s b (List.mem_cons_of_mem a hb)
    have hhead := hQR s a List.mem_cons_self
    constructor
    · intro h s' o ha
      obtain ⟨hq, hr⟩ := h s' o ha
      exact ⟨(hhead s' o ha).mp hq, (hrest s').mp hr⟩
    · intro h s' o ha
      obtain ⟨hq, hr⟩ := h s' o ha
      exact ⟨(hhead s' o ha).mpr hq, (hrest s').mpr hr⟩

/-- Where the outputs of a step all have `O` exactly when the step meets `Q`, the outputs of a run
all have `O` exactly when each of its steps meets `Q`. -/
theorem Runs.outputs_iff_each {m : Machine σ α ο} {O : ο → Prop} {Q : σ → α → Prop}
    (hstep : ∀ s a s' o, m s a = some (s', o) → ((∀ x ∈ o, O x) ↔ Q s a)) {s s' : σ}
    {as : List α} {os : List ο} (h : Runs m s as os s') : (∀ x ∈ os, O x) ↔ Each m Q s as := by
  induction h with
  | nil => exact ⟨fun _ => trivial, fun _ x hx => nomatch hx⟩
  | cons ha _ ih =>
    rw [List.forall_mem_append, hstep _ _ _ _ ha, ih]
    constructor
    · exact fun h => .step ha h.1 h.2
    · exact fun h => h _ _ ha

/-- Where `Q` of a state is `R` of the labels that led to it, a run of a machine without disabled
labels takes only steps with `Q` exactly when `R` holds throughout its labels. -/
theorem each_iff_throughout {m : Machine σ α ο} {Q : σ → α → Prop} {R : List α → α → Prop}
    {J : List α → σ → Prop} (htotal : ∀ s a, ∃ s' o, m s a = some (s', o))
    (hJ : ∀ pre s a s' o, J pre s → m s a = some (s', o) → J (pre ++ [a]) s')
    (hQR : ∀ pre s a, J pre s → (Q s a ↔ R pre a)) {pre : List α} {s : σ} {as : List α}
    (hs : J pre s) : Each m Q s as ↔ Throughout (fun before => R (pre ++ before)) as := by
  induction as generalizing pre s with
  | nil => exact ⟨fun _ => .nil, fun _ => trivial⟩
  | cons a as ih =>
    obtain ⟨s', o, ha⟩ := htotal s a
    have hrest := ih (hJ pre s a s' o hs ha)
    simp only [List.append_assoc, List.singleton_append] at hrest
    rw [Throughout.cons_iff, List.append_nil, ← hQR pre s a hs, ← hrest]
    exact ⟨fun h => h s' o ha, fun h => .step ha h.1 h.2⟩

/-- Where, in the states that satisfy `J`, a step from a state with `P` ends in a state with `P`
exactly when it meets `Q`, a run stays in `P` exactly when each of its steps meets `Q`. -/
theorem always_iff_each {m : Machine σ α ο} {J P : σ → Prop} {Q : σ → α → Prop}
    (hJ : ∀ s a s' o, J s → m s a = some (s', o) → J s')
    (hPQ : ∀ s a s' o, J s → P s → m s a = some (s', o) → (P s' ↔ Q s a))
    {s : σ} {as : List α} (hs : J s) (hp : P s) : Always m P s as ↔ Each m Q s as := by
  induction as generalizing s with
  | nil => exact ⟨fun _ => trivial, fun _ => hp⟩
  | cons a as ih =>
    constructor
    · rintro ⟨-, h⟩ s' o ha
      have hp' : P s' := (h s' o ha).head
      exact ⟨(hPQ s a s' o hs hp ha).mp hp', (ih (hJ s a s' o hs ha) hp').mp (h s' o ha)⟩
    · intro h
      refine ⟨hp, fun s' o ha => ?_⟩
      obtain ⟨hq, hrest⟩ := h s' o ha
      have hp' : P s' := (hPQ s a s' o hs hp ha).mpr hq
      exact (ih (hJ s a s' o hs ha) hp').mpr hrest

end Machine

end Lib
end Bakopa
