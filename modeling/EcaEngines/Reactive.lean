import Mathlib.Data.List.Forall2

/-!
# Reactive systems

A reactive system answers every input with a response and a next state. Its run
over a word is recorded position by position, so that a statement about runs is
a statement about entries. The three rules are induction for an invariant,
induction for a simulation, and the comparison of two systems that agree
exactly on the good steps.
-/
namespace EcaEngines.Reactive

variable {σ τ ι κ ω ν : Type}

abbrev System (σ ι ω : Type) := σ → ι → ω × σ

/-- One position of a run. -/
structure Entry (σ ι ω : Type) where
  before : σ
  input : ι
  response : ω
  after : σ

/-- The state reached by a word. -/
def after (step : System σ ι ω) : σ → List ι → σ
  | s, [] => s
  | s, i :: is => after step (step s i).2 is

def trace (step : System σ ι ω) : σ → List ι → List (Entry σ ι ω)
  | _, [] => []
  | s, i :: is => ⟨s, i, (step s i).1, (step s i).2⟩ :: trace step (step s i).2 is

def responses (step : System σ ι ω) (s : σ) (is : List ι) : List ω :=
  (trace step s is).map Entry.response

@[simp] theorem after_nil (step : System σ ι ω) (s : σ) : after step s [] = s := rfl

@[simp] theorem after_cons (step : System σ ι ω) (s : σ) (i : ι) (is : List ι) :
    after step s (i :: is) = after step (step s i).2 is := rfl

@[simp] theorem trace_nil (step : System σ ι ω) (s : σ) : trace step s [] = [] := rfl

@[simp] theorem trace_cons (step : System σ ι ω) (s : σ) (i : ι) (is : List ι) :
    trace step s (i :: is) =
      ⟨s, i, (step s i).1, (step s i).2⟩ :: trace step (step s i).2 is := rfl

@[simp] theorem responses_nil (step : System σ ι ω) (s : σ) : responses step s [] = [] := rfl

@[simp] theorem responses_cons (step : System σ ι ω) (s : σ) (i : ι) (is : List ι) :
    responses step s (i :: is) = (step s i).1 :: responses step (step s i).2 is := rfl

theorem trace_inputs (step : System σ ι ω) (s : σ) (is : List ι) :
    (trace step s is).map Entry.input = is := by
  induction is generalizing s with
  | nil => rfl
  | cons i is ih => rw [trace_cons, List.map_cons, ih]

theorem after_append (step : System σ ι ω) (s : σ) (is js : List ι) :
    after step s (is ++ js) = after step (after step s is) js := by
  induction is generalizing s with
  | nil => rfl
  | cons i is ih => exact ih (step s i).2

/-- An invariant of the steps is an invariant of the runs. -/
theorem after_invariant {step : System σ ι ω} {I : σ → Prop}
    (hstep : ∀ s i, I s → I (step s i).2) {s : σ} (hs : I s) (is : List ι) :
    I (after step s is) := by
  induction is generalizing s with
  | nil => exact hs
  | cons i is ih => exact ih (hstep s i hs)

/-- What every step from the invariant guarantees holds at every position. -/
theorem trace_forall {step : System σ ι ω} {I : σ → Prop} {P : Entry σ ι ω → Prop}
    (hstep : ∀ s i, I s → P ⟨s, i, (step s i).1, (step s i).2⟩ ∧ I (step s i).2)
    {s : σ} (hs : I s) (is : List ι) : ∀ e ∈ trace step s is, P e := by
  induction is generalizing s with
  | nil => exact fun e he => absurd he List.not_mem_nil
  | cons i is ih =>
    intro e he
    rcases List.mem_cons.mp he with rfl | he
    · exact (hstep s i hs).1
    · exact ih (hstep s i hs).2 e he

/-- A simulation relates the runs position by position, and their ends. -/
theorem trace_simulation {step : System σ ι ω} {step' : System τ κ ν}
    {R : σ → τ → Prop} {J : ι → κ → Prop} {E : Entry σ ι ω → Entry τ κ ν → Prop}
    (hstep : ∀ s t i j, R s t → J i j →
      E ⟨s, i, (step s i).1, (step s i).2⟩ ⟨t, j, (step' t j).1, (step' t j).2⟩ ∧
        R (step s i).2 (step' t j).2)
    {s : σ} {t : τ} (hs : R s t) {is : List ι} {js : List κ} (hij : List.Forall₂ J is js) :
    List.Forall₂ E (trace step s is) (trace step' t js) ∧
      R (after step s is) (after step' t js) := by
  induction hij generalizing s t with
  | nil => exact ⟨.nil, hs⟩
  | cons hj _ ih =>
    obtain ⟨he, hr⟩ := hstep _ _ _ _ hs hj
    exact ⟨.cons he (ih hr).1, (ih hr).2⟩

/-- `G` holds of every state and input met along the run. -/
def Along (step : System σ ι ω) (G : σ → ι → Prop) : σ → List ι → Prop
  | _, [] => True
  | s, i :: is => G s i ∧ Along step G (step s i).2 is

instance (step : System σ ι ω) (G : σ → ι → Prop) [∀ s i, Decidable (G s i)] :
    ∀ s is, Decidable (Along step G s is)
  | _, [] => isTrue trivial
  | s, i :: is =>
    have := instDecidableAlong step G (step s i).2 is
    inferInstanceAs (Decidable (G s i ∧ _))

/-- Two systems that answer alike on the good steps and differently on the
others answer a word alike exactly when all its steps are good. -/
theorem responses_eq_iff_along {step : System σ ι ω} {step' : System τ κ ω}
    {R : σ → τ → Prop} {J : ι → κ → Prop} {G : τ → κ → Prop}
    (hgood : ∀ s t i j, R s t → J i j → G t j →
      (step s i).1 = (step' t j).1 ∧ R (step s i).2 (step' t j).2)
    (hbad : ∀ s t i j, R s t → J i j → ¬ G t j → (step s i).1 ≠ (step' t j).1)
    {s : σ} {t : τ} (hs : R s t) {is : List ι} {js : List κ} (hij : List.Forall₂ J is js) :
    responses step s is = responses step' t js ↔ Along step' G t js := by
  induction hij generalizing s t with
  | nil => exact ⟨fun _ => trivial, fun _ => rfl⟩
  | @cons i j is js hj _ ih =>
    simp only [responses_cons, List.cons.injEq, Along]
    by_cases hg : G t j
    · obtain ⟨he, hr⟩ := hgood s t i j hs hj hg
      simp only [he, hg, true_and, ih hr]
    · simp only [hbad s t i j hs hj hg, hg, false_and]

end EcaEngines.Reactive
