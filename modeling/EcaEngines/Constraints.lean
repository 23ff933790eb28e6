import Mathlib.Data.Int.Notation
import Mathlib.Data.List.Nodup
import Mathlib.Tactic.Tauto

/-!
# Constraints over integer constants

Formulas over symbols that stand for integers, and what they mean. A solver is anything that
answers a list of them, with a value for every symbol or without.
-/
namespace EcaEngines.Constraints

inductive Term (σ : Type) where
  | const (s : σ)
  | int (n : ℤ)

inductive Formula (σ : Type) where
  | tru
  | le (a b : Term σ)
  | eq (a b : Term σ)
  | and (fs : List (Formula σ))
  | distinct (ts : List (Term σ))
  | ite (c t e : Formula σ)

section
variable {σ : Type}

def Term.eval (M : σ → ℤ) : Term σ → ℤ
  | .const s => M s
  | .int n => n

mutual

def Formula.eval (M : σ → ℤ) : Formula σ → Bool
  | .tru => true
  | .le a b => a.eval M ≤ b.eval M
  | .eq a b => a.eval M = b.eval M
  | .and fs => evalAll M fs
  | .distinct ts => (ts.map (Term.eval M)).Nodup
  | .ite c t e => if c.eval M then t.eval M else e.eval M

def evalAll (M : σ → ℤ) : List (Formula σ) → Bool
  | [] => true
  | f :: fs => f.eval M && evalAll M fs

end

/-- The formula is true under these values. -/
def Formula.Holds (f : Formula σ) (M : σ → ℤ) : Prop := f.eval M = true

instance (f : Formula σ) (M : σ → ℤ) : Decidable (f.Holds M) :=
  inferInstanceAs (Decidable (f.eval M = true))

variable {M : σ → ℤ}

@[simp] theorem holds_tru : (Formula.tru : Formula σ).Holds M := by
  simp [Formula.Holds, Formula.eval]

@[simp] theorem holds_le {a b : Term σ} : (Formula.le a b).Holds M ↔ a.eval M ≤ b.eval M := by
  simp [Formula.Holds, Formula.eval]

@[simp] theorem holds_eq {a b : Term σ} : (Formula.eq a b).Holds M ↔ a.eval M = b.eval M := by
  simp [Formula.Holds, Formula.eval]

@[simp] theorem holds_distinct {ts : List (Term σ)} :
    (Formula.distinct ts).Holds M ↔ (ts.map (Term.eval M)).Nodup := by
  simp [Formula.Holds, Formula.eval]

@[simp] theorem holds_ite {c t e : Formula σ} :
    (Formula.ite c t e).Holds M ↔ (c.Holds M → t.Holds M) ∧ (¬ c.Holds M → e.Holds M) := by
  unfold Formula.Holds
  rw [Formula.eval]
  by_cases hc : c.eval M = true <;> simp [hc]

@[simp] theorem holds_and {fs : List (Formula σ)} :
    (Formula.and fs).Holds M ↔ ∀ f ∈ fs, f.Holds M := by
  have hall : evalAll M fs = true ↔ ∀ f ∈ fs, f.Holds M := by
    induction fs with
    | nil => simp [evalAll]
    | cons f fs ih => simp [evalAll, ih, Formula.Holds]
  unfold Formula.Holds
  rw [Formula.eval, hall]
  rfl

/-- Conjuncts that are added one at a time in front. -/
theorem holds_foldl_and {ι : Type} (g : ι → Formula σ) (l : List ι) (f : Formula σ) :
    (l.foldl (fun f i => .and [g i, f]) f).Holds M ↔ (∀ i ∈ l, (g i).Holds M) ∧ f.Holds M := by
  induction l generalizing f with
  | nil => simp
  | cons i l ih =>
    rw [List.foldl_cons, ih]
    simp
    tauto

/-- Conjuncts that are added one at a time behind. -/
theorem holds_foldl_and_right {ι : Type} (g : ι → Formula σ) (l : List ι) (f : Formula σ) :
    (l.foldl (fun f i => .and [f, g i]) f).Holds M ↔ f.Holds M ∧ ∀ i ∈ l, (g i).Holds M := by
  induction l generalizing f with
  | nil => simp
  | cons i l ih =>
    rw [List.foldl_cons, ih]
    simp
    tauto

/-- What is asserted, and the answer: values for the symbols, or none. -/
abbrev Solver (σ : Type) := List (Formula σ) → Option (σ → ℤ)

/-- The values of a model make all assertions true. -/
def Sound (solver : Solver σ) : Prop :=
  ∀ fs M, solver fs = some M → ∀ f ∈ fs, f.Holds M

/-- A model is found if there is one. -/
def Complete (solver : Solver σ) : Prop :=
  ∀ fs, solver fs = none → ¬ ∃ M, ∀ f ∈ fs, f.Holds M

end

end EcaEngines.Constraints
