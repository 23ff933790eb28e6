import EcaEngines.Imperative

/-!
# Programs that act at most once

A program of this shape is a sequence of nested `if`s over a state that says
whether an action has been taken. While none has, the conditions answer as they
did at the start; once one has, every later condition fails. Such a program
takes the first action whose conditions hold. The rules build the answer of the
whole program from those of its conditions.
-/
namespace EcaEngines.FirstMatch
open Imperative

variable {χ σ τ : Type}

/-- The states in which no action has been taken, and those an action leads to. -/
structure Phases (σ τ : Type) where
  idle : σ → Prop
  acted : τ → σ → Prop

namespace Phases

/-- The end of a program that took the action, or none; `Q` is about the latter. -/
def At (φ : Phases σ τ) (Q : Except χ Unit → σ → Prop) :
    Option τ → Except χ Unit × σ → Prop
  | none, r => Q r.1 r.2
  | some t, r => r.1 = .ok () ∧ φ.acted t r.2

/-- The program returns and leaves the choice to those after it. -/
def Still (φ : Phases σ τ) (r : Except χ Unit) (s : σ) : Prop := r = .ok () ∧ φ.idle s

/-- The condition decides `P` as long as no action has been taken. -/
structure Decides (φ : Phases σ τ) (c : Imp χ σ Bool) (P : Prop) [Decidable P] : Prop where
  idle : ∀ s, φ.idle s → ∃ s', exec c s = (.ok (decide P), s') ∧ φ.idle s'
  acted : ∀ t s, φ.acted t s → ∃ s', exec c s = (.ok false, s') ∧ φ.acted t s'

/-- The program takes the action `o` unless one has been taken. If none is taken
at all it ends with `Q`. -/
structure Ends (φ : Phases σ τ) (Q : Except χ Unit → σ → Prop) (p : Imp χ σ Unit)
    (o : Option τ) : Prop where
  idle : ∀ s, φ.idle s → φ.At Q o (exec p s)
  acted : ∀ t s, φ.acted t s → Leads p s (φ.acted t)

abbrev Takes (φ : Phases σ τ) (p : Imp χ σ Unit) (o : Option τ) : Prop := φ.Ends φ.Still p o

variable {φ : Phases σ τ} {c : Imp χ σ Bool} {p q : Imp χ σ Unit} {P : Prop}
  [Decidable P] {o o' : Option τ} {Q : Except χ Unit → σ → Prop}

/-- The first of two answers counts. -/
theorem Takes.seq (hp : φ.Takes p o) (hq : φ.Ends Q q o') :
    φ.Ends Q (p >>= fun _ => q) (o.or o') where
  idle s hs := by
    have h := hp.idle s hs
    cases o with
    | none =>
      rw [exec_bind_ok (Prod.ext h.1 rfl)]
      exact hq.idle _ h.2
    | some t =>
      obtain ⟨s', he, hs'⟩ := hq.acted t _ h.2
      rw [exec_bind_ok (Prod.ext h.1 rfl), he]
      exact ⟨rfl, hs'⟩
  acted t s hs := by
    obtain ⟨s', he, hs'⟩ := hp.acted t s hs
    exact Leads.seq he (hq.acted t s' hs')

/-- Only a condition that held lets its body run, so the body need not be
examined after an action. -/
theorem Decides.guards (hc : φ.Decides c P)
    (hp : P → ∀ s, φ.idle s → φ.At φ.Still o (exec p s)) :
    φ.Takes (ifM c p) (if P then o else none) where
  idle s hs := by
    obtain ⟨s', he, hs'⟩ := hc.idle s hs
    by_cases h : P
    · rw [exec_ifM_of_true (he.trans (by rw [decide_eq_true h])), if_pos h]
      exact hp h s' hs'
    · rw [exec_ifM_of_false (he.trans (by rw [decide_eq_false h])), if_neg h]
      exact ⟨rfl, hs'⟩
  acted t s hs := by
    obtain ⟨s', he, hs'⟩ := hc.acted t s hs
    exact ⟨s', exec_ifM_of_false he, hs'⟩

/-- If the program ends with `Q` and not at a condition, it does so only if that held. -/
theorem Decides.nest_ends (hc : φ.Decides c P) (hp : P → φ.Ends Q p o) :
    φ.Ends (fun r s => if P then Q r s else φ.Still r s) (ifM c p) (if P then o else none) where
  idle s hs := by
    obtain ⟨s', he, hs'⟩ := hc.idle s hs
    by_cases h : P
    · rw [exec_ifM_of_true (he.trans (by rw [decide_eq_true h])), if_pos h]
      simp only [if_pos h]
      exact (hp h).idle s' hs'
    · rw [exec_ifM_of_false (he.trans (by rw [decide_eq_false h])), if_neg h]
      simp only [if_neg h]
      exact ⟨rfl, hs'⟩
  acted t s hs := by
    obtain ⟨s', he, hs'⟩ := hc.acted t s hs
    exact ⟨s', exec_ifM_of_false he, hs'⟩

theorem Decides.nest (hc : φ.Decides c P) (hp : P → φ.Takes p o) :
    φ.Takes (ifM c p) (if P then o else none) :=
  hc.guards fun h => (hp h).idle

theorem Decides.act {t : τ} (hc : φ.Decides c P)
    (hp : P → ∀ s, φ.idle s → Leads p s (φ.acted t)) :
    φ.Takes (ifM c p) (if P then some t else none) :=
  hc.guards fun h s hs => by
    obtain ⟨s', he, hs'⟩ := hp h s hs
    rw [he]
    exact ⟨rfl, hs'⟩

/-- The check that closes such a program runs its body if no action was taken. -/
theorem Decides.check (hc : φ.Decides c True)
    (hp : ∀ s, φ.idle s → Q (exec p s).1 (exec p s).2) : φ.Ends Q (ifM c p) none where
  idle s hs := by
    obtain ⟨s', he, hs'⟩ := hc.idle s hs
    rw [exec_ifM_of_true he]
    exact hp s' hs'
  acted t s hs := by
    obtain ⟨s', he, hs'⟩ := hc.acted t s hs
    exact ⟨s', exec_ifM_of_false he, hs'⟩

end Phases

end EcaEngines.FirstMatch
