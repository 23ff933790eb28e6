import EcaEngines.Imperative

/-!
# What programs of nested conditions write

A program of this shape writes the outcome of each condition and acts at most once. After that every
condition fails. Its script, which is put together as the program is, says what is written.
-/
namespace EcaEngines.Scripts
open Imperative

variable {χ σ ω : Type}

/-- What is written if there was no action before, whether there is one then, and what is written
if there was one. -/
structure Script (ω : Type) where
  text : List ω
  acts : Bool
  later : List ω

namespace Script

def ask (said : Bool → ω) (b : Bool) (body : Script ω) : Script ω :=
  ⟨said b :: if b then body.text else [], b && body.acts, [said false]⟩

def act (text : List ω) : Script ω := ⟨text, true, []⟩

def silent : Script ω := ⟨[], false, []⟩

def seq (p q : Script ω) : Script ω :=
  ⟨p.text ++ if p.acts then q.later else q.text, p.acts || q.acts, p.later ++ q.later⟩

end Script

/-- The states before the action and after it, and what has been written. -/
structure Stages (σ ω : Type) where
  idle : σ → Prop
  acted : σ → Prop
  out : σ → List ω

namespace Stages

/-- From `u` to `v` this is written, and the action is or is not behind. -/
def Written (φ : Stages σ ω) (u v : σ) (text : List ω) (acted : Bool) : Prop :=
  φ.out v = φ.out u ++ text ∧ if acted then φ.acted v else φ.idle v

/-- The condition writes its outcome, which is `b` as long as there was no action. -/
structure Asks (φ : Stages σ ω) (said : Bool → ω) (c : Imp χ σ Bool) (b : Bool) : Prop where
  idle : ∀ u, φ.idle u → ∃ v, exec c u = (.ok b, v) ∧ φ.Written u v [said b] false
  acted : ∀ u, φ.acted u → ∃ v, exec c u = (.ok false, v) ∧ φ.Written u v [said false] true

/-- The program ends with what the script says. If there is no action in it the result is `r`. -/
structure Ends (φ : Stages σ ω) (r : Except χ Unit) (p : Imp χ σ Unit) (s : Script ω) : Prop where
  idle : ∀ u, φ.idle u → ∃ v, exec p u = (if s.acts then .ok () else r, v) ∧
    φ.Written u v s.text s.acts
  acted : ∀ u, φ.acted u → Leads p u fun v => φ.Written u v s.later true

/-- The program returns in any case. -/
abbrev Follows (φ : Stages σ ω) (p : Imp χ σ Unit) (s : Script ω) : Prop := φ.Ends (.ok ()) p s

variable {φ : Stages σ ω} {said : Bool → ω} {c : Imp χ σ Bool} {p q : Imp χ σ Unit} {b : Bool}
  {r : Except χ Unit} {e : χ} {s t : Script ω} {u v w : σ} {text text' : List ω} {acted : Bool}

theorem Written.append {a : Bool} (h : φ.Written u v text a) (h' : φ.Written v w text' acted) :
    φ.Written u w (text ++ text') acted :=
  ⟨by rw [h'.1, h.1, List.append_assoc], h'.2⟩

/-- The body matters only where the condition holds, and then nothing was done before. -/
theorem Asks.ifM (hc : φ.Asks said c b)
    (hp : b = true → ∀ u, φ.idle u → Leads p u fun v => φ.Written u v s.text s.acts) :
    φ.Follows (ifM c p) (.ask said b s) where
  idle u hu := by
    obtain ⟨v, hv, hwritten⟩ := hc.idle u hu
    rw [ite_self]
    cases b with
    | false => exact ⟨v, exec_ifM_of_false hv, hwritten⟩
    | true =>
      obtain ⟨w, hw, hbody⟩ := hp rfl v hwritten.2
      exact ⟨w, (exec_ifM_of_true hv).trans hw, hwritten.append hbody⟩
  acted u hu := by
    obtain ⟨v, hv, hwritten⟩ := hc.acted u hu
    exact ⟨v, exec_ifM_of_false hv, hwritten⟩

theorem Asks.nest (hc : φ.Asks said c b) (hp : b = true → φ.Follows p s) :
    φ.Follows (Imperative.ifM c p) (.ask said b s) :=
  hc.ifM fun hb u hu => by
    obtain ⟨v, hv, hwritten⟩ := (hp hb).idle u hu
    rw [ite_self] at hv
    exact ⟨v, hv, hwritten⟩

/-- The check that closes such a program. -/
theorem Asks.ends (hc : φ.Asks said c true) :
    φ.Ends (.error e) (Imperative.ifM c (throw e)) (.ask said true .silent) where
  idle u hu := by
    obtain ⟨v, hv, hwritten⟩ := hc.idle u hu
    exact ⟨v, exec_ifM_of_true hv, hwritten⟩
  acted u hu := by
    obtain ⟨v, hv, hwritten⟩ := hc.acted u hu
    exact ⟨v, exec_ifM_of_false hv, hwritten⟩

theorem Follows.seq (hp : φ.Follows p s) (hq : φ.Ends r q t) :
    φ.Ends r (p >>= fun _ => q) (s.seq t) where
  idle u hu := by
    obtain ⟨v, hv, hwritten⟩ := hp.idle u hu
    rw [ite_self] at hv
    unfold Script.seq
    -- whether the first program has acted decides which text of the second is written
    cases hs : s.acts with
    | false =>
      rw [hs] at hwritten
      obtain ⟨w, hw, hwritten'⟩ := hq.idle v hwritten.2
      exact ⟨w, (exec_bind_ok hv).trans hw, hwritten.append hwritten'⟩
    | true =>
      rw [hs] at hwritten
      obtain ⟨w, hw, hwritten'⟩ := hq.acted v hwritten.2
      exact ⟨w, (exec_bind_ok hv).trans hw, hwritten.append hwritten'⟩
  acted u hu := by
    obtain ⟨v, hv, hwritten⟩ := hp.acted u hu
    obtain ⟨w, hw, hwritten'⟩ := hq.acted v hwritten.2
    exact ⟨w, (exec_bind_ok hv).trans hw, hwritten.append hwritten'⟩

end Stages

end EcaEngines.Scripts
