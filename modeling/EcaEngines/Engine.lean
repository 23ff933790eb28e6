import EcaEngines.Guards
import EcaEngines.Reactive

/-!
# Calls of an engine

What an engine that implements the lookup shows of one call, and of a sequence
of calls: it refines the uninstrumented machine, and a call either fires one
transition or changes no variable.
-/
namespace EcaEngines.Engine
open Imperative Reactive Instrumented Transitions Blocks Guards
open Original (Throwable Vars Reply noTransition)

variable {engine : MyString → Prog Unit}

/-- The state of the uninstrumented machine that a world stands for. -/
def abstraction (w : World) : Original.State := ⟨w.view, w.cf.val, w.out⟩

/-- The world with empty records. -/
def cleared (w : World) : World := { w with out := [], decisions := [], steps := [] }

/-- One call with empty records, its exception caught. -/
def call (engine : MyString → Prog Unit) (w : World) (input : MyString) : Reply × World :=
  let r := exec (engine input) (cleared w)
  (.of r.1 r.2.out, r.2)

/-- The scratch registers, the branch objects and the set `branches`. -/
structure Scratch where
  var : ℕ → MyInt
  bool : ℕ → MyBool
  made : List Branch
  branches : List ℕ

def Scratch.into (c : Scratch) (w : World) : World :=
  { w with var := c.var, bool := c.bool, made := c.made, branches := c.branches }

/-- A call before which the static state was overwritten. -/
def callScratch (engine : MyString → Prog Unit) (w : World) (i : Scratch × MyString) :
    Reply × World :=
  call engine (i.1.into w) i.2

section
variable {w w' : World} {input : MyString} {t : Transition} {r : Except Throwable Unit}

theorem abstraction_start (w : World) : abstraction (start w) = ⟨w.view, true, w.out⟩ := rfl

theorem Same.abstraction (h : Same w w') : abstraction w' = abstraction w := by rw [h]; rfl

theorem abstraction_block (t : Transition) (w : World) :
    abstraction (exec (block .copied t) w).2 = ⟨t.fire w.view, false, w.out ++ [t.word]⟩ := by
  unfold abstraction
  rw [block_view, block_cf, block_out]

/-- What the two ways to end say about the abstract states. -/
theorem outcome_abstraction {o : Option Transition} (h : Outcome w (r, w') o) :
    (r, abstraction w') = react (abstraction w) o := by
  cases h with
  | rejected hs => rw [Same.abstraction hs, abstraction_start]; rfl
  | fired h₁ h₂ =>
    rw [Same.abstraction h₂, abstraction_block, h₁.view, h₁.out]
    rfl

end

/-- The engine and the uninstrumented machine agree on result, output, variables
and `cf`. -/
theorem exec_equivalent (h : Implements engine) (input : MyString) (w : World) :
    ((exec (engine input) w).1, abstraction (exec (engine input) w).2) =
      exec (Original.calculateOutput input.val) (abstraction w) := by
  rw [exec_calculateOutput]
  exact outcome_abstraction (h input w)

theorem call_equivalent (h : Implements engine) (w : World) (input : MyString) :
    (call engine w input).1 = (Original.call (abstraction w) input.val).1 ∧
      abstraction (call engine w input).2 = (Original.call (abstraction w) input.val).2 := by
  have he := exec_equivalent h input (cleared w)
  have h₁ := congrArg Prod.fst he
  have h₂ := congrArg Prod.snd he
  exact ⟨congrArg₂ Reply.of h₁ (congrArg Original.State.out h₂), h₂⟩

/-- Whatever stands in the scratch registers and in `branches` before each call. -/
theorem responses_equivalent (h : Implements engine) (w : World) (is : List (Scratch × MyString)) :
    responses (callScratch engine) w is =
        responses Original.call (abstraction w) (is.map fun i => i.2.val) ∧
      abstraction (after (callScratch engine) w is) =
        after Original.call (abstraction w) (is.map fun i => i.2.val) := by
  induction is generalizing w with
  | nil => exact ⟨rfl, rfl⟩
  | cons i is ih =>
    obtain ⟨h₁, h₂⟩ := call_equivalent h (i.1.into w) i.2
    change abstraction (callScratch engine w i).2 = (Original.call (abstraction w) i.2.val).2 at h₂
    simp only [List.map_cons, responses_cons, after_cons, ← h₂]
    exact ⟨congrArg₂ List.cons h₁ (ih _).1, (ih _).2⟩

/-- A call that fires a transition fires that one only. -/
theorem outcome_fired {w w' : World} {t : Transition} {r : Except Throwable Unit}
    (h : Outcome w (r, w') (some t)) :
    r = .ok () ∧ w'.out = w.out ++ [t.word] ∧ w'.view = t.fire w.view ∧ w'.cf.val = false := by
  have ha := outcome_abstraction h
  simp only [react, abstraction, Prod.mk.injEq, Original.State.mk.injEq] at ha
  exact ⟨ha.1, ha.2.2.2, ha.2.1, ha.2.2.1⟩

/-- What a call can do: reject and change nothing, or run the block of the one
transition that the lookup gives. -/
theorem call_cases (h : Implements engine) (w : World) (input : MyString) :
    (fired w.view input.val = none ∧ (call engine w input).1 = ⟨[], true⟩ ∧
      Same (start (cleared w)) (call engine w input).2) ∨
    ∃ t w₁, fired w.view input.val = some t ∧ (call engine w input).1 = ⟨[t.word], false⟩ ∧
      Same (start (cleared w)) w₁ ∧
      Same (exec (block .copied t) w₁).2 (call engine w input).2 := by
  have ho := h input (cleared w)
  change Outcome _ _ (fired w.view input.val) at ho
  unfold call
  generalize exec (engine input) (cleared w) = r at ho ⊢
  obtain ⟨r, w'⟩ := r
  cases hf : fired w.view input.val with
  | none =>
    rw [hf] at ho
    cases ho with
    | rejected hs => exact .inl ⟨rfl, congrArg (Reply.of _) hs.out, hs⟩
  | some t =>
    rw [hf] at ho
    have hout := (outcome_fired ho).2.1
    cases ho with
    | fired h₁ h₂ => exact .inr ⟨t, _, rfl, congrArg (Reply.of _) hout, h₁, h₂⟩

end EcaEngines.Engine
