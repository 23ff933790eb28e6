import EcaEngines.Engine
import EcaEngines.Modes

/-!
# Reachable worlds

Calls of an engine from the start values follow the Mealy machine of the modes,
and no integer operation they perform wraps.
-/
namespace EcaEngines.Reachable
open Imperative Reactive BoundedInt Dispatch Instrumented Transitions Modes Blocks Guards Engine
open Original (Throwable Vars Reply noTransition)

variable {engine : MyString → Prog Unit}

/-- The four variables are the same objects' contents. -/
def Unchanged (w w' : World) : Prop :=
  w'.a422009172 = w.a422009172 ∧ w'.a2108127495 = w.a2108127495 ∧
    w'.a1522448132 = w.a1522448132 ∧ w'.a1745113960 = w.a1745113960

theorem Unchanged.view {w w' : World} (h : Unchanged w w') : w'.view = w.view := by
  obtain ⟨h₁, h₂, h₃, h₄⟩ := h
  simp only [World.view, h₁, h₂, h₃, h₄]

theorem inv_unique {m n : Mode} {v : Vars} (h : Inv m v) : Guard n v ↔ n = m :=
  ⟨guard_unique h.guard, fun hn => hn ▸ h.guard⟩

/-- What the table entry of the mode and the input says of a call. -/
def Follows (w : World) (r : Reply × World) : Option (String × Mode) → Prop
  | some (word, m) => r.1 = ⟨[word], false⟩ ∧ Inv m r.2.view
  | none => r.1 = ⟨[], true⟩ ∧ Unchanged w r.2

theorem call_follows (h : Implements engine) {w : World} {m : Mode} (hinv : Inv m w.view)
    (input : MyString) : Follows w (call engine w input) (next m input.val) := by
  have hm := fired_of_guard hinv.guard input.val
  rw [next_eq, ← hm]
  rcases call_cases h w input with ⟨hf, hr, hs⟩ | ⟨t, w₁, hf, hr, h₁, h₂⟩ <;> rw [hf]
  · exact ⟨hr, hs.fields⟩
  · obtain ⟨rfl, -⟩ := find_eq_some_iff.mp (hm.symm.trans hf)
    refine ⟨hr, ?_⟩
    rw [h₂.view, block_view, h₁.view]
    exact (safe t hinv).1

/-- The worlds in which some mode's invariant holds. -/
def Moded (w : World) : Prop := ∃ m, Inv m w.view

theorem call_moded (h : Implements engine) (w : World) (input : MyString) (hw : Moded w) :
    Moded (call engine w input).2 := by
  obtain ⟨m, hinv⟩ := hw
  have hf := call_follows h hinv input
  cases hn : next m input.val with
  | none =>
    rw [hn] at hf
    exact ⟨m, hf.2.view ▸ hinv⟩
  | some r =>
    rw [hn] at hf
    exact ⟨r.2, hf.2⟩

theorem moded_reset (w : World) : Moded (reset w) := ⟨.m4, inv_start⟩

/-- Every world reached from `reset()` has a mode. -/
theorem moded_after (h : Implements engine) (w : World) (is : List MyString) :
    Moded (after (call engine) (reset w) is) :=
  after_invariant (call_moded h) (moded_reset w) is

/-- The mode is the only one whose guard holds, and a call moves it as the table
says. -/
theorem call_mealy (h : Implements engine) {w : World} (hw : Moded w) :
    ∃ m : Mode, (∀ n : Mode, Guard n w.view ↔ n = m) ∧
      (∀ input : MyString, match next m input.val with
        | some (word, m') => (call engine w input).1 = ⟨[word], false⟩ ∧
          ∀ n : Mode, Guard n (call engine w input).2.view ↔ n = m'
        | none => (call engine w input).1 = ⟨[], true⟩ ∧
          Unchanged w (call engine w input).2) ∧
      ∃ input : MyString, (call engine w input).1.rejected = false := by
  obtain ⟨m, hinv⟩ := hw
  refine ⟨m, fun n => inv_unique hinv, fun input => ?_, ?_⟩
  · have hf := call_follows h hinv input
    cases hn : next m input.val with
    | none =>
      rw [hn] at hf
      exact hf
    | some r =>
      rw [hn] at hf
      exact ⟨hf.1, fun n => inv_unique hf.2⟩
  · obtain ⟨i, hi⟩ := exists_next m
    have hf := call_follows h hinv (.new i)
    obtain ⟨r, hr⟩ := Option.isSome_iff_exists.mp hi
    rw [show (MyString.new i).val = i from rfl, hr] at hf
    exact ⟨.new i, by rw [hf.1]⟩

/-- The operation of a recorded step. -/
def operation : Step → Option Operation
  | .arith op b c _ => some ⟨op, b.val, c.val⟩
  | .assign _ _ => none

/-- The destination of a recorded step holds the result of the machine operation. -/
def Computed : Step → Prop
  | .arith op b c a => a.val = op.eval b.val c.val
  | .assign b a => a.val = b.val

/-- A recorded step gave the mathematical result. -/
def Exact : Step → Prop
  | .arith op b c a => a.val.toInt = op.exact b.val.toInt c.val.toInt
  | .assign b a => a.val = b.val

theorem exact_of_defined {s : Step} (hc : Computed s)
    (hd : ∀ o, operation s = some o → o.Defined) : Exact s := by
  cases s with
  | arith op b c a => exact (congrArg Int32.toInt hc).trans (Op.eval_of_defined (hd _ rfl))
  | assign b a => exact hc

section
attribute [local simp] exec_bind Store.copied I.copyInt I.copyBool I.copyString MyInt.new
  MyInt.new3 MyBool.new2 MyBool.new3 MyString.new MyString.new2 World.int World.view
  MyInt.propagated MyInt.flagged MyInt.computed Op.eval Transition.fire

theorem block_operations (t : Transition) (w : World) :
    (exec (block .copied t) w).2.steps.filterMap operation =
      w.steps.filterMap operation ++ operations t w.view := by
  cases t <;> simp [block, operations, chainOperations, operation, List.filterMap_cons]

theorem block_computed (t : Transition) (w : World) (h : ∀ s ∈ w.steps, Computed s) :
    ∀ s ∈ (exec (block .copied t) w).2.steps, Computed s := by
  cases t <;> simpa [block, Computed, or_imp, forall_and] using h

end

/-- Every operation of a call in a mode is exact. -/
theorem call_exact (h : Implements engine) {w : World} (hw : Moded w) (input : MyString) :
    ∀ s ∈ (call engine w input).2.steps, Exact s := by
  obtain ⟨m, hinv⟩ := hw
  rcases call_cases h w input with ⟨-, -, hs⟩ | ⟨t, w₁, hf, -, h₁, h₂⟩
  · rw [hs.steps]
    exact fun s hs' => absurd hs' List.not_mem_nil
  · obtain ⟨rfl, -⟩ := find_eq_some_iff.mp
      ((fired_of_guard hinv.guard input.val).symm.trans hf)
    have hsteps : w₁.steps = [] := h₁.steps
    have hview : w₁.view = w.view := h₁.view
    have hcomp := block_computed t w₁ (by rw [hsteps]; exact fun s hs => absurd hs List.not_mem_nil)
    have hops := block_operations t w₁
    rw [hsteps, hview, List.filterMap_nil, List.nil_append] at hops
    rw [h₂.steps]
    refine fun s hs => exact_of_defined (hcomp s hs) fun o ho => (safe t hinv).2 o ?_
    rw [← hops]
    exact List.mem_filterMap.mpr ⟨s, hs, ho⟩

/-- No operation of a run from `reset()` wraps. -/
theorem trace_exact (h : Implements engine) (w : World) (is : List MyString) :
    ∀ e ∈ trace (call engine) (reset w) is, ∀ s ∈ e.after.steps, Exact s :=
  trace_forall (fun w i hw => ⟨call_exact h hw i, call_moded h w i hw⟩) (moded_reset w) is

end EcaEngines.Reachable
