import EcaEngines.Engine

/-!
# The engines of the first task

`calculateOutput` and its methods as `instm183_LTL_CTLDirect` and
`instm183_LTL_CTLCond` have them. The two texts agree outside the bodies of the
transitions, so they are one text here, with the way of storing a new variable
as a parameter. The calls of `I` before an `if` stand in its condition. How the
parts of the text run is a parameter too, so that a run can be recorded.
-/
namespace EcaEngines.TaskOne
open Imperative Reactive FirstMatch Dispatch Instrumented Transitions Blocks Guards Engine
open Original (Throwable Reply noTransition)

namespace Text
variable {σ : Type} (run : ∀ {α : Type}, Prog α → Imp Throwable σ α)

section
variable (k : Store) (input : MyString)

def calculateOutputm1 : Imp Throwable σ Unit :=
  ifM (run do
    I.myEquals 1 (.object input) "usr2_ai1_VoidReply"
    I.myAnd 2 (.bool 1) .cf
    I.myIf (.bool 2)) (run (block k .m1VoidReply))

def calculateOutputm2 : Imp Throwable σ Unit := do
  ifM (run do
    I.myEquals 1 (.object input) "usr4_ni1_ne1"
    I.myAnd 2 (.bool 1) .cf
    I.myIf (.bool 2)) (run (block k .m2Ne1))
  ifM (run do
    I.myEquals 1 (.object input) "ai1_ce2"
    I.myAnd 2 (.bool 1) .cf
    I.myIf (.bool 2)) (run (block k .m2Ce2))

def calculateOutputm3 : Imp Throwable σ Unit :=
  ifM (run do
    I.myEquals 1 (.object input) "usr4_ai1_VoidReply"
    I.myAnd 2 .cf (.bool 1)
    I.myIf (.bool 2)) (run (block k .m3VoidReply))

def calculateOutputm4 : Imp Throwable σ Unit := do
  ifM (run do
    I.myEquals 1 (.object input) "ai1_ce2"
    I.myAnd 2 .cf (.bool 1)
    I.myIf (.bool 2)) (run (block k .m4Ce2))
  ifM (run do
    I.myEquals 1 (.object input) "ai1_ce1"
    I.myAnd 2 .cf (.bool 1)
    I.myIf (.bool 2)) (run (block k .m4Ce1))
  ifM (run do
    I.myEquals 1 (.object input) "usr4_ni1_ne1"
    I.myAnd 2 (.bool 1) .cf
    I.myIf (.bool 2)) (run (block k .m4Ne1))

def calculateOutputm5 : Imp Throwable σ Unit :=
  ifM (run do
    I.myEquals 1 (.object input) "usr2_ai1_VoidReply"
    I.myAnd 2 (.bool 1) .cf
    I.myIf (.bool 2)) (run (block k .m5VoidReply))

def calculateOutputm6 : Imp Throwable σ Unit := do
  ifM (run do
    I.myEquals 1 (.object input) "usr4_ni1_ne1"
    I.myAnd 2 (.bool 1) .cf
    I.myIf (.bool 2)) (run (block k .m6Ne1))
  ifM (run do
    I.myEquals 1 (.object input) "usr4_ai1_VoidReply"
    I.myAnd 2 .cf (.bool 1)
    I.myIf (.bool 2)) (run (block k .m6VoidReply))

def calculateOutputm7 : Imp Throwable σ Unit := do
  ifM (run do
    I.myEquals 1 (.object input) "usr4_ni1_ne1"
    I.myAnd 2 (.bool 1) .cf
    I.myIf (.bool 2)) (run (block k .m7Ne1))
  ifM (run do
    I.myEquals 1 (.object input) "usr4_ai1_VoidReply"
    I.myAnd 2 .cf (.bool 1)
    I.myIf (.bool 2)) (run (block k .m7VoidReply))

def calculateOutputm8 : Imp Throwable σ Unit :=
  ifM (run do
    I.myEquals 1 (.object input) "usr4_ai1_VoidReply"
    I.myAnd 2 (.bool 1) .cf
    I.myIf (.bool 2)) (run (block k .m8VoidReply))

/-- The methods by their numbers. -/
def methods : Mode → Imp Throwable σ Unit
  | .m1 => calculateOutputm1 run k input
  | .m2 => calculateOutputm2 run k input
  | .m3 => calculateOutputm3 run k input
  | .m4 => calculateOutputm4 run k input
  | .m5 => calculateOutputm5 run k input
  | .m6 => calculateOutputm6 run k input
  | .m7 => calculateOutputm7 run k input
  | .m8 => calculateOutputm8 run k input

end

/-- The methods that it calls are a parameter of their own. -/
def calculateOutput (methods : Mode → Imp Throwable σ Unit) : Imp Throwable σ Unit := do
  run (setCf (.new2 true "cf"))
  ifM (run do
    I.myLessEqual 1 .a2108127495 (.int (-164))
    I.myAnd 2 .cf (.bool 1)
    I.myIf (.bool 2)) do
    ifM (run do
      I.myLess 1 (.int (-83)) .a1522448132
      I.myGreaterEqual 2 (.int 18) .a1522448132
      I.myAnd 3 (.bool 1) (.bool 2)
      I.myAnd 4 .cf (.bool 3)
      I.myIf (.bool 4)) do
      methods .m1
  ifM (run do
    I.myLess 1 (.int (-164)) .a2108127495
    I.myGreaterEqual 2 (.int (-19)) .a2108127495
    I.myAnd 3 (.bool 1) (.bool 2)
    I.myAnd 4 .cf (.bool 3)
    I.myIf (.bool 4)) do
    ifM (run do
      I.myEquals 1 .a1745113960 "e"
      I.myAnd 2 .cf (.bool 1)
      I.myIf (.bool 2)) do
      methods .m2
    ifM (run do
      I.myEquals 1 .a1745113960 "g"
      I.myAnd 2 .cf (.bool 1)
      I.myIf (.bool 2)) do
      methods .m3
    ifM (run do
      I.myEquals 1 .a1745113960 "h"
      I.myAnd 2 .cf (.bool 1)
      I.myIf (.bool 2)) do
      methods .m4
    ifM (run do
      I.myEquals 1 .a1745113960 "i"
      I.myAnd 2 (.bool 1) .cf
      I.myIf (.bool 2)) do
      methods .m5
  ifM (run do
    I.myLess 1 (.int (-19)) .a2108127495
    I.myGreaterEqual 2 (.int 100) .a2108127495
    I.myAnd 3 (.bool 1) (.bool 2)
    I.myAnd 4 (.bool 3) .cf
    I.myIf (.bool 4)) do
    ifM (run do
      I.myEquals 1 .a1745113960 "g"
      I.myAnd 2 .cf (.bool 1)
      I.myIf (.bool 2)) do
      methods .m6
    ifM (run do
      I.myEquals 1 .a1745113960 "h"
      I.myAnd 2 .cf (.bool 1)
      I.myIf (.bool 2)) do
      methods .m7
  ifM (run do
    I.myLess 1 (.int 100) .a2108127495
    I.myAnd 2 .cf (.bool 1)
    I.myIf (.bool 2)) do
    ifM (run do
      I.myLess 1 (.int 103) .a422009172
      I.myGreaterEqual 2 (.int 198) .a422009172
      I.myAnd 3 (.bool 1) (.bool 2)
      I.myAnd 4 (.bool 3) .cf
      I.myIf (.bool 4)) do
      methods .m8
  ifM (run (I.myIf .cf)) do
    throw noTransition

theorem methods_copied (input : MyString) :
    methods run .copied input = methods run .fresh input := by
  funext m
  unfold methods calculateOutputm1 calculateOutputm2 calculateOutputm3 calculateOutputm4
    calculateOutputm5 calculateOutputm6 calculateOutputm7 calculateOutputm8
  rw [block_copied]

/-- What is recorded aside, the text runs as it does without the record. -/
theorem calculateOutput_projects {view : σ → World}
    (hrun : ∀ {α : Type} (p : Prog α), Projects view (run p) p)
    {methods : Mode → Imp Throwable σ Unit} {methods' : Mode → Prog Unit}
    (h : ∀ m, Projects view (methods m) (methods' m)) :
    Projects view (calculateOutput run methods) (calculateOutput plain methods') := by
  unfold calculateOutput
  with_reducible repeat' first
    | exact hrun _
    | exact h _
    | exact projects_throw _
    | refine Projects.ifM ?_ ?_
    | refine Projects.bind ?_ fun _ => ?_

theorem methods_projects {view : σ → World}
    (hrun : ∀ {α : Type} (p : Prog α), Projects view (run p) p) (k : Store) (input : MyString)
    (m : Mode) : Projects view (methods run k input m) (methods plain k input m) := by
  have hsite {c : Prog Bool} (t : Transition) :
      Projects view (ifM (run c) (run (block k t))) (ifM (plain c) (plain (block k t))) :=
    (hrun c).ifM (hrun _)
  cases m with
  | m1 => exact hsite _
  | m2 => exact (hsite _).bind fun _ => hsite _
  | m3 => exact hsite _
  | m4 => exact (hsite _).bind fun _ => (hsite _).bind fun _ => hsite _
  | m5 => exact hsite _
  | m6 => exact (hsite _).bind fun _ => hsite _
  | m7 => exact (hsite _).bind fun _ => hsite _
  | m8 => exact hsite _

end Text

def calculateOutput (k : Store) (input : MyString) : Prog Unit :=
  Text.calculateOutput plain (Text.methods plain k input)

section
variable {w : World} {input : MyString}

theorem takes_word (t : Transition) : (phases w).Takes (ifM (do
    I.myEquals 1 (.object input) t.letter
    I.myAnd 2 (.bool 1) .cf
    I.myIf (.bool 2)) (block .copied t)) (t.on input.val) :=
  Tests.word t fun _ => ⟨_, rfl, rfl⟩

theorem takes_cf_word (t : Transition) : (phases w).Takes (ifM (do
    I.myEquals 1 (.object input) t.letter
    I.myAnd 2 .cf (.bool 1)
    I.myIf (.bool 2)) (block .copied t)) (t.on input.val) :=
  Tests.cf_word t fun _ => ⟨_, rfl, rfl⟩

theorem methods_takes (m : Mode) :
    (phases w).Takes (Text.methods plain .copied input m) (find input.val m) :=
  match m with
  | .m1 => takes_word .m1VoidReply
  | .m2 => (takes_word .m2Ne1).seq (takes_word .m2Ce2)
  | .m3 => takes_cf_word .m3VoidReply
  | .m4 => (takes_cf_word .m4Ce2).seq ((takes_cf_word .m4Ce1).seq (takes_word .m4Ne1))
  | .m5 => takes_word .m5VoidReply
  | .m6 => (takes_word .m6Ne1).seq (takes_cf_word .m6VoidReply)
  | .m7 => (takes_word .m7Ne1).seq (takes_cf_word .m7VoidReply)
  | .m8 => takes_word .m8VoidReply

end

/-- The engine fires the transitions of the machine. -/
theorem calculateOutput_implements : Implements (calculateOutput .copied) := fun input w => by
  rw [← search_eq_fired]
  exact outcome_of_ends (dispatch_ends
    (Tests.low fun _ => ⟨_, rfl, rfl⟩)
    (fun _ => Tests.m1 (fun _ => ⟨_, rfl, rfl⟩) (methods_takes .m1))
    (Tests.middle fun _ => ⟨_, rfl, rfl⟩)
    (fun _ => Tests.cf_string (fun _ => rfl) (fun _ => ⟨_, rfl, rfl⟩) (methods_takes .m2))
    (fun _ => Tests.cf_string (fun _ => rfl) (fun _ => ⟨_, rfl, rfl⟩) (methods_takes .m3))
    (fun _ => Tests.cf_string (fun _ => rfl) (fun _ => ⟨_, rfl, rfl⟩) (methods_takes .m4))
    (fun _ => Tests.string_cf (fun _ => rfl) (fun _ => ⟨_, rfl, rfl⟩) (methods_takes .m5))
    (Tests.upper fun _ => ⟨_, rfl, rfl⟩)
    (fun _ => Tests.cf_string (fun _ => rfl) (fun _ => ⟨_, rfl, rfl⟩) (methods_takes .m6))
    (fun _ => Tests.cf_string (fun _ => rfl) (fun _ => ⟨_, rfl, rfl⟩) (methods_takes .m7))
    (Tests.high fun _ => ⟨_, rfl, rfl⟩)
    (fun _ => Tests.m8 (fun _ => ⟨_, rfl, rfl⟩) (methods_takes .m8))
    (Tests.check fun _ => ⟨_, rfl, rfl⟩))

/-- A program object: its method `calculateOutput`, and the state in which its
field initializers and the static ones leave everything. -/
structure Program where
  calculateOutput : MyString → Prog Unit
  start : World

/-- Fields as given, and the static registers as declared in `I`. -/
def fields (a422009172 a2108127495 a1522448132 : MyInt) (a1745113960 : MyString) (cf : MyBool) :
    World where
  var _ := .new 0
  bool _ := .new false
  a422009172 := a422009172
  a2108127495 := a2108127495
  a1522448132 := a1522448132
  a1745113960 := a1745113960
  cf := cf
  made := []
  branches := []
  out := []
  decisions := []
  steps := []

/-- `instm183_LTL_CTLCond`. -/
def Cond : Program where
  calculateOutput := calculateOutput .fresh
  start := fields (.new2 (-68) "a422009172") (.new2 (-44) "a2108127495")
    (.new2 173 "a1522448132") (.new "h") (.new2 true "cf")

/-- `instm183_LTL_CTLDirect`. -/
def Direct : Program where
  calculateOutput := calculateOutput .copied
  start := fields (I.copyInt (.new2 (-68) "a422009172")) (I.copyInt (.new2 (-44) "a2108127495"))
    (I.copyInt (.new2 173 "a1522448132")) (I.copyString (.new "h")) (I.copyBool (.new2 true "cf"))

/-- A call of one of the two methods of a program object. -/
inductive Command where
  | calculateOutput (input : MyString)
  | reset

/-- One call with empty records; `reset()` passes no word to `I.myPrint`. -/
def Program.step (p : Program) : System World Command Reply
  | w, .calculateOutput input => call p.calculateOutput w input
  | w, .reset => (⟨[], false⟩, reset (cleared w))

theorem calculateOutput_copied : calculateOutput .copied = calculateOutput .fresh := by
  funext input
  unfold calculateOutput
  rw [Text.methods_copied]

theorem step_eq : Cond.step = Direct.step := by
  funext w c
  cases c with
  | calculateOutput input =>
    change call (calculateOutput .fresh) w input = call (calculateOutput .copied) w input
    rw [calculateOutput_copied]
  | reset => rfl

theorem Cond_implements : Implements Cond.calculateOutput := by
  change Implements (calculateOutput .fresh)
  rw [← calculateOutput_copied]
  exact calculateOutput_implements

theorem Direct_implements : Implements Direct.calculateOutput := calculateOutput_implements

/-- `reset()` makes up for the only difference, that between the initial fields. -/
theorem reset_start : reset (cleared Cond.start) = reset (cleared Direct.start) := rfl

/-- From the first `reset()` on, the two programs answer alike and leave the same
state, registers and taint included. -/
theorem Cond_Direct_indistinguishable (cs : List Command) :
    List.Forall₂ (fun e e' => e.response = e'.response ∧ e.after = e'.after)
      (trace Cond.step Cond.start (.reset :: cs))
      (trace Direct.step Direct.start (.reset :: cs)) := by
  have hreset : (Cond.step Cond.start .reset).2 = (Direct.step Direct.start .reset).2 := reset_start
  rw [trace_cons, trace_cons, ← hreset, step_eq]
  exact .cons ⟨rfl, hreset⟩ (List.forall₂_same.mpr fun _ _ => ⟨rfl, rfl⟩)

end EcaEngines.TaskOne
