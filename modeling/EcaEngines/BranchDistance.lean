import EcaEngines.Fuzzer

/-!
# The engine of the second task

`CalculateOutput` and the loop of `main` of `instm183_LTL_CTLBranchDistance`. The runtime
and the bodies of the transitions are those of the third task. Here the run also keeps a
record of the comparisons and conjunctions, and of the decisions on a branch just added.
-/
namespace EcaEngines.BranchDistance
open Imperative Instrumented Blocks
open Original (Throwable noTransition)

/-- A comparison or conjunction: its operands as a `Condition` refers to them, the branch it
is recorded in, and the value it computed. -/
structure Call where
  cond : Condition
  br : Option ℕ
  outcome : Bool
deriving DecidableEq

/-- A call `I.myIf(d)`, with the branch added before it as it is then, and the comparisons and
conjunctions since that branch was created. -/
structure Decision where
  d : Kept MyBool
  branch : Branch
  calls : List Call
deriving DecidableEq

structure Watched where
  world : World
  calls : List Call
  /-- The number of calls before a branch was created. -/
  created : ℕ → ℕ
  /-- The branch added to `branches` since the last `I.myIf`. -/
  added : Option ℕ
  decisions : List Decision

abbrev Prog := Imp Throwable Watched

def lift {α : Type} (p : Instrumented.Prog α) : Prog α :=
  zoom Watched.world (fun w s => { s with world := w }) p

/-- Enters a test just made, whose destination is `a`. -/
def enter (a : ℕ) (br : Option ℕ) (cond : World → Condition) : Prog Unit :=
  modify fun s => { s with calls := s.calls ++ [⟨cond s.world, br, (s.world.bool a).val⟩] }

def comparison (type : TypeEnum) (a : ℕ) (b c : IntRef) (w : World) : Condition :=
  ⟨type, .register a, none, none, none, none, some (w.keepInt b), some (w.keepInt c)⟩

namespace I

def myLess (a : ℕ) (b c : IntRef) (br : Option ℕ := none) : Prog Unit := do
  lift (Instrumented.I.myLess a b c br)
  enter a br (comparison .myLess a b c)

def myLessEqual (a : ℕ) (b c : IntRef) (br : Option ℕ := none) : Prog Unit := do
  lift (Instrumented.I.myLessEqual a b c br)
  enter a br (comparison .myLessEqual a b c)

def myGreaterEqual (a : ℕ) (b c : IntRef) (br : Option ℕ := none) : Prog Unit := do
  lift (Instrumented.I.myGreaterEqual a b c br)
  enter a br (comparison .myGreaterEqual a b c)

def myEquals (a : ℕ) (b : StringRef) (c : String) (br : Option ℕ := none) : Prog Unit := do
  lift (Instrumented.I.myEquals a b c br)
  enter a br fun w =>
    ⟨.myEquals, .register a, some (w.string b), some (.new c), none, none, none, none⟩

def myAnd (a : ℕ) (b c : BoolRef) (br : Option ℕ := none) : Prog Unit := do
  lift (Instrumented.I.myAnd a b c br)
  enter a br fun w =>
    ⟨.myAnd, .register a, none, none, some (w.keepBool b), some (w.keepBool c), none, none⟩

/-- The decision is entered if a branch has been added since the last one. -/
def myIf (a : BoolRef) : Prog Bool := do
  modify fun s => match s.added with
    | none => s
    | some k => { s with
      added := none
      decisions := s.decisions ++ (s.world.made[k]?.map fun br =>
        ⟨s.world.keepBool a, br, s.calls.drop (s.created k)⟩).toList }
  lift (Instrumented.I.myIf a)

end I

def setCf (b : MyBool) : Prog Unit := lift (Instrumented.setCf b)

def newBranch (input : String) : Prog ℕ := do
  let k ← lift (Instrumented.newBranch input)
  modify fun s => { s with created := Function.update s.created k s.calls.length }
  pure k

def setDependentVariable (br : ℕ) (b : BoolRef) : Prog Unit :=
  lift (Instrumented.setDependentVariable br b)

def branchesAdd (br : ℕ) : Prog Unit := do
  lift (Instrumented.branchesAdd br)
  modify fun s => { s with added := some br }

def CalculateOutputm1 (input : MyString) : Prog Unit :=
  ifM (do
    let br1 ← newBranch input.val
    I.myEquals 1 (.object input) "usr2_ai1_VoidReply" br1
    I.myAnd 2 (.bool 1) .cf br1
    setDependentVariable br1 (.bool 2)
    branchesAdd br1
    I.myIf (.bool 2)) (lift (block .copied .m1VoidReply))

def CalculateOutputm2 (input : MyString) : Prog Unit := do
  ifM (do
    let br1 ← newBranch input.val
    I.myEquals 1 (.object input) "usr4_ni1_ne1" br1
    I.myAnd 2 (.bool 1) .cf br1
    setDependentVariable br1 (.bool 2)
    branchesAdd br1
    I.myIf (.bool 2)) (lift (block .copied .m2Ne1))
  ifM (do
    let br2 ← newBranch input.val
    I.myEquals 1 (.object input) "ai1_ce2" br2
    I.myAnd 2 (.bool 1) .cf br2
    setDependentVariable br2 (.bool 2)
    branchesAdd br2
    I.myIf (.bool 2)) (lift (block .copied .m2Ce2))

def CalculateOutputm3 (input : MyString) : Prog Unit :=
  ifM (do
    let br1 ← newBranch input.val
    I.myEquals 1 (.object input) "usr4_ai1_VoidReply" br1
    I.myAnd 2 .cf (.bool 1) br1
    setDependentVariable br1 (.bool 2)
    branchesAdd br1
    I.myIf (.bool 2)) (lift (block .copied .m3VoidReply))

def CalculateOutputm4 (input : MyString) : Prog Unit := do
  ifM (do
    let br1 ← newBranch input.val
    I.myEquals 1 (.object input) "ai1_ce2" br1
    I.myAnd 2 .cf (.bool 1) br1
    setDependentVariable br1 (.bool 2)
    branchesAdd br1
    I.myIf (.bool 2)) (lift (block .copied .m4Ce2))
  ifM (do
    let br2 ← newBranch input.val
    I.myEquals 1 (.object input) "ai1_ce1" br2
    I.myAnd 2 .cf (.bool 1) br2
    setDependentVariable br2 (.bool 2)
    branchesAdd br2
    I.myIf (.bool 2)) (lift (block .copied .m4Ce1))
  ifM (do
    let br3 ← newBranch input.val
    I.myEquals 1 (.object input) "usr4_ni1_ne1" br3
    I.myAnd 2 (.bool 1) .cf br3
    setDependentVariable br3 (.bool 2)
    branchesAdd br3
    I.myIf (.bool 2)) (lift (block .copied .m4Ne1))

def CalculateOutputm5 (input : MyString) : Prog Unit :=
  ifM (do
    let br1 ← newBranch input.val
    I.myEquals 1 (.object input) "usr2_ai1_VoidReply" br1
    I.myAnd 2 (.bool 1) .cf br1
    branchesAdd br1
    I.myIf (.bool 2)) (lift (block .copied .m5VoidReply))

def CalculateOutputm6 (input : MyString) : Prog Unit := do
  ifM (do
    let br1 ← newBranch input.val
    I.myEquals 1 (.object input) "usr4_ni1_ne1" br1
    I.myAnd 2 (.bool 1) .cf br1
    branchesAdd br1
    I.myIf (.bool 2)) (lift (block .copied .m6Ne1))
  ifM (do
    let br2 ← newBranch input.val
    I.myEquals 1 (.object input) "usr4_ai1_VoidReply" br2
    I.myAnd 2 .cf (.bool 1) br2
    branchesAdd br2
    I.myIf (.bool 2)) (lift (block .copied .m6VoidReply))

def CalculateOutputm7 (input : MyString) : Prog Unit := do
  ifM (do
    let br1 ← newBranch input.val
    I.myEquals 1 (.object input) "usr4_ni1_ne1" br1
    I.myAnd 2 (.bool 1) .cf br1
    branchesAdd br1
    I.myIf (.bool 2)) (lift (block .copied .m7Ne1))
  ifM (do
    let br2 ← newBranch input.val
    I.myEquals 1 (.object input) "usr4_ai1_VoidReply" br2
    I.myAnd 2 .cf (.bool 1) br2
    branchesAdd br2
    I.myIf (.bool 2)) (lift (block .copied .m7VoidReply))

def CalculateOutputm8 (input : MyString) : Prog Unit :=
  ifM (do
    let br1 ← newBranch input.val
    I.myEquals 1 (.object input) "usr4_ai1_VoidReply" br1
    I.myAnd 2 (.bool 1) .cf br1
    branchesAdd br1
    I.myIf (.bool 2)) (lift (block .copied .m8VoidReply))

def CalculateOutput (input : MyString) : Prog Unit := do
  setCf (.new2 true "cf")
  ifM (do
    let br1 ← newBranch input.val
    I.myLessEqual 1 .a2108127495 (.int (-164)) br1
    I.myAnd 2 .cf (.bool 1)
    branchesAdd br1
    I.myIf (.bool 2)) do
    ifM (do
      let br2 ← newBranch input.val
      I.myLess 1 (.int (-83)) .a1522448132 br2
      I.myGreaterEqual 2 (.int 18) .a1522448132 br2
      I.myAnd 3 (.bool 1) (.bool 2) br2
      I.myAnd 4 .cf (.bool 3) br2
      branchesAdd br2
      I.myIf (.bool 4)) do
      CalculateOutputm1 input
  ifM (do
    let br3 ← newBranch input.val
    I.myLess 1 (.int (-164)) .a2108127495 br3
    I.myGreaterEqual 2 (.int (-19)) .a2108127495 br3
    I.myAnd 3 (.bool 1) (.bool 2) br3
    I.myAnd 4 .cf (.bool 3) br3
    branchesAdd br3
    I.myIf (.bool 4)) do
    ifM (do
      let br4 ← newBranch input.val
      I.myEquals 1 .a1745113960 "e" br4
      I.myAnd 2 .cf (.bool 1) br4
      branchesAdd br4
      I.myIf (.bool 2)) do
      CalculateOutputm2 input
    ifM (do
      let br5 ← newBranch input.val
      I.myEquals 1 .a1745113960 "g" br5
      I.myAnd 2 .cf (.bool 1) br5
      branchesAdd br5
      I.myIf (.bool 2)) do
      CalculateOutputm3 input
    ifM (do
      let br6 ← newBranch input.val
      I.myEquals 1 .a1745113960 "h" br6
      I.myAnd 2 .cf (.bool 1) br6
      branchesAdd br6
      I.myIf (.bool 2)) do
      CalculateOutputm4 input
    ifM (do
      let br7 ← newBranch input.val
      I.myEquals 1 .a1745113960 "i" br7
      I.myAnd 2 (.bool 1) .cf br7
      branchesAdd br7
      I.myIf (.bool 2)) do
      CalculateOutputm5 input
  ifM (do
    let br8 ← newBranch input.val
    I.myLess 1 (.int (-19)) .a2108127495 br8
    I.myGreaterEqual 2 (.int 100) .a2108127495 br8
    I.myAnd 3 (.bool 1) (.bool 2) br8
    I.myAnd 4 (.bool 3) .cf br8
    branchesAdd br8
    I.myIf (.bool 4)) do
    ifM (do
      let br9 ← newBranch input.val
      I.myEquals 1 .a1745113960 "g" br9
      I.myAnd 2 .cf (.bool 1) br9
      branchesAdd br9
      I.myIf (.bool 2)) do
      CalculateOutputm6 input
    ifM (do
      let br10 ← newBranch input.val
      I.myEquals 1 .a1745113960 "h" br10
      I.myAnd 2 .cf (.bool 1) br10
      branchesAdd br10
      I.myIf (.bool 2)) do
      CalculateOutputm7 input
  ifM (do
    let br11 ← newBranch input.val
    I.myLess 1 (.int 100) .a2108127495 br11
    I.myAnd 2 .cf (.bool 1) br11
    branchesAdd br11
    I.myIf (.bool 2)) do
    ifM (do
      let br12 ← newBranch input.val
      I.myLess 1 (.int 103) .a422009172 br12
      I.myGreaterEqual 2 (.int 198) .a422009172 br12
      I.myAnd 3 (.bool 1) (.bool 2) br12
      I.myAnd 4 (.bool 3) .cf br12
      branchesAdd br12
      I.myIf (.bool 4)) do
      CalculateOutputm8 input
  ifM (do
    let br12 ← newBranch input.val
    setDependentVariable br12 .cf
    branchesAdd br12
    I.myIf .cf) do
    throw noTransition

/-- The condition of the first `if` in the loop of `main`. -/
def check (input : MyString) : Prog Bool := do
  let br1 ← newBranch input.val
  I.myEquals 1 (.object input) "ai1_ce1" br1
  I.myEquals 2 (.object input) "usr4_ai1_VoidReply" br1
  I.myEquals 3 (.object input) "usr4_ni1_ne1" br1
  I.myEquals 4 (.object input) "ai1_ce2" br1
  I.myEquals 5 (.object input) "usr2_ai1_VoidReply" br1
  I.myAnd 6 (.bool 1) (.bool 2) br1
  I.myAnd 7 (.bool 3) (.bool 4) br1
  I.myAnd 8 (.bool 6) (.bool 7) br1
  I.myAnd 9 (.bool 8) (.bool 5) br1
  branchesAdd br1
  I.myIf (.bool 9)

/-- The body of the loop of `main`. What it prints is left out. -/
def process (input : MyString) : Prog Unit := do
  ifM (check input) do
    throw noTransition
  tryCatch (CalculateOutput input) fun e => match e with
    | .illegalArgument _ => pure ()
    | e => throw e

/-- `main` up to `CalculateDistance`, which follows the loop. -/
def main (fuzzed_inputs : List MyString) : Prog Unit := do
  modify fun s => { s with world := reset s.world }
  fuzzed_inputs.forM process

section
variable {α : Type} {s : Watched}

theorem exec_lift (p : Instrumented.Prog α) (s : Watched) :
    exec (lift p) s = ((exec p s.world).1, { s with world := (exec p s.world).2 }) :=
  exec_zoom _ _ p s

/-- The record aside, the second program is run. -/
abbrev Runs (p : Prog α) (q : Instrumented.Prog α) : Prop := Projects Watched.world p q

theorem runs_lift (p : Instrumented.Prog α) : Runs (lift p) p := projects_zoom (fun _ _ => rfl) p

theorem runs_modify {p : Prog α} {q : Instrumented.Prog α} {f : Watched → Watched} (h : Runs p q)
    (hf : ∀ s, (f s).world = s.world) : Runs (modify f >>= fun _ => p) q := by
  intro s
  rw [exec_bind_ok (exec_modify f s), ← h, hf]

theorem runs_enter (p : Instrumented.Prog Unit) (a : ℕ) (br : Option ℕ) (cond : World → Condition) :
    Runs (do lift p; enter a br cond) p := by
  intro s
  rw [exec_bind, exec_lift]
  rcases exec p s.world with ⟨e | a, w⟩ <;> rfl

theorem runs_myIf (a : BoolRef) : Runs (I.myIf a) (Instrumented.I.myIf a) := by
  refine runs_modify (runs_lift _) fun s => ?_
  cases s.added <;> rfl

theorem runs_newBranch (input : String) :
    Runs (newBranch input) (Instrumented.newBranch input) := fun _ => rfl

theorem runs_branchesAdd (br : ℕ) : Runs (branchesAdd br) (Instrumented.branchesAdd br) :=
  fun _ => rfl

theorem runs_myLess (a : ℕ) (b c : IntRef) (br : Option ℕ) :
    Runs (I.myLess a b c br) (Instrumented.I.myLess a b c br) := runs_enter _ _ _ _

theorem runs_myLessEqual (a : ℕ) (b c : IntRef) (br : Option ℕ) :
    Runs (I.myLessEqual a b c br) (Instrumented.I.myLessEqual a b c br) := runs_enter _ _ _ _

theorem runs_myGreaterEqual (a : ℕ) (b c : IntRef) (br : Option ℕ) :
    Runs (I.myGreaterEqual a b c br) (Instrumented.I.myGreaterEqual a b c br) := runs_enter _ _ _ _

theorem runs_myAnd (a : ℕ) (b c : BoolRef) (br : Option ℕ) :
    Runs (I.myAnd a b c br) (Instrumented.I.myAnd a b c br) := runs_enter _ _ _ _

theorem runs_myEquals (a : ℕ) (b : StringRef) (c : String) (br : Option ℕ) :
    Runs (I.myEquals a b c br) (Instrumented.I.myEquals a b c br) := runs_enter _ _ _ _

theorem runs_setCf (b : MyBool) : Runs (setCf b) (Instrumented.setCf b) := runs_lift _

theorem runs_setDependentVariable (br : ℕ) (b : BoolRef) :
    Runs (setDependentVariable br b) (Instrumented.setDependentVariable br b) := runs_lift _

/-- The two engines have the same text, so they do the same. -/
theorem CalculateOutput_runs (input : MyString) :
    Runs (CalculateOutput input) (Fuzzer.CalculateOutput input) := by
  unfold CalculateOutput CalculateOutputm1 CalculateOutputm2 CalculateOutputm3 CalculateOutputm4
    CalculateOutputm5 CalculateOutputm6 CalculateOutputm7 CalculateOutputm8
    Fuzzer.CalculateOutput Fuzzer.Text.CalculateOutput Fuzzer.Text.CalculateOutputm1
    Fuzzer.Text.CalculateOutputm2 Fuzzer.Text.CalculateOutputm3 Fuzzer.Text.CalculateOutputm4
    Fuzzer.Text.CalculateOutputm5 Fuzzer.Text.CalculateOutputm6 Fuzzer.Text.CalculateOutputm7
    Fuzzer.Text.CalculateOutputm8
  with_reducible repeat' first
    | exact runs_myEquals _ _ _ _
    | exact runs_myAnd _ _ _ _
    | exact runs_myLess _ _ _ _
    | exact runs_myLessEqual _ _ _ _
    | exact runs_myGreaterEqual _ _ _ _
    | exact runs_newBranch _
    | exact runs_setDependentVariable _ _
    | exact runs_branchesAdd _
    | exact runs_myIf _
    | exact runs_setCf _
    | exact runs_lift _
    | exact projects_throw _
    | refine Projects.ifM ?_ ?_
    | refine Projects.bind ?_ fun _ => ?_

theorem check_runs (input : MyString) : Runs (check input) (Fuzzer.check input) := by
  unfold check Fuzzer.check
  with_reducible repeat' first
    | exact runs_myEquals _ _ _ _
    | exact runs_myAnd _ _ _ _
    | exact runs_newBranch _
    | exact runs_branchesAdd _
    | exact runs_myIf _
    | refine Projects.bind ?_ fun _ => ?_

end

end EcaEngines.BranchDistance
