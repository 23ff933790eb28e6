import EcaEngines.Reachable

/-!
# The engine of the third task

`CalculateOutput` of `instm183_LTL_CTLFuzzer`. Every test also fills a `Branch`
and adds it to the static set `branches`, which must not be null. The calls
before an `if` stand in its condition. The bodies of the transitions are those
of the first task. How the parts of the text run is a parameter, so that a run can
be recorded.
-/
namespace EcaEngines.Fuzzer
open Imperative Reactive FirstMatch Dispatch Instrumented Transitions Modes Blocks
open Guards Engine Reachable
open Original (Throwable noTransition)

namespace Text
variable {σ : Type} (run : ∀ {α : Type}, Prog α → Imp Throwable σ α) (input : MyString)

def CalculateOutputm1 : Imp Throwable σ Unit :=
  ifM (run do
    let br1 ← newBranch input.val
    I.myEquals 1 (.object input) "usr2_ai1_VoidReply" br1
    I.myAnd 2 (.bool 1) .cf br1
    setDependentVariable br1 (.bool 2)
    branchesAdd br1
    I.myIf (.bool 2)) (run (block .copied .m1VoidReply))

def CalculateOutputm2 : Imp Throwable σ Unit := do
  ifM (run do
    let br1 ← newBranch input.val
    I.myEquals 1 (.object input) "usr4_ni1_ne1" br1
    I.myAnd 2 (.bool 1) .cf br1
    setDependentVariable br1 (.bool 2)
    branchesAdd br1
    I.myIf (.bool 2)) (run (block .copied .m2Ne1))
  ifM (run do
    let br2 ← newBranch input.val
    I.myEquals 1 (.object input) "ai1_ce2" br2
    I.myAnd 2 (.bool 1) .cf br2
    setDependentVariable br2 (.bool 2)
    branchesAdd br2
    I.myIf (.bool 2)) (run (block .copied .m2Ce2))

def CalculateOutputm3 : Imp Throwable σ Unit :=
  ifM (run do
    let br1 ← newBranch input.val
    I.myEquals 1 (.object input) "usr4_ai1_VoidReply" br1
    I.myAnd 2 .cf (.bool 1) br1
    setDependentVariable br1 (.bool 2)
    branchesAdd br1
    I.myIf (.bool 2)) (run (block .copied .m3VoidReply))

def CalculateOutputm4 : Imp Throwable σ Unit := do
  ifM (run do
    let br1 ← newBranch input.val
    I.myEquals 1 (.object input) "ai1_ce2" br1
    I.myAnd 2 .cf (.bool 1) br1
    setDependentVariable br1 (.bool 2)
    branchesAdd br1
    I.myIf (.bool 2)) (run (block .copied .m4Ce2))
  ifM (run do
    let br2 ← newBranch input.val
    I.myEquals 1 (.object input) "ai1_ce1" br2
    I.myAnd 2 .cf (.bool 1) br2
    setDependentVariable br2 (.bool 2)
    branchesAdd br2
    I.myIf (.bool 2)) (run (block .copied .m4Ce1))
  ifM (run do
    let br3 ← newBranch input.val
    I.myEquals 1 (.object input) "usr4_ni1_ne1" br3
    I.myAnd 2 (.bool 1) .cf br3
    setDependentVariable br3 (.bool 2)
    branchesAdd br3
    I.myIf (.bool 2)) (run (block .copied .m4Ne1))

def CalculateOutputm5 : Imp Throwable σ Unit :=
  ifM (run do
    let br1 ← newBranch input.val
    I.myEquals 1 (.object input) "usr2_ai1_VoidReply" br1
    I.myAnd 2 (.bool 1) .cf br1
    branchesAdd br1
    I.myIf (.bool 2)) (run (block .copied .m5VoidReply))

def CalculateOutputm6 : Imp Throwable σ Unit := do
  ifM (run do
    let br1 ← newBranch input.val
    I.myEquals 1 (.object input) "usr4_ni1_ne1" br1
    I.myAnd 2 (.bool 1) .cf br1
    branchesAdd br1
    I.myIf (.bool 2)) (run (block .copied .m6Ne1))
  ifM (run do
    let br2 ← newBranch input.val
    I.myEquals 1 (.object input) "usr4_ai1_VoidReply" br2
    I.myAnd 2 .cf (.bool 1) br2
    branchesAdd br2
    I.myIf (.bool 2)) (run (block .copied .m6VoidReply))

def CalculateOutputm7 : Imp Throwable σ Unit := do
  ifM (run do
    let br1 ← newBranch input.val
    I.myEquals 1 (.object input) "usr4_ni1_ne1" br1
    I.myAnd 2 (.bool 1) .cf br1
    branchesAdd br1
    I.myIf (.bool 2)) (run (block .copied .m7Ne1))
  ifM (run do
    let br2 ← newBranch input.val
    I.myEquals 1 (.object input) "usr4_ai1_VoidReply" br2
    I.myAnd 2 .cf (.bool 1) br2
    branchesAdd br2
    I.myIf (.bool 2)) (run (block .copied .m7VoidReply))

def CalculateOutputm8 : Imp Throwable σ Unit :=
  ifM (run do
    let br1 ← newBranch input.val
    I.myEquals 1 (.object input) "usr4_ai1_VoidReply" br1
    I.myAnd 2 (.bool 1) .cf br1
    branchesAdd br1
    I.myIf (.bool 2)) (run (block .copied .m8VoidReply))

def CalculateOutput : Imp Throwable σ Unit := do
  run (setCf (.new2 true "cf"))
  ifM (run do
    let br1 ← newBranch input.val
    I.myLessEqual 1 .a2108127495 (.int (-164)) br1
    I.myAnd 2 .cf (.bool 1)
    branchesAdd br1
    I.myIf (.bool 2)) do
    ifM (run do
      let br2 ← newBranch input.val
      I.myLess 1 (.int (-83)) .a1522448132 br2
      I.myGreaterEqual 2 (.int 18) .a1522448132 br2
      I.myAnd 3 (.bool 1) (.bool 2) br2
      I.myAnd 4 .cf (.bool 3) br2
      branchesAdd br2
      I.myIf (.bool 4)) do
      CalculateOutputm1 run input
  ifM (run do
    let br3 ← newBranch input.val
    I.myLess 1 (.int (-164)) .a2108127495 br3
    I.myGreaterEqual 2 (.int (-19)) .a2108127495 br3
    I.myAnd 3 (.bool 1) (.bool 2) br3
    I.myAnd 4 .cf (.bool 3) br3
    branchesAdd br3
    I.myIf (.bool 4)) do
    ifM (run do
      let br4 ← newBranch input.val
      I.myEquals 1 .a1745113960 "e" br4
      I.myAnd 2 .cf (.bool 1) br4
      branchesAdd br4
      I.myIf (.bool 2)) do
      CalculateOutputm2 run input
    ifM (run do
      let br5 ← newBranch input.val
      I.myEquals 1 .a1745113960 "g" br5
      I.myAnd 2 .cf (.bool 1) br5
      branchesAdd br5
      I.myIf (.bool 2)) do
      CalculateOutputm3 run input
    ifM (run do
      let br6 ← newBranch input.val
      I.myEquals 1 .a1745113960 "h" br6
      I.myAnd 2 .cf (.bool 1) br6
      branchesAdd br6
      I.myIf (.bool 2)) do
      CalculateOutputm4 run input
    ifM (run do
      let br7 ← newBranch input.val
      I.myEquals 1 .a1745113960 "i" br7
      I.myAnd 2 (.bool 1) .cf br7
      branchesAdd br7
      I.myIf (.bool 2)) do
      CalculateOutputm5 run input
  ifM (run do
    let br8 ← newBranch input.val
    I.myLess 1 (.int (-19)) .a2108127495 br8
    I.myGreaterEqual 2 (.int 100) .a2108127495 br8
    I.myAnd 3 (.bool 1) (.bool 2) br8
    I.myAnd 4 (.bool 3) .cf br8
    branchesAdd br8
    I.myIf (.bool 4)) do
    ifM (run do
      let br9 ← newBranch input.val
      I.myEquals 1 .a1745113960 "g" br9
      I.myAnd 2 .cf (.bool 1) br9
      branchesAdd br9
      I.myIf (.bool 2)) do
      CalculateOutputm6 run input
    ifM (run do
      let br10 ← newBranch input.val
      I.myEquals 1 .a1745113960 "h" br10
      I.myAnd 2 .cf (.bool 1) br10
      branchesAdd br10
      I.myIf (.bool 2)) do
      CalculateOutputm7 run input
  ifM (run do
    let br11 ← newBranch input.val
    I.myLess 1 (.int 100) .a2108127495 br11
    I.myAnd 2 .cf (.bool 1) br11
    branchesAdd br11
    I.myIf (.bool 2)) do
    ifM (run do
      let br12 ← newBranch input.val
      I.myLess 1 (.int 103) .a422009172 br12
      I.myGreaterEqual 2 (.int 198) .a422009172 br12
      I.myAnd 3 (.bool 1) (.bool 2) br12
      I.myAnd 4 (.bool 3) .cf br12
      branchesAdd br12
      I.myIf (.bool 4)) do
      CalculateOutputm8 run input
  ifM (run do
    let br12 ← newBranch input.val
    setDependentVariable br12 .cf
    branchesAdd br12
    I.myIf .cf) do
    throw noTransition

/-- What is recorded aside, the text runs as it does without the record. -/
theorem CalculateOutput_projects {view : σ → World}
    (hrun : ∀ {α : Type} (p : Prog α), Projects view (run p) p) :
    Projects view (CalculateOutput run input) (CalculateOutput plain input) := by
  unfold CalculateOutput CalculateOutputm1 CalculateOutputm2 CalculateOutputm3 CalculateOutputm4
    CalculateOutputm5 CalculateOutputm6 CalculateOutputm7 CalculateOutputm8
  with_reducible repeat' first
    | exact hrun _
    | exact projects_throw _
    | refine Projects.ifM ?_ ?_
    | refine Projects.bind ?_ fun _ => ?_

end Text

def CalculateOutput (input : MyString) : Prog Unit := Text.CalculateOutput plain input

/-- The condition of the first `if` in the loop of `main`. -/
def check (input : MyString) : Prog Bool := do
  let br1 ← newBranch input.val
  I.myEquals 1 (.object input) "ai1_ce1" br1
  I.myEquals 2 (.object input) "usr4_ai1_VoidReply" br1
  I.myEquals 3 (.object input) "usr4_ni1_ne1" br1
  I.myEquals 4 (.object input) "ai1_ce2" br1
  I.myEquals 5 (.object input) "usr2_ai1_VoidReply" br1
  I.myAnd 6 (.bool 1) (.bool 2) br1
  I.myAnd 7 (.bool 3) (.bool 4) br1
  I.myAnd 8 (.bool 6) (.bool 7) br1
  I.myAnd 9 (.bool 8) (.bool 5) br1
  branchesAdd br1
  I.myIf (.bool 9)

section
variable {w : World} {input : MyString}

theorem CalculateOutputm1_takes :
    (phases w).Takes (Text.CalculateOutputm1 plain input) (find input.val .m1) :=
  Tests.word .m1VoidReply fun _ => ⟨_, rfl, rfl⟩

theorem CalculateOutputm2_takes :
    (phases w).Takes (Text.CalculateOutputm2 plain input) (find input.val .m2) :=
  Phases.Takes.seq (Tests.word .m2Ne1 fun _ => ⟨_, rfl, rfl⟩)
    (Tests.word .m2Ce2 fun _ => ⟨_, rfl, rfl⟩)

theorem CalculateOutputm3_takes :
    (phases w).Takes (Text.CalculateOutputm3 plain input) (find input.val .m3) :=
  Tests.cf_word .m3VoidReply fun _ => ⟨_, rfl, rfl⟩

theorem CalculateOutputm4_takes :
    (phases w).Takes (Text.CalculateOutputm4 plain input) (find input.val .m4) :=
  Phases.Takes.seq (Tests.cf_word .m4Ce2 fun _ => ⟨_, rfl, rfl⟩)
    (Phases.Takes.seq (Tests.cf_word .m4Ce1 fun _ => ⟨_, rfl, rfl⟩)
      (Tests.word .m4Ne1 fun _ => ⟨_, rfl, rfl⟩))

theorem CalculateOutputm5_takes :
    (phases w).Takes (Text.CalculateOutputm5 plain input) (find input.val .m5) :=
  Tests.word .m5VoidReply fun _ => ⟨_, rfl, rfl⟩

theorem CalculateOutputm6_takes :
    (phases w).Takes (Text.CalculateOutputm6 plain input) (find input.val .m6) :=
  Phases.Takes.seq (Tests.word .m6Ne1 fun _ => ⟨_, rfl, rfl⟩)
    (Tests.cf_word .m6VoidReply fun _ => ⟨_, rfl, rfl⟩)

theorem CalculateOutputm7_takes :
    (phases w).Takes (Text.CalculateOutputm7 plain input) (find input.val .m7) :=
  Phases.Takes.seq (Tests.word .m7Ne1 fun _ => ⟨_, rfl, rfl⟩)
    (Tests.cf_word .m7VoidReply fun _ => ⟨_, rfl, rfl⟩)

theorem CalculateOutputm8_takes :
    (phases w).Takes (Text.CalculateOutputm8 plain input) (find input.val .m8) :=
  Tests.word .m8VoidReply fun _ => ⟨_, rfl, rfl⟩

end

theorem CalculateOutput_implements : Implements (CalculateOutput) := fun input w => by
  rw [← search_eq_fired]
  exact outcome_of_ends (dispatch_ends
    (Tests.low fun _ => ⟨_, rfl, rfl⟩)
    (fun _ => Tests.m1 (fun _ => ⟨_, rfl, rfl⟩) CalculateOutputm1_takes)
    (Tests.middle fun _ => ⟨_, rfl, rfl⟩)
    (fun _ => Tests.cf_string (fun _ => rfl) (fun _ => ⟨_, rfl, rfl⟩) CalculateOutputm2_takes)
    (fun _ => Tests.cf_string (fun _ => rfl) (fun _ => ⟨_, rfl, rfl⟩) CalculateOutputm3_takes)
    (fun _ => Tests.cf_string (fun _ => rfl) (fun _ => ⟨_, rfl, rfl⟩) CalculateOutputm4_takes)
    (fun _ => Tests.string_cf (fun _ => rfl) (fun _ => ⟨_, rfl, rfl⟩) CalculateOutputm5_takes)
    (Tests.upper fun _ => ⟨_, rfl, rfl⟩)
    (fun _ => Tests.cf_string (fun _ => rfl) (fun _ => ⟨_, rfl, rfl⟩) CalculateOutputm6_takes)
    (fun _ => Tests.cf_string (fun _ => rfl) (fun _ => ⟨_, rfl, rfl⟩) CalculateOutputm7_takes)
    (Tests.high fun _ => ⟨_, rfl, rfl⟩)
    (fun _ => Tests.m8 (fun _ => ⟨_, rfl, rfl⟩) CalculateOutputm8_takes)
    (Tests.check fun _ => ⟨_, rfl, rfl⟩))

/-- Step by step the engine is the uninstrumented machine: the same result, words,
variables and `cf` from every world, so also the same responses and variables
along every sequence of calls, whatever the static state holds before each. -/
theorem CalculateOutput_equivalent :
    (∀ (input : MyString) (w : World),
      let r := exec (CalculateOutput input) w
      let o := exec (Original.calculateOutput input.val) (abstraction w)
      r.1 = o.1 ∧ r.2.out = o.2.out ∧ r.2.view = o.2.toVars ∧ r.2.cf.val = o.2.cf) ∧
    ∀ (w : World) (is : List (Scratch × MyString)),
      responses (callScratch CalculateOutput) w is =
        responses Original.call (abstraction w) (is.map fun i => i.2.val) ∧
      (after (callScratch CalculateOutput) w is).view =
        (after Original.call (abstraction w) (is.map fun i => i.2.val)).toVars := by
  constructor
  · intro input w
    have h := exec_equivalent CalculateOutput_implements input w
    exact ⟨congrArg Prod.fst h, congrArg (fun x => x.2.out) h, congrArg (fun x => x.2.toVars) h,
      congrArg (fun x => x.2.cf) h⟩
  · intro w is
    obtain ⟨hr, ha⟩ := responses_equivalent CalculateOutput_implements w is
    exact ⟨hr, congrArg Original.State.toVars ha⟩

/-- A call fires exactly one transition, or prints nothing, changes no variable
and throws. -/
theorem CalculateOutput_all_or_nothing (input : MyString) (w : World) :
    let r := exec (CalculateOutput input) w
    (r.1 = .ok () ∧ r.2.cf.val = false ∧
      ∃ t : Transition, r.2.out = w.out ++ [t.word] ∧ r.2.view = t.fire w.view) ∨
    (r.1 = .error noTransition ∧ r.2.out = w.out ∧
      r.2.a422009172 = w.a422009172 ∧ r.2.a2108127495 = w.a2108127495 ∧
      r.2.a1522448132 = w.a1522448132 ∧ r.2.a1745113960 = w.a1745113960) := by
  have h := CalculateOutput_implements input w
  generalize exec (CalculateOutput input) w = r at h
  obtain ⟨r, w'⟩ := r
  cases ho : fired w.view input.val with
  | none =>
    rw [ho] at h
    cases h with
    | rejected hs => exact .inr ⟨rfl, hs.out, hs.fields⟩
  | some t =>
    rw [ho] at h
    obtain ⟨hr, hout, hview, hcf⟩ := outcome_fired h
    exact .inl ⟨hr, hcf, t, hout, hview⟩

/-- Every world reached from `reset()` has exactly one mode. The start mode is
`m4`, and mode and input decide output and next mode by the table. -/
theorem CalculateOutput_mealy (w : World) (is : List MyString) :
    let u := after (call CalculateOutput) (reset w) is
    (∀ n : Mode, Guard n (reset w).view ↔ n = .m4) ∧
    ∃ m : Mode, (∀ n : Mode, Guard n u.view ↔ n = m) ∧
      (∀ input : MyString, match next m input.val with
        | some (word, m') => (call CalculateOutput u input).1 = ⟨[word], false⟩ ∧
          ∀ n : Mode, Guard n (call CalculateOutput u input).2.view ↔ n = m'
        | none => (call CalculateOutput u input).1 = ⟨[], true⟩ ∧
          Unchanged u (call CalculateOutput u input).2) ∧
      ∃ input : MyString, (call CalculateOutput u input).1.rejected = false :=
  ⟨fun _ => inv_unique inv_start,
    call_mealy CalculateOutput_implements (moded_after CalculateOutput_implements w is)⟩

/-- An input is no two words at once. -/
theorem check_tests (input : MyString) : Tests (check input) fun _ _ => false := by
  have h : Tests (check input) fun _ _ =>
      (((input.val == "ai1_ce1" && input.val == "usr4_ai1_VoidReply") &&
        (input.val == "usr4_ni1_ne1" && input.val == "ai1_ce2")) &&
        input.val == "usr2_ai1_VoidReply") := fun _ => ⟨_, rfl, rfl⟩
  have hfalse : (input.val == "ai1_ce1" && input.val == "usr4_ai1_VoidReply") = false := by
    by_cases hi : input.val = "ai1_ce1" <;> simp [hi]
  simpa only [hfalse, Bool.false_and] using h

end EcaEngines.Fuzzer
