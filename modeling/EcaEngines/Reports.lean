import EcaEngines.Coverage
import EcaEngines.Distance
import EcaEngines.FlowLength
import EcaEngines.Gauge
import EcaEngines.Growth
import EcaEngines.Modes

/-!
# What `main` reports

The whole of `main` of `instm183_LTL_CTLDirectFinal`, given the inputs that the fuzzer
picks. What it prints about depths and distances depends on the picks in a simple way.
-/
namespace EcaEngines.Reports
open Imperative Recording Effects Conditions Trees Simulation DirectFinal Loops Displays
open FlowLength Distance Gauge Growth Lookups
open Coverage (setLines printBranchSet_displayed)
open Dispatch Transitions Modes
open Original (Throwable Vars)

variable {u v w : World} {x : ℕ} {r : Ref}

/-- The variables after a call. -/
def moved (v : Vars) (letter : String) : Vars := (answer v letter).2.2

/-- A call raises the depth of its input by the number of its true decisions, whatever the
state. It is not by three that acceptance shows. -/
theorem calculateOutput_gauged (hw : Sound w) (hx : x < w.nextSet) (hr : Owned w r) :
    let after := (exec (DirectFinal.calculateOutput (.ref r) (some x)) w).2
    let letter := (w.strings r).val
    (after.strings r).depth = (w.strings r).depth + Int32.ofNat (trueTests w.view letter) ∧
      (trueTests w.view letter = 3 ↔ after.out ≠ w.out ∨
        (Region.upper.Holds cuts w.view.a2108127495 ∧ (modeOf w.view).isSome)) := by
  intro after letter
  obtain ⟨res, v, hv, hq, -⟩ := Regions.calculateOutput_follows hw hx ⟨r, rfl, hr, rfl⟩
  have hres : ∀ e, res = .error e → ¬ Depth.Stops e := by
    rintro e he rfl
    cases Nested.calculateOutput_raises letter (erase w) _ (by rw [hq, he])
  have hafter : after = v := congrArg Prod.snd hv
  obtain ⟨ds, hds, hdepth⟩ := (Depth.deepens_calculateOutput r (some x) w res v hv hres).depth hr
  have hcount := calculateOutput_count letter (erase w)
  obtain ⟨-, hout, -⟩ := calculateOutput_answer letter (erase w)
  rw [hq] at hcount hout
  have hsum : v.decisions.count true = w.decisions.count true + trueTests w.view letter := hcount
  rw [hds, List.count_append] at hsum
  have hprinted : v.out ≠ w.out ↔ (taken w.view letter).isSome := by
    change v.out = w.out ++ (answer w.view letter).2.1 at hout
    rw [hout, answer]
    cases taken w.view letter <;> simp
  rw [hafter]
  refine ⟨by rw [hdepth, Nat.add_left_cancel hsum], ?_⟩
  rw [trueTests_eq_three_iff, hprinted]

/-- The first input object of the engine, and a set. -/
theorem calculateOutput_gauged_start :
    let w := (exec newBranches Runs.start).2
    ((exec (DirectFinal.calculateOutput (.ref (.made 0)) (some 0)) w).2.strings (.made 0)).depth =
      (w.strings (.made 0)).depth + Int32.ofNat (trueTests w.view (w.strings (.made 0)).val) := by
  obtain ⟨x, l, r, v, hv, hb⟩ := newBranches_branched Runs.start
  have hw : Sound (exec newBranches Runs.start).2 := by
    rw [hv]
    exact (hb.within Runs.start_sound 0).sound
  exact (calculateOutput_gauged hw (by decide +kernel : 0 < _) ⟨0, by decide +kernel, rfl⟩).1

/-- The inputs that are accepted after a reset. -/
def opening : List String := ["ai1_ce1", "ai1_ce2", "usr4_ni1_ne1"]

theorem taken_start (letter : String) : taken Vars.start letter = find letter .m4 :=
  (if_neg (by decide)).trans (fired_of_guard inv_start.guard letter)

/-- What `printFlowLength` prints. -/
def flowLines (input : List Ref) : Prog (List String) := do
  let maxDepth ← printFlowLength input
  let w ← get
  pure (["=============TASK 1================",
    "For input array of length: " ++ toString input.length, "And elements: "] ++
    input.zipIdx.map (fun (str, i) => " " ++ toString i ++ ". " ++ displayString (w.strings str)) ++
    ["Max depth is: " ++ toString maxDepth])

/-- `Calculate.convertMyStringArrToString`. -/
def convertMyStringArrToString (w : World) (arr : List Ref) : String :=
  "[" ++ ", ".intercalate (arr.map fun str => (w.strings str).val) ++ "]"

/-- What `Calculate.displayBranchDistances` prints. The first use of the class makes the
strings in its array, which its methods only read. -/
def displayBranchDistances (w : World) (inputSet : List Ref) (branchSet : SetVar) :
    Except Failure (List String) := do
  let lines ← inputSet.mapM fun arr1 => do
    let d ← Calculate.calculateDistanceForInputTrace (isString w) Calculate.inputs w arr1
      branchSet
    pure ("String: " ++ (w.strings arr1).val ++ " distance " ++ toString d)
  pure (("input trace set: " ++ convertMyStringArrToString w inputSet) :: lines)

/-- The program begins with `first`, and from then on only grows. -/
def Begins (first : Prog Unit) {α : Type} (p : Prog α) : Prop :=
  ∀ u v, exec first u = (.ok (), v) → Grows v (exec p u).2

section
variable {α β : Type} {first : Prog Unit} {p : Prog α} {k : α → Prog β}

theorem Begins.bind (hp : Begins first p) (hk : ∀ a, Growing (k a)) : Begins first (p >>= k) := by
  intro u v hu
  have hv := hp u v hu
  rw [exec_bind]
  rcases he : exec p u with ⟨e | a, t⟩ <;> rw [he] at hv
  · exact hv
  · exact hv.trans (hk a t _ _ rfl fun _ _ => not_false)

end

/-- An object that was made, by a constructor of `MyString`. -/
def MadeString (w : World) (r : Ref) : Prop := Owned w r ∧ w.getClass r = some .myString

theorem MadeString.isString (h : MadeString w r) : isString w r = true := decide_eq_true h.2

/-- A training run with the lines it reports. -/
def trainingReport (trainingBranches : SetVar) (vals : List String) : Prog (List String) := do
  trainingReset
  let fuzzed_inputs ← fuzz vals
  fuzzed_inputs.forM fun input => process .training trainingBranches (.ref input)
  flowLines fuzzed_inputs

/-- The measured run with the lines it reports, its inputs and its branches. -/
def measuredReport (vals : List String) :
    Prog (List String × List String × List Ref × SetVar) := do
  reset
  let fuzzed_inputs ← fuzz vals
  let branches ← newBranches
  fuzzed_inputs.forM fun input => process .measured branches (.ref input)
  let flow ← flowLines fuzzed_inputs
  let shown ← displayReachedCodeBranches display branches
  pure (flow, shown, fuzzed_inputs, branches)

/-- The lines of `printFlowLength`, `displayReachedCodeBranches` and
`displayBranchDistances`. What else is printed is left out. -/
structure Report where
  training : List (List String)
  flow : List String
  branches : List String
  distances : List String

def phases (runs : List (List String)) (vals : List String) :
    Prog (List (List String) × List String × List String × List Ref × SetVar) := do
  construct
  let trainingBranches ← newBranches
  let training ← runs.mapM (trainingReport trainingBranches)
  let measured ← measuredReport vals
  pure (training, measured)

/-- `main`, given the inputs that the fuzzer picks for every run. The distances come last, and
only they may throw a plain `Exception`. -/
def main (runs : List (List String)) (vals : List String) : Except Failure Report × World :=
  match exec (phases runs vals) blank with
  | (.error e, w) => (.error (.thrown e), w)
  | (.ok (training, flow, shown, inputs, branches), w) =>
    ((displayBranchDistances w inputs branches).map fun distances =>
      ⟨training, flow, shown, distances⟩, w)

end EcaEngines.Reports
