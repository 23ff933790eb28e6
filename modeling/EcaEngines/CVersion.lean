import EcaEngines.BoundedInt
import EcaEngines.Dispatch
import EcaEngines.Reactive

/-!
# The C version

`m183_LTL_CTL.c`. A C `int` is `Int32`, but an operation whose result does not fit
is undefined behaviour, which is an exception here that ends the run. What goes
to standard output is kept in `out`, and the inputs reported as invalid in `err`.
An expression of the source is a first operand and the operators applied to it
from the inside out.
-/
namespace EcaEngines.CVersion
open Imperative Reactive FirstMatch BoundedInt Dispatch

inductive Fault where
  | undefined
deriving DecidableEq, Repr

structure Vars where
  a1504052271 : Int32
  a355441369 : Int32
  a553774011 : Int32
deriving DecidableEq, Repr

structure State extends Vars where
  cf : Int32
  out : List Int32
  err : List Int32
deriving DecidableEq, Repr

/-- The initial values of the globals. -/
def State.start : State := ⟨⟨140, 296, 4⟩, 1, [], []⟩

abbrev Prog := Imp Fault State

/-- One operator. -/
def apply (op : Op) (x y : Int32) : Prog Int32 := do
  ifM (test fun _ => ¬ op.Defined x y) do
    throw .undefined
  pure (op.eval x y)

def applyAll (x : Int32) : List (Op × Int32) → Prog Int32
  | [] => pure x
  | (op, y) :: ops => do applyAll (← apply op x y) ops

def assignA1504052271 (x : State → Int32) (ops : State → List (Op × Int32)) : Prog Unit := do
  let s ← get
  let y ← applyAll (x s) (ops s)
  modify fun s => { s with a1504052271 := y }

def assignA355441369 (x : State → Int32) (ops : State → List (Op × Int32)) : Prog Unit := do
  let s ← get
  let y ← applyAll (x s) (ops s)
  modify fun s => { s with a355441369 := y }

def assignA553774011 (y : Int32) : Prog Unit := modify fun s => { s with a553774011 := y }

def assignCf (y : Int32) : Prog Unit := modify fun s => { s with cf := y }

def printf (code : Int32) : Prog Unit := modify fun s => { s with out := s.out ++ [code] }

def fprintfInvalid (input : Int32) : Prog Unit := modify fun s => { s with err := s.err ++ [input] }

def calculate_outputm1 (input : Int32) : Prog Unit := do
  ifM (test fun s => input == 56 && s.cf == 1) do
    assignCf 0
    assignA355441369 (·.a355441369) fun s =>
      [(.mul, s.a1504052271), (.mod, 14999), (.mod, 95), (.add, 212), (.add, -3724), (.mul, 5),
        (.mod, 95), (.add, 250)]
    assignA1504052271 (·.a1504052271) fun s =>
      [(.mul, s.a355441369), (.mod, 14999), (.mod, 12), (.add, 146), (.mul, 1), (.sub, -26865),
        (.sub, 26866)]
    printf 64
  ifM (test fun s => s.cf == 1 && input == 57) do
    assignCf 0
    assignA1504052271 (·.a1504052271) fun s =>
      [(.mul, s.a355441369), (.mod, 14999), (.mod, 105), (.add, 27), (.add, -4968),
        (.sub, -11739), (.sub, 6772)]
    assignA553774011 7
    printf 60

def calculate_outputm2 (input : Int32) : Prog Unit := do
  ifM (test fun s => s.cf == 1 && input == 57) do
    assignCf 0
    assignA553774011 9
    printf 60
  ifM (test fun s => input == 56 && s.cf == 1) do
    assignCf 0
    assignA355441369 (·.a1504052271) fun s =>
      [(.mul, s.a1504052271), (.mul, 1), (.mod, 48), (.add, 68), (.mul, 1)]
    assignA1504052271 (·.a1504052271) fun s =>
      [(.mul, s.a355441369), (.sub, -12704), (.sub, -528), (.add, 896)]
    printf 64

def calculate_outputm3 (input : Int32) : Prog Unit :=
  ifM (test fun s => input == 59 && s.cf == 1) do
    assignCf 0
    assignA1504052271 (·.a1504052271) fun _ =>
      [(.mod, 12), (.add, 146), (.mul, 1), (.sub, 18935), (.add, 18934)]
    assignA355441369 (·.a1504052271) fun s =>
      [(.mul, s.a1504052271), (.div, 5), (.mod, 95), (.add, 164), (.sub, 33)]
    printf 60

def calculate_outputm4 (input : Int32) : Prog Unit :=
  ifM (test fun s => s.cf == 1 && input == 56) do
    assignCf 0
    assignA355441369 (·.a1504052271) fun s =>
      [(.mul, s.a1504052271), (.sub, -10765), (.add, 1445), (.sub, -189)]
    assignA1504052271 (·.a1504052271) fun s =>
      [(.mul, s.a355441369), (.mod, 14999), (.sub, 8929), (.div, 5), (.mul, 5), (.mod, 12),
        (.add, 145)]
    printf 63

def calculate_outputm5 (input : Int32) : Prog Unit :=
  ifM (test fun s => s.cf == 1 && input == 56) do
    assignCf 0
    assignA1504052271 (·.a1504052271) fun _ => [(.add, 9836), (.mul, 10), (.div, 9), (.div, 5)]
    assignA355441369 (·.a1504052271) fun s =>
      [(.mul, s.a1504052271), (.mod, 14999), (.mod, 48), (.add, 50), (.mul, 9), (.div, 10),
        (.add, -18)]
    printf 66

def calculate_outputm6 (input : Int32) : Prog Unit := do
  ifM (test fun s => s.cf == 1 && input == 57) do
    assignCf 0
    assignA1504052271 (·.a1504052271) fun s =>
      [(.mul, s.a355441369), (.mod, 14999), (.mod, 105), (.sub, 14), (.div, 5), (.sub, 24176),
        (.sub, -24226)]
    assignA553774011 4
    printf 63
  ifM (test fun s => input == 58 && s.cf == 1) do
    assignCf 0
    printf 64
  ifM (test fun s => input == 55 && s.cf == 1) do
    assignCf 0
    assignA1504052271 (·.a1504052271) fun s =>
      [(.mul, s.a355441369), (.mod, 14999), (.mod, 105), (.add, 4), (.div, 5), (.sub, -5260),
        (.sub, 5306)]
    assignA553774011 2
    printf 62

def calculate_outputm7 (input : Int32) : Prog Unit :=
  ifM (test fun s => s.cf == 1 && input == 59) do
    assignCf 0
    assignA355441369 (·.a355441369) fun s =>
      [(.mul, s.a1504052271), (.mod, 14999), (.mod, 95), (.add, 212), (.mul, 5), (.mod, 95),
        (.sub, -169)]
    printf 64

def calculate_outputm8 (input : Int32) : Prog Unit := do
  ifM (test fun s => s.cf == 1 && input == 57) do
    assignCf 0
    printf 65
  ifM (test fun s => s.cf == 1 && input == 58) do
    assignCf 0
    assignA1504052271 (·.a1504052271) fun s =>
      [(.mul, s.a355441369), (.mod, 14999), (.add, -19076), (.mul, 10), (.div, 9), (.add, 29218),
        (.mul, -1), (.div, 10)]
    assignA355441369 (·.a355441369) fun s =>
      [(.mul, s.a1504052271), (.mod, 14999), (.add, 17432), (.mul, 1), (.add, -12283),
        (.sub, -19411)]
    printf 61

def calculate_output (input : Int32) : Prog Unit := do
  assignCf 1
  ifM (test fun s => s.cf == 1 && s.a1504052271 ≤ -80) do
    ifM (test fun s => 308 < s.a355441369 && s.cf == 1) do
      calculate_outputm1 input
  ifM (test fun s => (-80 < s.a1504052271 && 132 ≥ s.a1504052271) && s.cf == 1) do
    ifM (test fun s => s.a553774011 == 2 && s.cf == 1) do
      calculate_outputm2 input
    ifM (test fun s => s.a553774011 == 4 && s.cf == 1) do
      calculate_outputm3 input
    ifM (test fun s => s.cf == 1 && s.a553774011 == 7) do
      calculate_outputm4 input
    ifM (test fun s => s.a553774011 == 9 && s.cf == 1) do
      calculate_outputm5 input
  ifM (test fun s => s.cf == 1 && (132 < s.a1504052271 && 158 ≥ s.a1504052271)) do
    ifM (test fun s => (116 < s.a355441369 && 308 ≥ s.a355441369) && s.cf == 1) do
      calculate_outputm6 input
    ifM (test fun s => 308 < s.a355441369 && s.cf == 1) do
      calculate_outputm7 input
  ifM (test fun s => s.cf == 1 && 158 < s.a1504052271) do
    ifM (test fun s => s.cf == 1 && (19 < s.a355441369 && 116 ≥ s.a355441369)) do
      calculate_outputm8 input
  ifM (test fun s => s.cf == 1) do
    fprintfInvalid input

/-- What one call shows: the codes printed and the inputs reported invalid, or
that it met undefined behaviour. -/
structure Reply where
  codes : List Int32
  invalid : List Int32
  undefined : Bool
deriving DecidableEq, Repr

/-- One call with empty output. -/
def call (s : State) (input : Int32) : Reply × State :=
  let r := exec (calculate_output input) { s with out := [], err := [] }
  (⟨r.2.out, r.2.err, !r.1.isOk⟩, r.2)

example : (call State.start 55).1 = ⟨[62], [], false⟩ := by decide
example : (call State.start 56).1 = ⟨[], [56], false⟩ := by decide

end EcaEngines.CVersion
