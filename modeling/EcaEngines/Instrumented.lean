import EcaEngines.BoundedInt
import EcaEngines.Original
import Mathlib.Data.Finset.Insert
import Mathlib.Logic.Function.Basic

/-!
# The instrumented runtime

The classes `MyInt`, `MyBool`, `MyString` and `I`, which the programs of
`T1Final` and `T3Final` each declare with the same text. `T3Final` adds overloads
that also append to a `Branch`. The scratch registers `I.varN` and `I.boolN` are
static objects that are overwritten in place, so they are named by number. The
objects of the four state variables and of `cf` are replaced, never written to,
so a field holds its object's contents, and so does a branch condition that
refers to such an object.

`out`, `decisions` and `steps` record what is printed, what is passed to
`I.myIf`, and the integer operations performed.
-/
namespace EcaEngines.Instrumented
open Imperative
open BoundedInt (Op)
open Original (Throwable Vars)

structure MyInt where
  val : Int32
  flow : Bool
  flowTrack : Finset (Option String)
  varName : Option String
deriving DecidableEq

structure MyBool where
  val : Bool
  flow : Bool
  varName : Option String
  flowTrack : Finset (Option String)
deriving DecidableEq

structure MyString where
  val : String
  flow : Bool
  flowTrack : Finset (Option String)
deriving DecidableEq

def MyInt.new (v : Int32) : MyInt := ⟨v, false, ∅, none⟩

/-- The name goes into `flowTrack`, and `varName` stays null. -/
def MyInt.new2 (v : Int32) (varName : String) : MyInt := ⟨v, false, {some varName}, none⟩

def MyInt.new3 (v : Int32) (varName : Option String) (b : Bool) : MyInt :=
  ⟨v, b, if b then {varName} else ∅, varName⟩

def MyBool.new (v : Bool) : MyBool := ⟨v, false, none, ∅⟩

def MyBool.new2 (v : Bool) (varName : String) : MyBool := ⟨v, false, some varName, ∅⟩

def MyBool.new3 (v : Bool) (varName : Option String) (b : Bool) : MyBool :=
  ⟨v, b, varName, if b then {varName} else ∅⟩

def MyString.new (v : String) : MyString := ⟨v, false, ∅⟩

def MyString.new2 (v : String) (b : Bool) : MyString := ⟨v, b, if b then {some v} else ∅⟩

/-- A `MyInt` object: a register, the object of a field, or one made from a literal. -/
inductive IntRef where
  | var (n : ℕ)
  | a422009172
  | a2108127495
  | a1522448132
  | int (k : Int32)
deriving DecidableEq

inductive StringRef where
  | object (s : MyString)
  | a1745113960
deriving DecidableEq

inductive BoolRef where
  | bool (n : ℕ)
  | cf
deriving DecidableEq

/-- An operand kept in a `Condition`. A register is kept by reference and shows
its later values. -/
inductive Kept (α : Type) where
  | register (n : ℕ)
  | object (contents : α)
deriving DecidableEq

inductive TypeEnum where
  | myEquals | myAnd | myLessEqual | myGreaterEqual | myLess
deriving DecidableEq, Repr

/-- The operand fields a recording overload does not set stay null. -/
structure Condition where
  bTypeEnum : TypeEnum
  boolOpA : Kept MyBool
  strOpB : Option MyString
  strOpC : Option MyString
  boolOpB : Option (Kept MyBool)
  boolOpC : Option (Kept MyBool)
  intOpB : Option (Kept MyInt)
  intOpC : Option (Kept MyInt)
deriving DecidableEq

structure Branch where
  dependentVariable : Option (Kept MyBool)
  condLst : List Condition
  input : String
deriving DecidableEq

/-- Java throws on a zero divisor. -/
def Throws : Op → Int32 → Prop
  | .div, y | .mod, y => y = 0
  | .add, _ | .sub, _ | .mul, _ => False

instance : ∀ (op : Op) (y : Int32), Decidable (Throws op y)
  | .div, y | .mod, y => inferInstanceAs (Decidable (y = 0))
  | .add, _ | .sub, _ | .mul, _ => inferInstanceAs (Decidable False)

/-- One executed integer operation: `I.myAdd` and its kin with both sources just
before and the destination just after, or `I.myAssign` with source and copy. -/
inductive Step where
  | arith (op : Op) (b c a : MyInt)
  | assign (b a : MyInt)
deriving DecidableEq

structure World where
  var : ℕ → MyInt
  bool : ℕ → MyBool
  a422009172 : MyInt
  a2108127495 : MyInt
  a1522448132 : MyInt
  a1745113960 : MyString
  cf : MyBool
  /-- Every `Branch` object made so far; its position is its identity. -/
  made : List Branch
  /-- The members of the static set `branches`. -/
  branches : List ℕ
  out : List String
  decisions : List MyBool
  steps : List Step

abbrev Prog := Imp Throwable World

namespace World

def int (w : World) : IntRef → MyInt
  | .var n => w.var n
  | .a422009172 => w.a422009172
  | .a2108127495 => w.a2108127495
  | .a1522448132 => w.a1522448132
  | .int k => .new k

def string (w : World) : StringRef → MyString
  | .object s => s
  | .a1745113960 => w.a1745113960

def boolean (w : World) : BoolRef → MyBool
  | .bool n => w.bool n
  | .cf => w.cf

def setVar (a : ℕ) (r : MyInt) (w : World) : World := { w with var := Function.update w.var a r }

def setBool (a : ℕ) (r : MyBool) (w : World) : World :=
  { w with bool := Function.update w.bool a r }

/-- The flag of an object made from a literal is lost with the object. -/
def setFlow (w : World) (bo : Bool) : IntRef → World
  | .var n => w.setVar n { w.var n with flow := bo }
  | .a422009172 => { w with a422009172 := { w.a422009172 with flow := bo } }
  | .a2108127495 => { w with a2108127495 := { w.a2108127495 with flow := bo } }
  | .a1522448132 => { w with a1522448132 := { w.a1522448132 with flow := bo } }
  | .int _ => w

def keepInt (w : World) : IntRef → Kept MyInt
  | .var n => .register n
  | r => .object (w.int r)

def keepBool (w : World) : BoolRef → Kept MyBool
  | .bool n => .register n
  | .cf => .object w.cf

end World

namespace I

/-- `a.val = b.val op c.val`. -/
def compute (op : Op) (a : ℕ) (b c : IntRef) : Prog Unit := do
  ifM (test fun w => Throws op (w.int c).val) do
    throw .arithmetic
  modify fun w => w.setVar a { w.var a with val := op.eval (w.int b).val (w.int c).val }

/-- `if (b.flow == true || c.flow == true) a.flow = true`. -/
def propagate (a : ℕ) (b c : IntRef) : Prog Unit :=
  ifM (test fun w => (w.int b).flow || (w.int c).flow) do
    modify fun w => w.setFlow true (.var a)

/-- One operation, with what it does to the flags, entered into the record. -/
def arith (op : Op) (a : ℕ) (b c : IntRef) (flags : Prog Unit) : Prog Unit := do
  let w ← get
  compute op a b c
  flags
  modify fun w' => { w' with steps := w'.steps ++ [.arith op (w.int b) (w.int c) (w'.var a)] }

/-- The overloads without and with a boolean. -/
def overload (a : ℕ) (b c : IntRef) (flagged : Bool → Prog Unit) : Option Bool → Prog Unit
  | none => propagate a b c
  | some bo => flagged bo

def assignFlow (bo : Bool) (r : IntRef) : Prog Unit := modify fun w => w.setFlow bo r

def myAdd (a : ℕ) (b c : IntRef) (bo : Option Bool := none) : Prog Unit :=
  arith .add a b c (overload a b c (fun bo => assignFlow bo (.var a)) bo)

/-- With a boolean the flag goes to the third argument. -/
def myDel (a : ℕ) (b c : IntRef) (bo : Option Bool := none) : Prog Unit :=
  arith .sub a b c (overload a b c (fun bo => assignFlow bo c) bo)

def myMul (a : ℕ) (b c : IntRef) (bo : Option Bool := none) : Prog Unit :=
  arith .mul a b c (overload a b c (fun bo => assignFlow bo (.var a)) bo)

def myDiv (a : ℕ) (b c : IntRef) (bo : Option Bool := none) : Prog Unit :=
  arith .div a b c (overload a b c (fun bo => assignFlow bo (.var a)) bo)

/-- With a boolean no flag is written. -/
def myMod (a : ℕ) (b c : IntRef) (bo : Option Bool := none) : Prog Unit :=
  arith .mod a b c (overload a b c (fun _ => pure ()) bo)

/-- `I.myAssign` makes a new object of the three fields it copies. -/
def copyInt (b : MyInt) : MyInt := .new3 b.val b.varName b.flow

def copyBool (b : MyBool) : MyBool := .new3 b.val b.varName b.flow

def copyString (b : MyString) : MyString := .new2 b.val b.flow

/-- `I.myAssign(MyInt)`, entered into the record. -/
def myAssign (b : IntRef) : Prog MyInt := do
  let w ← get
  modify fun w' => { w' with steps := w'.steps ++ [.assign (w.int b) (copyInt (w.int b))] }
  pure (copyInt (w.int b))

/-- A test writes its destination and, in the overloads with a `Branch`, appends
a `Condition` to it. -/
def record (br : ℕ) (cond : World → Condition) : Prog Unit :=
  modify fun w => { w with made := w.made.modify br fun b =>
    { b with condLst := b.condLst ++ [cond w] } }

/-- Every test keeps the flag of its destination. -/
def decideBool (a : ℕ) (val : World → Bool) : Prog Unit :=
  modify fun w => w.setBool a { w.bool a with val := val w }

def compare (type : TypeEnum) (rel : Int32 → Int32 → Bool) (a : ℕ) (b c : IntRef)
    (br : Option ℕ) : Prog Unit := do
  decideBool a fun w => rel (w.int b).val (w.int c).val
  match br with
  | none => pure ()
  | some br => record br fun w =>
    ⟨type, .register a, none, none, none, none, some (w.keepInt b), some (w.keepInt c)⟩

def myLess (a : ℕ) (b c : IntRef) (br : Option ℕ := none) : Prog Unit :=
  compare .myLess (fun x y => x < y) a b c br

def myLessEqual (a : ℕ) (b c : IntRef) (br : Option ℕ := none) : Prog Unit :=
  compare .myLessEqual (fun x y => x ≤ y) a b c br

def myGreaterEqual (a : ℕ) (b c : IntRef) (br : Option ℕ := none) : Prog Unit :=
  compare .myGreaterEqual (fun x y => x ≥ y) a b c br

/-- The overloads that take the program object go on to compare the array
`inputs` itself with each of its elements. It equals none of them, so the flag of
the destination is never set there. -/
def myEquals (a : ℕ) (b : StringRef) (c : String) (br : Option ℕ := none) : Prog Unit := do
  decideBool a fun w => (w.string b).val == c
  match br with
  | none => pure ()
  | some br => record br fun w =>
    ⟨.myEquals, .register a, some (w.string b), some (.new c), none, none, none, none⟩

def myAnd (a : ℕ) (b c : BoolRef) (br : Option ℕ := none) : Prog Unit := do
  decideBool a fun w => (w.boolean b).val && (w.boolean c).val
  match br with
  | none => pure ()
  | some br => record br fun w =>
    ⟨.myAnd, .register a, none, none, some (w.keepBool b), some (w.keepBool c), none, none⟩

def myIf (a : BoolRef) : Prog Bool := do
  modify fun w => { w with decisions := w.decisions ++ [w.boolean a] }
  test fun w => (w.boolean a).val

def myPrint (a : String) : Prog Unit := modify fun w => { w with out := w.out ++ [a] }

end I

def setCf (b : MyBool) : Prog Unit := modify fun w => { w with cf := b }

def setA422009172 (b : MyInt) : Prog Unit := modify fun w => { w with a422009172 := b }

def setA2108127495 (b : MyInt) : Prog Unit := modify fun w => { w with a2108127495 := b }

def setA1522448132 (b : MyInt) : Prog Unit := modify fun w => { w with a1522448132 := b }

def setA1745113960 (b : MyString) : Prog Unit := modify fun w => { w with a1745113960 := b }

/-- `new Branch(input)`; the result is its identity. -/
def newBranch (input : String) : Prog ℕ := do
  let w ← get
  modify fun w => { w with made := w.made ++ [⟨none, [], input⟩] }
  pure w.made.length

def setDependentVariable (br : ℕ) (b : BoolRef) : Prog Unit :=
  modify fun w => { w with made := w.made.modify br fun x =>
    { x with dependentVariable := some (w.keepBool b) } }

/-- `branches.add(br)` on a set of objects compared by identity. -/
def branchesAdd (br : ℕ) : Prog Unit :=
  modify fun w => { w with branches :=
    if br ∈ w.branches then w.branches else w.branches ++ [br] }

/-- `reset()`. The scratch registers and the set `branches` are left as they are. -/
def reset (w : World) : World :=
  { w with
    a422009172 := .new2 (-68) "a422009172"
    cf := .new2 true "cf"
    a2108127495 := .new2 (-44) "a2108127495"
    a1522448132 := .new2 173 "a1522448132"
    a1745113960 := .new "h" }

/-- The state variables as the uninstrumented machine sees them. -/
def World.view (w : World) : Vars :=
  ⟨w.a422009172.val, w.a2108127495.val, w.a1522448132.val, w.a1745113960.val⟩

/-- The destination after an operation without a boolean. -/
def MyInt.propagated (op : Op) (a b c : MyInt) : MyInt :=
  { a with val := op.eval b.val c.val, flow := a.flow || (b.flow || c.flow) }

/-- The destination after an operation whose boolean goes to its flag. -/
def MyInt.flagged (op : Op) (bo : Bool) (a b c : MyInt) : MyInt :=
  { a with val := op.eval b.val c.val, flow := bo }

/-- The destination after an operation that leaves its flag. -/
def MyInt.computed (op : Op) (a b c : MyInt) : MyInt :=
  { a with val := op.eval b.val c.val }

/-- A register written by an operation that is entered into the record. -/
def World.store (w : World) (op : Op) (a : ℕ) (b c : IntRef)
    (r : MyInt → MyInt → MyInt → MyInt) : World :=
  let x := r (w.var a) (w.int b) (w.int c)
  { w.setVar a x with steps := w.steps ++ [.arith op (w.int b) (w.int c) x] }

namespace I
variable {w : World} {op : Op} {a : ℕ} {b c : IntRef}

theorem exec_compute (h : ¬ Throws op (w.int c).val) : exec (compute op a b c) w =
    (.ok (), w.setVar a ((w.var a).computed op (w.int b) (w.int c))) := by
  unfold compute
  rw [exec_bind_ok (exec_ifM_of_false (by rw [exec_test, decide_eq_false h])), exec_modify]
  rfl

theorem exec_arith {flags : Prog Unit} {x : MyInt} (h : ¬ Throws op (w.int c).val)
    (hf : exec flags (w.setVar a ((w.var a).computed op (w.int b) (w.int c))) =
      (.ok (), w.setVar a x)) :
    exec (arith op a b c flags) w = (.ok (), { w.setVar a x with
      steps := w.steps ++ [.arith op (w.int b) (w.int c) x] }) := by
  unfold arith
  rw [exec_bind_ok (exec_get w), exec_bind_ok (exec_compute h), exec_bind_ok hf, exec_modify]
  simp [World.setVar]

/-- A write that keeps the flag of a register keeps the flag of every operand. -/
theorem setVar_int_flow {x : MyInt} (hx : x.flow = (w.var a).flow) (r : IntRef) :
    ((w.setVar a x).int r).flow = (w.int r).flow := by
  cases r with
  | var n =>
    by_cases hn : n = a
    · subst hn
      simp [World.int, World.setVar, hx]
    · simp [World.int, World.setVar, hn]
  | _ => rfl

theorem exec_propagate :
    exec (propagate a b c) (w.setVar a ((w.var a).computed op (w.int b) (w.int c))) =
      (.ok (), w.setVar a ((w.var a).propagated op (w.int b) (w.int c))) := by
  have hx : ((w.var a).computed op (w.int b) (w.int c)).flow = (w.var a).flow := rfl
  unfold propagate
  rw [exec_ifM_test, setVar_int_flow hx, setVar_int_flow hx]
  cases h : (w.int b).flow || (w.int c).flow <;>
    simp [h, World.setFlow, World.setVar, MyInt.propagated, MyInt.computed]

theorem exec_arith_propagate (h : ¬ Throws op (w.int c).val) :
    exec (arith op a b c (propagate a b c)) w =
      (.ok (), w.store op a b c (MyInt.propagated op)) :=
  exec_arith h exec_propagate

theorem exec_arith_assignFlow {bo : Bool} (h : ¬ Throws op (w.int c).val) :
    exec (arith op a b c (assignFlow bo (.var a))) w =
      (.ok (), w.store op a b c (MyInt.flagged op bo)) :=
  exec_arith h (by simp [assignFlow, World.setFlow, World.setVar, MyInt.computed, MyInt.flagged])

theorem exec_arith_assignFlow_int {bo : Bool} {k : Int32} (h : ¬ Throws op k) :
    exec (arith op a b (.int k) (assignFlow bo (.int k))) w =
      (.ok (), w.store op a b (.int k) (MyInt.computed op)) :=
  exec_arith h rfl

@[simp] theorem exec_myAdd :
    exec (myAdd a b c) w = (.ok (), w.store .add a b c (MyInt.propagated .add)) :=
  exec_arith_propagate id

@[simp] theorem exec_myAdd_flagged (bo : Bool) :
    exec (myAdd a b c bo) w = (.ok (), w.store .add a b c (MyInt.flagged .add bo)) :=
  exec_arith_assignFlow id

@[simp] theorem exec_myDel :
    exec (myDel a b c) w = (.ok (), w.store .sub a b c (MyInt.propagated .sub)) :=
  exec_arith_propagate id

/-- The flag of a literal is lost. -/
@[simp] theorem exec_myDel_int (bo : Bool) (k : Int32) : exec (myDel a b (.int k) bo) w =
    (.ok (), w.store .sub a b (.int k) (MyInt.computed .sub)) :=
  exec_arith_assignFlow_int id

@[simp] theorem exec_myMul :
    exec (myMul a b c) w = (.ok (), w.store .mul a b c (MyInt.propagated .mul)) :=
  exec_arith_propagate id

@[simp] theorem exec_myMul_flagged (bo : Bool) :
    exec (myMul a b c bo) w = (.ok (), w.store .mul a b c (MyInt.flagged .mul bo)) :=
  exec_arith_assignFlow id

@[simp] theorem exec_myDiv_int {k : Int32} (h : k ≠ 0) : exec (myDiv a b (.int k)) w =
    (.ok (), w.store .div a b (.int k) (MyInt.propagated .div)) :=
  exec_arith_propagate h

@[simp] theorem exec_myMod_int {k : Int32} (h : k ≠ 0) : exec (myMod a b (.int k)) w =
    (.ok (), w.store .mod a b (.int k) (MyInt.propagated .mod)) :=
  exec_arith_propagate h

@[simp] theorem exec_myAssign (b : IntRef) : exec (myAssign b) w =
    (.ok (copyInt (w.int b)),
      { w with steps := w.steps ++ [.assign (w.int b) (copyInt (w.int b))] }) := rfl

@[simp] theorem exec_myPrint (word : String) :
    exec (myPrint word) w = (.ok (), { w with out := w.out ++ [word] }) := rfl

end I

@[simp] theorem exec_setCf (b : MyBool) (w : World) :
    exec (setCf b) w = (.ok (), { w with cf := b }) := rfl

@[simp] theorem exec_setA422009172 (b : MyInt) (w : World) :
    exec (setA422009172 b) w = (.ok (), { w with a422009172 := b }) := rfl

@[simp] theorem exec_setA2108127495 (b : MyInt) (w : World) :
    exec (setA2108127495 b) w = (.ok (), { w with a2108127495 := b }) := rfl

@[simp] theorem exec_setA1522448132 (b : MyInt) (w : World) :
    exec (setA1522448132 b) w = (.ok (), { w with a1522448132 := b }) := rfl

@[simp] theorem exec_setA1745113960 (b : MyString) (w : World) :
    exec (setA1745113960 b) w = (.ok (), { w with a1745113960 := b }) := rfl

namespace World
variable {w : World} {op : Op} {a : ℕ} {b c : IntRef} {r : MyInt → MyInt → MyInt → MyInt}

@[simp] theorem store_var_self : (w.store op a b c r).var a = r (w.var a) (w.int b) (w.int c) := by
  simp [store, setVar]

@[simp] theorem store_var_ne {n : ℕ} (h : n ≠ a) : (w.store op a b c r).var n = w.var n := by
  simp [store, setVar, h]

@[simp] theorem store_a422009172 : (w.store op a b c r).a422009172 = w.a422009172 := rfl

@[simp] theorem store_a2108127495 : (w.store op a b c r).a2108127495 = w.a2108127495 := rfl

@[simp] theorem store_a1522448132 : (w.store op a b c r).a1522448132 = w.a1522448132 := rfl

@[simp] theorem store_a1745113960 : (w.store op a b c r).a1745113960 = w.a1745113960 := rfl

@[simp] theorem store_cf : (w.store op a b c r).cf = w.cf := rfl

@[simp] theorem store_bool : (w.store op a b c r).bool = w.bool := rfl

@[simp] theorem store_made : (w.store op a b c r).made = w.made := rfl

@[simp] theorem store_branches : (w.store op a b c r).branches = w.branches := rfl

@[simp] theorem store_decisions : (w.store op a b c r).decisions = w.decisions := rfl

@[simp] theorem store_out : (w.store op a b c r).out = w.out := rfl

@[simp] theorem store_steps : (w.store op a b c r).steps =
    w.steps ++ [.arith op (w.int b) (w.int c) (r (w.var a) (w.int b) (w.int c))] := rfl

end World

end EcaEngines.Instrumented
