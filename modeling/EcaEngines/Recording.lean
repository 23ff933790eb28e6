import EcaEngines.Instrumented

/-!
# The recording runtime

The classes `MyVar`, `MyInt`, `MyBool`, `MyString`, `Outcome`, `Branch`,
`BranchSet` and `I` of `Ass1Redo/T1Final`. Here the identity of an object counts:
`taintSet` holds objects, a `Branch` keeps references to its operands, and a
`BranchSet` is reached from several variables. So objects live in a heap, under
references, and a `BranchSet` variable may be null. An overload of `I` with a
`BranchSet` is the one without, with the set as a further argument, unless said
otherwise.

`out` and `decisions` record what is passed to `I.myPrint` and `I.myIf`. Two more
fields are written and never read by the program: `latest`, the last decision
taken on each set since the record was cleared, and `moments`, the sets as they
were at each `addBranch`.
-/
namespace EcaEngines.Recording
open Imperative
open BoundedInt (Op)
open Original (Throwable Vars)
open Instrumented (Throws)

/-- A variable object: a static register of `I`, or one made at run time. -/
inductive Ref where
  | var (n : ℕ)
  | bool (n : ℕ)
  | made (n : ℕ)
deriving DecidableEq

structure MyInt where
  val : Int32
  varName : String
deriving DecidableEq

/-- `MyBool` declares a `varName` of its own, which may be null. -/
structure MyBool where
  val : Bool
  varName : Option String
deriving DecidableEq

structure MyString where
  val : String
  depth : Int32
  varName : String
deriving DecidableEq

/-- The classes of variables; none of them has a subclass. -/
inductive ObjectClass where
  | myInt | myBool | myString
deriving DecidableEq, Repr

/-- The enumeration `operations`. -/
inductive Operation where
  | equals | lessEqual | greaterEqual | and | less | mult | mod
  | boolAssign | stringAssign | intAssign | del | add | div
deriving DecidableEq, Repr

/-- Each constructor of the class sets one of its two fields. -/
inductive Outcome where
  | int (outcome : Int32)
  | bool (outcome : Bool)
deriving DecidableEq

structure Branch where
  outcome : Option Outcome
  operation : Option Operation
  lVar : Option Ref
  rVar : Option Ref
  ex : Option Throwable
deriving DecidableEq

/-- A `Branch` in `branches` is given by its position among those made. -/
structure BranchSet where
  branches : Option (List ℕ)
  leftSet : Option ℕ
  rightSet : Option ℕ
deriving DecidableEq

/-- `new BranchSet()`: all members are null. -/
def BranchSet.new : BranchSet := ⟨none, none, none⟩

/-- A variable of type `BranchSet`. -/
abbrev SetVar := Option ℕ

/-- The last argument of an overload of `I` with a `BranchSet`, which the one without
does not have. -/
inductive SetArg where
  | absent
  | given (branchSet : SetVar)

instance : Coe SetVar SetArg := ⟨.given⟩

/-- The four state variables and `cf`. -/
inductive Field where
  | a422009172 | a2108127495 | a1522448132 | a1745113960 | cf
deriving DecidableEq

/-- An `addBranch` to `set`, with the sets and the latest decisions at that time. -/
structure Moment where
  branch : ℕ
  set : ℕ
  sets : ℕ → BranchSet
  latest : ℕ → Option Bool

structure World where
  ints : Ref → MyInt
  bools : Ref → MyBool
  strings : Ref → MyString
  /-- The next variable object to be made. -/
  next : ℕ
  /-- The class of every object there is, which its constructor fixes. -/
  classes : Ref → Option ObjectClass
  taintSet : Option (Finset Ref)
  fields : Field → Ref
  /-- Whether `var` refers to an object. -/
  var : Bool
  trainingTaints : Option (Finset Ref)
  sets : ℕ → BranchSet
  /-- The next `BranchSet` to be made. -/
  nextSet : ℕ
  made : List Branch
  out : List String
  decisions : List Bool
  latest : ℕ → Option Bool
  moments : List Moment

abbrev Prog := Imp Throwable World

/-- An argument: a variable that holds an object, or a field that is read. -/
inductive Arg where
  | ref (r : Ref)
  | field (f : Field)
deriving DecidableEq

def Arg.var (n : ℕ) : Arg := .ref (.var n)

def Arg.bool (n : ℕ) : Arg := .ref (.bool n)

namespace World

def eval (w : World) : Arg → Ref
  | .ref r => r
  | .field f => w.fields f

def int (w : World) (a : Arg) : MyInt := w.ints (w.eval a)

def boolean (w : World) (a : Arg) : MyBool := w.bools (w.eval a)

def string (w : World) (a : Arg) : MyString := w.strings (w.eval a)

def setInt (r : Ref) (x : MyInt) (w : World) : World :=
  { w with ints := Function.update w.ints r x }

def setBool (r : Ref) (x : MyBool) (w : World) : World :=
  { w with bools := Function.update w.bools r x }

def setString (r : Ref) (x : MyString) (w : World) : World :=
  { w with strings := Function.update w.strings r x }

def setSet (x : ℕ) (s : BranchSet) (w : World) : World :=
  { w with sets := Function.update w.sets x s }

/-- Membership in `taintSet`, with no member if it is null. -/
def tainted (w : World) (r : Ref) : Bool := r ∈ w.taintSet.getD ∅

/-- `taintSet.add(r)` if the set is not null. -/
def taint (r : Ref) (w : World) : World := { w with taintSet := w.taintSet.map (insert r) }

/-- What `getClass()` returns. -/
def getClass (w : World) (r : Ref) : Option ObjectClass := w.classes r

/-- The reference for a new object of the class, and the set that `initialize()` makes if
there is none. -/
def grown (c : ObjectClass) (w : World) : World :=
  { w with
    next := w.next + 1
    taintSet := some (w.taintSet.getD ∅)
    classes := Function.update w.classes (.made w.next) (some c) }

end World

def MyInt.new (val : Int32) (varName : String := "") : Prog Ref := do
  let w ← get
  set ((w.grown .myInt).setInt (.made w.next) ⟨val, varName⟩)
  pure (.made w.next)

def MyBool.new2 (val : Bool) (varName : String) : Prog Ref := do
  let w ← get
  set ((w.grown .myBool).setBool (.made w.next) ⟨val, some varName⟩)
  pure (.made w.next)

/-- The constructor assigns `this.val` to itself, so the value stays false. -/
def MyBool.new3 (_val : Bool) (varName : Option String) (br : Bool) : Prog Ref := do
  let w ← get
  set ((w.grown .myBool).setBool (.made w.next) ⟨false, varName⟩)
  if br then modify (World.taint (.made w.next))
  pure (.made w.next)

def MyString.new (val : String) : Prog Ref := do
  let w ← get
  set ((w.grown .myString).setString (.made w.next) ⟨val, 0, ""⟩)
  pure (.made w.next)

def MyString.new2 (val : String) (branch : Bool) : Prog Ref := do
  let w ← get
  set ((w.grown .myString).setString (.made w.next) ⟨val, 0, ""⟩)
  if branch then modify (World.taint (.made w.next))
  pure (.made w.next)

def MyString.new4 (val varName : String) (branch : Bool) : Prog Ref := do
  let w ← get
  set ((w.grown .myString).setString (.made w.next) ⟨val, 0, varName⟩)
  if branch then modify (World.taint (.made w.next))
  pure (.made w.next)

/-- `new Branch(..)`; the result is its identity. -/
def Branch.new (br : World → Branch) : Prog ℕ := do
  let w ← get
  set { w with made := w.made ++ [br w] }
  pure w.made.length

namespace BranchSet

/-- The object behind a variable. -/
def deref : SetVar → Prog ℕ
  | none => throw .nullPointer
  | some x => pure x

def make : Prog ℕ := do
  let w ← get
  set { w.setSet w.nextSet .new with nextSet := w.nextSet + 1 }
  pure w.nextSet

/-- A `Branch` is added right after it is made, so it is not in the set yet. -/
def addBranch (branchSet : SetVar) (br : ℕ) : Prog Unit := do
  let x ← deref branchSet
  modify fun w =>
    { w.setSet x { w.sets x with branches := some ((w.sets x).branches.getD [] ++ [br]) } with
      moments := w.moments ++ [⟨br, x, w.sets, w.latest⟩] }

def addLeftSet (branchSet : SetVar) (s : ℕ) : Prog Unit := do
  let x ← deref branchSet
  ifM (test fun w => (w.sets x).leftSet.isNone) do
    let t ← make
    modify fun w => w.setSet x { w.sets x with leftSet := some t }
  modify fun w => w.setSet x { w.sets x with leftSet := some s }

def addRightSet (branchSet : SetVar) (s : ℕ) : Prog Unit := do
  let x ← deref branchSet
  ifM (test fun w => (w.sets x).rightSet.isNone) do
    let t ← make
    modify fun w => w.setSet x { w.sets x with rightSet := some t }
  modify fun w => w.setSet x { w.sets x with rightSet := some s }

def getLeftSet (branchSet : SetVar) : Prog SetVar := do
  let x ← deref branchSet
  let w ← get
  pure (w.sets x).leftSet

def getRightSet (branchSet : SetVar) : Prog SetVar := do
  let x ← deref branchSet
  let w ← get
  pure (w.sets x).rightSet

/-- Left and right set are new, and so have null members themselves. -/
def instantiateMembers (branchSet : SetVar) : Prog Unit := do
  let x ← deref branchSet
  let l ← make
  modify fun w => w.setSet x { w.sets x with leftSet := some l }
  let r ← make
  modify fun w => w.setSet x { w.sets x with rightSet := some r }
  modify fun w => w.setSet x { w.sets x with branches := some [] }

end BranchSet

namespace I

def record (branchSet : SetVar) (br : World → Branch) : Prog Unit := do
  let br ← Branch.new br
  BranchSet.addBranch branchSet br

/-- `taintSet.contains(r)`. -/
def contains (r : Arg) : Prog Bool := do
  let w ← get
  match w.taintSet with
  | none => throw .nullPointer
  | some t => pure (w.eval r ∈ t)

/-- `taintSet.contains(b.varName)`: a name is no variable. -/
def containsName : Prog Bool := do
  let w ← get
  match w.taintSet with
  | none => throw .nullPointer
  | some _ => pure false

def addTaintedVar (a : Arg) : Prog Unit := modify fun w => w.taint (w.eval a)

/-- `if (p || q) a.addTaintedVar(a)`. -/
def taintIf (a : Arg) (p q : Prog Bool) : Prog Unit :=
  ifM (do
    let b ← p
    if b then pure true else q) (addTaintedVar a)

/-- `a.val = b.val op c.val`. -/
def compute (op : Op) (a b c : Arg) : Prog Unit := do
  ifM (test fun w => Throws op (w.int c).val) do
    throw .arithmetic
  modify fun w => w.setInt (w.eval a)
    { w.int a with val := op.eval (w.int b).val (w.int c).val }

/-- One operation, with what it does to `taintSet` and the record it makes. -/
def arith (op : Op) (operation : Operation) (a b c : Arg) (flags : Prog Unit)
    (branchSet : SetArg) : Prog Unit := do
  compute op a b c
  flags
  match branchSet with
  | .absent => pure ()
  | .given branchSet => record branchSet fun w =>
    ⟨some (.int (w.int a).val), some operation, some (w.eval b), some (w.eval c), none⟩

def propagate (a b c : Arg) : Prog Unit := taintIf a (contains b) (contains c)

def myAdd (a b c : Arg) (branchSet : SetArg := .absent) : Prog Unit :=
  arith .add .add a b c (propagate a b c) branchSet

/-- The overload without a `BranchSet` looks up the name of `b` instead of `b`. -/
def myDel (a b c : Arg) (branchSet : SetArg := .absent) : Prog Unit :=
  arith .sub .del a b c
    (match branchSet with
      | .absent => taintIf a containsName (contains c)
      | .given _ => propagate a b c) branchSet

def myMul (a b c : Arg) (branchSet : SetArg := .absent) : Prog Unit :=
  arith .mul .mult a b c (propagate a b c) branchSet

def myDiv (a b c : Arg) (branchSet : SetArg := .absent) : Prog Unit :=
  arith .div .div a b c (propagate a b c) branchSet

def myMod (a b c : Arg) (branchSet : SetArg := .absent) : Prog Unit :=
  arith .mod .mod a b c (propagate a b c) branchSet

/-- The overloads with a literal make an object of it. -/
def myAddInt (a b : Arg) (c : Int32) (branchSet : SetArg := .absent) : Prog Unit := do
  let c ← MyInt.new c
  myAdd a b (.ref c) branchSet

def myDelInt (a b : Arg) (c : Int32) (branchSet : SetArg := .absent) : Prog Unit := do
  let c ← MyInt.new c
  myDel a b (.ref c) branchSet

def myMulInt (a b : Arg) (c : Int32) (branchSet : SetArg := .absent) : Prog Unit := do
  let c ← MyInt.new c
  myMul a b (.ref c) branchSet

/-- Both overloads go on to the one without a `BranchSet`. -/
def myDivInt (a b : Arg) (c : Int32) (_branchSet : SetArg := .absent) : Prog Unit := do
  let c ← MyInt.new c
  myDiv a b (.ref c)

/-- Both overloads go on to the one without a `BranchSet`. -/
def myModInt (a b : Arg) (c : Int32) (_branchSet : SetArg := .absent) : Prog Unit := do
  let c ← MyInt.new c
  myMod a b (.ref c)

/-- A literal may also be the first operand, or both. -/
def myAddIntVar (a : Arg) (b : Int32) (c : Arg) : Prog Unit := do
  let b ← MyInt.new b
  myAdd a (.ref b) c

def myAddIntInt (a : Arg) (b c : Int32) : Prog Unit := do
  let b ← MyInt.new b
  let c ← MyInt.new c
  myAdd a (.ref b) (.ref c)

def myDelIntVar (a : Arg) (b : Int32) (c : Arg) : Prog Unit := do
  let b ← MyInt.new b
  myDel a (.ref b) c

def myDelIntInt (a : Arg) (b c : Int32) : Prog Unit := do
  let b ← MyInt.new b
  let c ← MyInt.new c
  myDel a (.ref b) (.ref c)

def myMulIntVar (a : Arg) (b : Int32) (c : Arg) : Prog Unit := do
  let b ← MyInt.new b
  myMul a (.ref b) c

def myMulIntInt (a : Arg) (b c : Int32) : Prog Unit := do
  let b ← MyInt.new b
  let c ← MyInt.new c
  myMul a (.ref b) (.ref c)

def myDivIntVar (a : Arg) (b : Int32) (c : Arg) : Prog Unit := do
  let b ← MyInt.new b
  myDiv a (.ref b) c

def myDivIntInt (a : Arg) (b c : Int32) : Prog Unit := do
  let b ← MyInt.new b
  let c ← MyInt.new c
  myDiv a (.ref b) (.ref c)

def myModIntVar (a : Arg) (b : Int32) (c : Arg) : Prog Unit := do
  let b ← MyInt.new b
  myMod a (.ref b) c

def myModIntInt (a : Arg) (b c : Int32) : Prog Unit := do
  let b ← MyInt.new b
  let c ← MyInt.new c
  myMod a (.ref b) (.ref c)

/-- A test writes its destination and records both operands. -/
def decideBool (operation : Operation) (a b c : Arg) (val : World → Bool) (flags : Prog Unit)
    (branchSet : SetArg) : Prog Unit := do
  modify fun w => w.setBool (w.eval a) { w.boolean a with val := val w }
  flags
  match branchSet with
  | .absent => pure ()
  | .given branchSet => record branchSet fun w =>
    ⟨some (.bool (w.boolean a).val), some operation, some (w.eval b), some (w.eval c), none⟩

def myEquals (a b c : Arg) (branchSet : SetArg := .absent) : Prog Unit :=
  decideBool .equals a b c (fun w => (w.string b).val == (w.string c).val) (pure ()) branchSet

def myLess (a b c : Arg) (branchSet : SetArg := .absent) : Prog Unit :=
  decideBool .less a b c (fun w => (w.int b).val < (w.int c).val) (pure ()) branchSet

def myLessEqual (a b c : Arg) (branchSet : SetArg := .absent) : Prog Unit :=
  decideBool .lessEqual a b c (fun w => (w.int b).val ≤ (w.int c).val) (pure ()) branchSet

def myGreaterEqual (a b c : Arg) (branchSet : SetArg := .absent) : Prog Unit :=
  decideBool .greaterEqual a b c (fun w => (w.int b).val ≥ (w.int c).val) (pure ()) branchSet

def myAnd (a b c : Arg) (branchSet : SetArg := .absent) : Prog Unit :=
  decideBool .and a b c (fun w => (w.boolean b).val && (w.boolean c).val) (propagate a b c)
    branchSet

def myEqualsString (a b : Arg) (c : String) (branchSet : SetArg := .absent) : Prog Unit := do
  let c ← MyString.new c
  myEquals a b (.ref c) branchSet

def myLessInt (a : Arg) (b : Int32) (c : Arg) (branchSet : SetArg := .absent) :
    Prog Unit := do
  let b ← MyInt.new b
  myLess a (.ref b) c branchSet

/-- Both overloads go on to the one without a `BranchSet`. -/
def myLessEqualInt (a b : Arg) (c : Int32) (_branchSet : SetArg := .absent) :
    Prog Unit := do
  let c ← MyInt.new c
  myLessEqual a b (.ref c)

def myGreaterEqualInt (a : Arg) (b : Int32) (c : Arg) (branchSet : SetArg := .absent) :
    Prog Unit := do
  let b ← MyInt.new b
  myGreaterEqual a (.ref b) c branchSet

/-- A record of an assignment has no second operand. -/
def recordAssign (operation : Operation) (a : Ref) (outcome : World → Outcome) :
    SetArg → Prog Unit
  | .absent => pure ()
  | .given branchSet => record branchSet fun w =>
    ⟨some (outcome w), some operation, some a, none, none⟩

def myAssignBool (b : Arg) (branchSet : SetArg := .absent) : Prog Ref := do
  let t ← contains b
  let w ← get
  let a ← MyBool.new3 (w.boolean b).val (w.boolean b).varName t
  recordAssign .boolAssign a (fun w => .bool (w.bools a).val) branchSet
  pure a

def myAssignInt (b : Arg) (name : String) (branchSet : SetArg := .absent) : Prog Ref := do
  let w ← get
  let a ← MyInt.new (w.int b).val name
  ifM (contains b) (addTaintedVar (.ref a))
  recordAssign .intAssign a (fun w => .int (w.ints a).val) branchSet
  pure a

/-- The record says false, whatever the string. -/
def myAssignString (b : Arg) (branchSet : SetArg := .absent) : Prog Ref := do
  let t ← contains b
  let w ← get
  let a ← MyString.new2 (w.string b).val t
  recordAssign .stringAssign a (fun _ => .bool false) branchSet
  pure a

def myPrint (a : String) : Prog Unit := do
  let a ← MyString.new a
  modify fun w => { w with out := w.out ++ [(w.strings a).val] }

/-- The set gets new children, and `input` is one decision deeper if it is true. -/
def myIf (a input : Arg) (branchSet : SetVar) : Prog Bool := do
  modify fun w => { w with decisions := w.decisions ++ [(w.boolean a).val] }
  let l ← BranchSet.make
  BranchSet.addLeftSet branchSet l
  let r ← BranchSet.make
  BranchSet.addRightSet branchSet r
  let x ← BranchSet.deref branchSet
  modify fun w => { w with latest := Function.update w.latest x (some (w.boolean a).val) }
  ifM (test fun w => (w.boolean a).val) do
    modify fun w => w.setString (w.eval input)
      { w.string input with depth := (w.string input).depth + 1 }
  test fun w => (w.boolean a).val

end I

/-- `f = e`. -/
def setField (f : Field) (e : Prog Ref) : Prog Unit := do
  let r ← e
  modify fun w => { w with fields := Function.update w.fields f r }

/-- The state variables as the uninstrumented machine sees them. -/
def World.view (w : World) : Vars :=
  ⟨(w.int (.field .a422009172)).val, (w.int (.field .a2108127495)).val,
    (w.int (.field .a1522448132)).val, (w.string (.field .a1745113960)).val⟩

end EcaEngines.Recording
