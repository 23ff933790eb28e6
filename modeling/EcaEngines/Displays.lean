import EcaEngines.Recording

/-!
# Replaying and displaying branches

`Branch.operate` compares a recorded outcome with the operands as they are now.
The display prints the branches of a set and of its two children. What is printed is
a list of lines.
-/
namespace EcaEngines.Displays
open Imperative Recording
open BoundedInt (Op)
open Original (Throwable)
open Instrumented (Throws)

/-- A plain `Exception`, or one of the others. -/
inductive Failure where
  | exception (message : String)
  | thrown (ex : Throwable)
deriving DecidableEq

/-- The field is null if the outcome is an integer. -/
def boolOutcome : Outcome → Except Failure Bool
  | .bool outcome => pure outcome
  | .int _ => throw (.thrown .nullPointer)

def intOutcome : Outcome → Except Failure Int32
  | .int outcome => pure outcome
  | .bool _ => throw (.thrown .nullPointer)

def sameInt (w : World) (op : Op) (l r : Ref) (outcome : Outcome) : Except Failure Bool := do
  if Throws op (w.ints r).val then
    throw (.thrown .arithmetic)
  pure (op.eval (w.ints l).val (w.ints r).val == (← intOutcome outcome))

/-- Objects are equal if they are the same. An outcome always has one of its fields,
so the check for two null fields is left out. -/
def operate (w : World) (br : Option Branch) (operation : Option Operation)
    (lVar rVar : Option Ref) : Except Failure Bool := do
  let some br := br | throw (.exception "method operate br null")
  let some _ := operation | throw (.exception "method operate operation null")
  let some lVar := lVar | throw (.exception "method operate lVar null")
  let some rVar := rVar | throw (.exception "method operate rVar null")
  let some opOutcome := br.outcome | throw (.thrown .nullPointer)
  let some brVar := br.lVar | throw (.thrown .nullPointer)
  if brVar ≠ lVar then
    throw (.exception "method operate br.lvar and lvar not equal")
  match br.operation with
  | none => throw (.thrown .nullPointer)
  | some .equals =>
    pure (((w.strings lVar).val == (w.strings rVar).val) == (← boolOutcome opOutcome))
  | some .lessEqual =>
    pure (decide ((w.ints lVar).val ≤ (w.ints rVar).val) == (← boolOutcome opOutcome))
  | some .greaterEqual =>
    pure (decide ((w.ints lVar).val ≥ (w.ints rVar).val) == (← boolOutcome opOutcome))
  | some .and =>
    pure (((w.bools lVar).val && (w.bools rVar).val) == (← boolOutcome opOutcome))
  | some .less =>
    pure (decide ((w.ints lVar).val < (w.ints rVar).val) == (← boolOutcome opOutcome))
  | some .mult => sameInt w .mul lVar rVar opOutcome
  | some .mod => sameInt w .mod lVar rVar opOutcome
  | some .del => sameInt w .sub lVar rVar opOutcome
  | some .add => sameInt w .add lVar rVar opOutcome
  | some .div => sameInt w .div lVar rVar opOutcome
  | some .boolAssign | some .stringAssign | some .intAssign =>
    throw (.exception "No such operation")

/-- The test `getClass() == MyString.class`. -/
def isString (w : World) (r : Ref) : Bool := decide (w.getClass r = some .myString)

/-- `MyInt.toString`. -/
def displayInt (x : MyInt) : String := "MyInt, name: " ++ x.varName ++ " value: " ++ toString x.val

/-- `MyBool.toString`. -/
def displayBool (x : MyBool) : String :=
  "MyBool, name: " ++ x.varName.getD "null" ++ " value: " ++ toString x.val

/-- `MyString.toString`. -/
def displayString (x : MyString) : String :=
  "MyString, name: " ++ x.varName ++ " value: " ++ x.val

/-- The `toString` of the class of the object. -/
def display (w : World) (r : Ref) : String :=
  match w.getClass r with
  | some .myInt => displayInt (w.ints r)
  | some .myBool => displayBool (w.bools r)
  | some .myString => displayString (w.strings r)
  | none => "null"

/-- The name of the enumeration value. -/
def operationName : Option Operation → String
  | none => "null"
  | some .equals => "equals"
  | some .lessEqual => "lessEqual"
  | some .greaterEqual => "greaterEqual"
  | some .and => "and"
  | some .less => "less"
  | some .mult => "mult"
  | some .mod => "mod"
  | some .boolAssign => "boolAssign"
  | some .stringAssign => "stringAssign"
  | some .intAssign => "intAssign"
  | some .del => "del"
  | some .add => "add"
  | some .div => "div"

def className : Throwable → String
  | .illegalArgument _ => "class java.lang.IllegalArgumentException"
  | .arithmetic => "class java.lang.ArithmeticException"
  | .nullPointer => "class java.lang.NullPointerException"

section
variable (toString : World → Ref → String)

/-- The lines for a branch with operands and an outcome. -/
def branchLines (w : World) (br : Branch) (lVar rVar : Ref) (outcome : Outcome) : List String :=
  let result := match outcome with
    | .int outcome => "  Integer outcome: " ++ ToString.toString outcome
    | .bool outcome => "   boolean outcome: " ++ ToString.toString outcome
  let caught := br.ex.toList.map fun ex => " Caught Exception class: " ++ className ex
  ["   lVar: " ++ toString w lVar, "   rVar: " ++ toString w rVar,
    "   operation: " ++ operationName br.operation, result] ++ caught

def printBranch (br : Branch) : Prog (List String) := do
  let w ← get
  let some lVar := br.lVar | throw .nullPointer
  let some rVar := br.rVar | throw .nullPointer
  let some outcome := br.outcome | throw .nullPointer
  pure (branchLines toString w br lVar rVar outcome)

/-- One branch after the other. -/
def printAll : List ℕ → Prog (List String)
  | [] => pure []
  | k :: ks => do
    let w ← get
    let some br := w.made[k]? | throw .nullPointer
    let lines ← printBranch toString br
    pure (lines ++ (← printAll ks))

/-- Nothing is printed for a set without members. -/
def printBranches (x : ℕ) : Prog (List String) := do
  let w ← get
  printAll toString ((w.sets x).branches.getD [])

/-- The lines for a child of a set. -/
def printSide (unset : String) : SetVar → Prog (List String)
  | none => pure [unset]
  | some x => printBranches toString x

/-- The number never changes: the constructor assigns to it what it was before it was
incremented. -/
def printBranchSet (x : ℕ) : Prog (List String) := do
  let w ← get
  let some branches := (w.sets x).branches | throw .nullPointer
  let own ← printAll toString branches
  let left ← printSide toString "leftSet == null" (w.sets x).leftSet
  let right ← printSide toString "rightSet == null" (w.sets x).rightSet
  pure (["Branch set number: -9223372036854775808", "-----BRANCHES INFO-----"] ++ own ++
    ["-----LEFT BRANCH SET INFO-----"] ++ left ++ ["-----RIGHT BRANCH SET INFO-----"] ++ right)

def displayReachedCodeBranches : SetVar → Prog (List String)
  | none => pure ["displayReachedCodeBranches branchSet null"]
  | some x => printBranchSet toString x

end

end EcaEngines.Displays
