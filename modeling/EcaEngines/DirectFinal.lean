import EcaEngines.Recording
import EcaEngines.Transitions

/-!
# The recording engine

`calculateOutput`, its methods, the two resets and `main` of
`instm183_LTL_CTLDirectFinal` in `Ass1Redo/T1Final`, with what `main` displays. The
calls before an `if` stand in its condition. The check for inputs without a
transition stands inside the block of the region from -19 to 100, and so does the
block of the region above.
-/
namespace EcaEngines.DirectFinal
open Imperative Recording BranchSet Transitions
open Original (noTransition)

/-- The last conjunction of a condition. `cfFirst` says in which order it takes its
operands. -/
def andCf (a b : Arg) (cfFirst : Bool) (set : SetVar) : Prog Unit :=
  if cfFirst then I.myAnd a (.field .cf) b set else I.myAnd a b (.field .cf) set

/-- A string equals a word. -/
def equal (b : Arg) (word : String) (cfFirst : Bool) (input : Arg) (set : SetVar) :
    Prog Bool := do
  I.myEqualsString (.bool 1) b word set
  andCf (.bool 2) (.bool 1) cfFirst set
  I.myIf (.bool 2) input set

/-- A variable lies between two bounds. -/
def between (lo hi : Int32) (c : Arg) (cfFirst : Bool) (input : Arg) (set : SetVar) :
    Prog Bool := do
  I.myLessInt (.bool 1) lo c set
  I.myGreaterEqualInt (.bool 2) hi c set
  I.myAnd (.bool 3) (.bool 1) (.bool 2) set
  andCf (.bool 4) (.bool 3) cfFirst set
  I.myIf (.bool 4) input set

/-- The first condition of `calculateOutput`. -/
def atMost (b : Arg) (c : Int32) (input : Arg) (set : SetVar) : Prog Bool := do
  I.myLessEqualInt (.bool 1) b c set
  andCf (.bool 2) (.bool 1) true set
  I.myIf (.bool 2) input set

/-- The condition for the region above 100. -/
def above (b : Int32) (c : Arg) (input : Arg) (set : SetVar) : Prog Bool := do
  I.myLessInt (.bool 1) b c set
  andCf (.bool 2) (.bool 1) true set
  I.myIf (.bool 2) input set

/-- The body of the `if` of a transition. -/
def block (currentSet : SetVar) : Transition → Prog Unit
  | .m1VoidReply => do
    let successSet ← getLeftSet currentSet
    setField .cf (do I.myAssignBool (.ref (← MyBool.new2 false "cf")))
    setField .a1745113960 (do I.myAssignString (.ref (← MyString.new2 "h" true)))
    I.myMul (.var 1) (.field .a2108127495) (.field .a1522448132) successSet
    I.myModInt (.var 2) (.var 1) 14999 successSet
    I.myModInt (.var 3) (.var 2) 72 successSet
    I.myDelInt (.var 4) (.var 3) 91 successSet
    I.myDelInt (.var 5) (.var 4) (-1) successSet
    I.myMulInt (.var 6) (.var 5) 1 successSet
    setField .a2108127495 (I.myAssignInt (.var 6) "a2108127495" successSet)
    I.myPrint "ai1_VoidReply"
  | .m2Ne1 => do
    let _ ← getLeftSet currentSet
    setField .cf (do I.myAssignBool (.ref (← MyBool.new3 false "cf" true)) currentSet)
    I.myPrint "ni1_ne1"
  | .m2Ce2 => do
    let successSet ← getLeftSet currentSet
    setField .cf (do I.myAssignBool (.ref (← MyBool.new2 false "cf")) successSet)
    setField .a1745113960 (do I.myAssignString (.ref (← MyString.new "h")) successSet)
    I.myModInt (.var 1) (.field .a2108127495) 59 successSet
    I.myDelInt (.var 2) (.var 1) (-98)
    I.myDelInt (.var 3) (.var 2) 4
    I.myAddInt (.var 4) (.var 3) (-42)
    setField .a2108127495 (I.myAssignInt (.var 4) "a2108127495")
    I.myPrint "usr4_ai1_ce2"
  | .m3VoidReply => do
    let currentSet ← getLeftSet currentSet
    setField .cf (do I.myAssignBool (.ref (← MyBool.new2 false "cf")))
    I.myMul (.var 1) (.field .a2108127495) (.field .a2108127495) currentSet
    I.myModInt (.var 2) (.var 1) 50 currentSet
    I.myDelInt (.var 3) (.var 2) 75 currentSet
    I.myMulInt (.var 4) (.var 3) 5 currentSet
    I.myModInt (.var 5) (.var 4) 50 currentSet
    I.myAddInt (.var 6) (.var 5) (-31) currentSet
    setField .a1522448132 (I.myAssignInt (.var 6) "a1522448132" currentSet)
    I.myMul (.var 1) (.field .a2108127495) (.field .a1522448132) currentSet
    I.myDelInt (.var 2) (.var 1) 22476 currentSet
    I.myMulInt (.var 3) (.var 2) 1 currentSet
    I.myAddInt (.var 4) (.var 3) (-3649) currentSet
    setField .a2108127495 (I.myAssignInt (.var 4) "a2108127495" currentSet)
    I.myPrint "usr2_ai1_ce4"
  | .m4Ce2 => do
    let successSet ← getLeftSet currentSet
    setField .cf (do I.myAssignBool (.ref (← MyBool.new3 false "cf" true)) successSet)
    I.myPrint "ai1_VoidReply"
  | .m4Ce1 => do
    let successSet ← getLeftSet currentSet
    setField .cf (do I.myAssignBool (.ref (← MyBool.new3 false "cf" true)) successSet)
    setField .a1745113960 (do I.myAssignString (.ref (← MyString.new2 "g" true)) successSet)
    I.myDelInt (.var 1) (.field .a2108127495) (-7243) successSet
    I.myDelInt (.var 2) (.var 1) (-1395) successSet
    I.myModInt (.var 3) (.var 2) 59 successSet
    I.myDelInt (.var 4) (.var 3) (-16) successSet
    setField .a2108127495 (I.myAssignInt (.var 4) "a2108127495" successSet)
    I.myPrint "usr4_ai1_ce1"
  | .m4Ne1 => do
    let successSet ← getLeftSet currentSet
    setField .cf (do I.myAssignBool (.ref (← MyBool.new3 false "cf" true)) successSet)
    setField .a1745113960 (do I.myAssignString (.ref (← MyString.new2 "i" true)) successSet)
    I.myPrint "usr2_ai1_ce4"
  | .m5VoidReply => do
    let successSet ← getLeftSet currentSet
    setField .cf (do I.myAssignBool (.ref (← MyBool.new3 false "cf" true)) successSet)
    setField .a1745113960 (do I.myAssignString (.ref (← MyString.new2 "h" true)) successSet)
    I.myPrint "none"
  | .m6Ne1 => do
    let successSet ← getLeftSet currentSet
    setField .cf (do I.myAssignBool (.ref (← MyBool.new3 false "cf" true)) successSet)
    I.myAddInt (.var 1) (.field .a2108127495) 13863 successSet
    I.myMulInt (.var 2) (.var 1) 2 successSet
    I.myMulInt (.var 3) (.var 2) 1 successSet
    setField .a2108127495 (I.myAssignInt (.var 3) "a2108127495" successSet)
    I.myMul (.var 1) (.field .a2108127495) (.field .a2108127495) successSet
    I.myModInt (.var 2) (.var 1) 14999 successSet
    I.myAddInt (.var 3) (.var 2) (-1380) successSet
    I.myModInt (.var 4) (.var 3) 47 successSet
    I.myDelInt (.var 5) (.var 4) (-150) successSet
    I.myAddInt (.var 6) (.var 5) 23887 successSet
    I.myAddInt (.var 7) (.var 6) (-23885) successSet
    setField .a422009172 (I.myAssignInt (.var 7) "a422009172" successSet)
    I.myPrint "none"
  | .m6VoidReply => do
    let successSet ← getLeftSet currentSet
    setField .cf (do I.myAssignBool (.ref (← MyBool.new3 false "cf" true)) successSet)
    setField .a1745113960 (do I.myAssignString (.ref (← MyString.new2 "e" true)) successSet)
    I.myAddInt (.var 1) (.field .a2108127495) (-139) successSet
    I.myAddInt (.var 2) (.var 1) (-4) successSet
    I.myAddInt (.var 3) (.var 2) 5 successSet
    setField .a2108127495 (I.myAssignInt (.var 3) "a2108127495" successSet)
    I.myPrint "ai1_VoidReply"
  | .m7Ne1 => do
    let successSet ← getLeftSet currentSet
    setField .cf (do I.myAssignBool (.ref (← MyBool.new3 false "cf" true)) successSet)
    setField .a1745113960 (do I.myAssignString (.ref (← MyString.new2 "g" true)) successSet)
    I.myDelInt (.var 1) (.field .a2108127495) 128 successSet
    I.myDelInt (.var 2) (.var 1) (-3384) successSet
    I.myDelInt (.var 3) (.var 2) 4504 successSet
    I.myDelInt (.var 4) (.var 3) (-1107) successSet
    setField .a2108127495 (I.myAssignInt (.var 4) "a2108127495" successSet)
    I.myPrint "none"
  | .m7VoidReply => do
    let successSet ← getLeftSet currentSet
    setField .cf (do I.myAssignBool (.ref (← MyBool.new3 false "cf" true)) successSet)
    I.myDelInt (.var 1) (.field .a2108127495) 22339 successSet
    I.myDelInt (.var 2) (.var 1) (-35662) successSet
    I.myMulInt (.var 3) (.var 2) 2 successSet
    I.myModInt (.var 4) (.var 3) 72 successSet
    I.myDelInt (.var 5) (.var 4) 149 successSet
    setField .a2108127495 (I.myAssignInt (.var 5) "a2108127495" successSet)
    I.myPrint "ai1_VoidReply"
  | .m8VoidReply => do
    setField .cf (do I.myAssignBool (.ref (← MyBool.new3 false "cf" true)) currentSet)
    setField .a1745113960 (do I.myAssignString (.ref (← MyString.new2 "e" true)) currentSet)
    I.myMul (.var 1) (.field .a2108127495) (.field .a422009172) currentSet
    I.myModInt (.var 2) (.var 1) 14999 currentSet
    I.myDivInt (.var 3) (.var 2) 5 currentSet
    I.myModInt (.var 4) (.var 3) 72 currentSet
    I.myAddInt (.var 5) (.var 4) (-156) currentSet
    I.myMulInt (.var 6) (.var 5) 5 currentSet
    I.myModInt (.var 7) (.var 6) 72 currentSet
    I.myAddInt (.var 8) (.var 7) (-65) currentSet
    setField .a2108127495 (I.myAssignInt (.var 8) "a2108127495")
    I.myPrint "ni1_ne1__ai1_VoidReply"

def calculateOutputm1 (input : Arg) (set : SetVar) : Prog Unit :=
  ifM (equal input "usr2_ai1_VoidReply" false input set) (block set .m1VoidReply)

def calculateOutputm2 (input : Arg) (branchSet : SetVar) : Prog Unit := do
  ifM (equal input "usr4_ni1_ne1" false input branchSet) (block branchSet .m2Ne1)
  let currentSet ← getRightSet branchSet
  ifM (equal input "ai1_ce2" false input currentSet) (block currentSet .m2Ce2)

def calculateOutputm3 (input : Arg) (branchSet : SetVar) : Prog Unit :=
  ifM (equal input "usr4_ai1_VoidReply" true input branchSet) (block branchSet .m3VoidReply)

def calculateOutputm4 (input : Arg) (branchSet : SetVar) : Prog Unit := do
  ifM (equal input "ai1_ce2" true input branchSet) (block branchSet .m4Ce2)
  let currentSet ← getRightSet branchSet
  ifM (equal input "ai1_ce1" true input currentSet) (block currentSet .m4Ce1)
  let currentSet ← getRightSet currentSet
  ifM (equal input "usr4_ni1_ne1" false input currentSet) (block currentSet .m4Ne1)

def calculateOutputm5 (input : Arg) (branchSet : SetVar) : Prog Unit :=
  ifM (equal input "usr2_ai1_VoidReply" false input branchSet) (block branchSet .m5VoidReply)

/-- The set that is passed is not used. -/
def calculateOutputm6 (input : Arg) (_branchSet : SetVar) : Prog Unit := do
  let currentSet ← BranchSet.make
  ifM (equal input "usr4_ni1_ne1" false input currentSet) (block currentSet .m6Ne1)
  let currentSet ← getRightSet currentSet
  ifM (equal input "usr4_ai1_VoidReply" true input currentSet) (block currentSet .m6VoidReply)

def calculateOutputm7 (input : Arg) (branchSet : SetVar) : Prog Unit := do
  ifM (equal input "usr4_ni1_ne1" false input branchSet) (block branchSet .m7Ne1)
  let currentSet ← getRightSet branchSet
  ifM (equal input "usr4_ai1_VoidReply" true input currentSet) (block currentSet .m7VoidReply)

def calculateOutputm8 (input : Arg) (branchSet : SetVar) : Prog Unit :=
  ifM (equal input "usr4_ai1_VoidReply" false input branchSet) (block branchSet .m8VoidReply)

def low (input : Arg) (branchSet : SetVar) : Prog Unit :=
  ifM (atMost (.field .a2108127495) (-164) input branchSet) do
    let s1 ← getLeftSet branchSet
    ifM (between (-83) 18 (.field .a1522448132) true input s1) do
      let s2 ← getLeftSet branchSet
      calculateOutputm1 input s2

def middle (input : Arg) (branchSet currentSet : SetVar) : Prog Unit :=
  ifM (between (-164) (-19) (.field .a2108127495) true input currentSet) do
    let s1 ← getLeftSet currentSet
    ifM (equal (.field .a1745113960) "e" true input s1) do
      calculateOutputm2 input (← getLeftSet s1)
    let failSet ← getRightSet branchSet
    ifM (equal (.field .a1745113960) "g" true input failSet) do
      calculateOutputm3 input (← getLeftSet failSet)
    let failSet ← getRightSet failSet
    ifM (equal (.field .a1745113960) "h" true input failSet) do
      calculateOutputm4 input (← getLeftSet failSet)
    let failSet ← getRightSet failSet
    ifM (equal (.field .a1745113960) "i" false input failSet) do
      calculateOutputm5 input (← getLeftSet failSet)

def check (input : Arg) (failSet : SetVar) : Prog Unit :=
  ifM (I.myIf (.field .cf) input failSet) do
    let ex := noTransition
    let br ← Branch.new fun _ => ⟨none, none, none, none, some ex⟩
    addBranch failSet br
    throw ex

def upper (input : Arg) (currentSet : SetVar) : Prog Unit :=
  ifM (between (-19) 100 (.field .a2108127495) false input currentSet) do
    let successSet ← getRightSet currentSet
    ifM (equal (.field .a1745113960) "g" true input successSet) do
      calculateOutputm6 input (← getLeftSet successSet)
    let failSet ← getRightSet successSet
    ifM (equal (.field .a1745113960) "h" true input failSet) do
      calculateOutputm7 input (← getLeftSet failSet)
    let failSet ← getRightSet failSet
    ifM (above 100 (.field .a2108127495) input failSet) do
      let s1 ← getLeftSet failSet
      ifM (between 103 198 (.field .a422009172) false input s1) do
        calculateOutputm8 input (← getLeftSet s1)
    let failSet ← getRightSet failSet
    check input failSet

def calculateOutput (input : Arg) (branchSet : SetVar) : Prog Unit := do
  setField .cf (MyBool.new2 true "cf")
  low input branchSet
  let currentSet ← getRightSet branchSet
  middle input branchSet currentSet
  let currentSet ← getRightSet currentSet
  upper input currentSet

/-- The five fields get new objects. -/
def resetFields : Prog Unit := do
  setField .a422009172 (MyInt.new (-68) "a422009172")
  setField .cf (MyBool.new2 true "cf")
  setField .a2108127495 (MyInt.new (-44) "a2108127495")
  setField .a1522448132 (MyInt.new 173 "a1522448132")
  setField .a1745113960 (MyString.new "h")

/-- `new MyVar(taintSet)` makes its argument the set of all variables. -/
def reset : Prog Unit := do
  modify fun w => { w with taintSet := some ∅, var := true }
  resetFields

def trainingReset : Prog Unit := do
  ifM (test fun w => w.trainingTaints.isNone) do
    modify fun w => { w with trainingTaints := some ∅ }
    ifM (test fun w => !w.var) do
      modify fun w => { w with taintSet := some ∅, var := true }
  resetFields

/-- The static variables before `main`. -/
def blank : World where
  ints _ := ⟨0, ""⟩
  bools _ := ⟨false, none⟩
  strings _ := ⟨"", 0, ""⟩
  next := 0
  classes
    | .var _ => some .myInt
    | .bool _ => some .myBool
    | .made _ => none
  taintSet := none
  fields _ := .made 0
  var := false
  trainingTaints := none
  sets _ := .new
  nextSet := 0
  made := []
  out := []
  decisions := []
  latest _ := none
  moments := []

def inputs : List String :=
  ["ai1_ce1", "usr4_ai1_VoidReply", "usr4_ni1_ne1", "ai1_ce2", "usr2_ai1_VoidReply"]

/-- `new instm183_LTL_CTLDirectFinal()`: the field `taints` is still null. -/
def construct : Prog Unit := do
  modify fun w => { w with taintSet := none, var := true }
  inputs.forM fun input => discard (MyString.new2 input true)
  setField .a422009172 (do I.myAssignInt (.ref (← MyInt.new (-68) "a422009172")) "a422009172")
  setField .cf (do I.myAssignBool (.ref (← MyBool.new2 true "cf")))
  setField .a2108127495 (do I.myAssignInt (.ref (← MyInt.new (-44) "a2108127495")) "a422009172")
  setField .a1522448132 (do I.myAssignInt (.ref (← MyInt.new 173 "a1522448132")) "a422009172")
  setField .a1745113960 (do I.myAssignString (.ref (← MyString.new "h")))

/-- The inputs that `Fuzzer.fuzz` makes, given the values it picks. -/
def fuzz (vals : List String) : Prog (List Ref) :=
  vals.zipIdx.mapM fun (val, i) => MyString.new4 val ("input number: " ++ toString i) true

/-- The comparisons in `main`: no input equals all five words. -/
def compareAll (input : Arg) (branches : SetVar) : Prog Bool := do
  I.myEqualsString (.bool 1) input "ai1_ce1" branches
  I.myEqualsString (.bool 2) input "usr4_ai1_VoidReply" branches
  I.myEqualsString (.bool 3) input "usr4_ni1_ne1" branches
  I.myEqualsString (.bool 4) input "ai1_ce2" branches
  I.myEqualsString (.bool 5) input "usr2_ai1_VoidReply" branches
  I.myAnd (.bool 6) (.bool 1) (.bool 2) branches
  I.myAnd (.bool 7) (.bool 3) (.bool 4) branches
  I.myAnd (.bool 8) (.bool 6) (.bool 7) branches
  I.myAnd (.bool 9) (.bool 8) (.bool 5) branches
  I.myIf (.bool 9) input branches

/-- `try p catch (IllegalArgumentException e)`. -/
def catching (p : Prog Unit) : Prog Unit :=
  tryCatch p fun
    | .illegalArgument _ => pure ()
    | e => throw e

/-- The two loops of `main` differ in the set that `calculateOutput` gets. -/
inductive Phase where
  | training | measured
deriving DecidableEq, Repr

/-- One input. -/
def process (phase : Phase) (branches : SetVar) (input : Arg) : Prog Unit := do
  ifM (compareAll input branches) do
    let s1 ← getLeftSet branches
    let br ← Branch.new fun _ => ⟨none, none, none, none, some noTransition⟩
    addBranch s1 br
    throw noTransition
  let rightSet ← getRightSet branches
  catching (calculateOutput input (match phase with
    | .training => rightSet
    | .measured => branches))

def newBranches : Prog SetVar := do
  let x ← BranchSet.make
  instantiateMembers (some x)
  pure (some x)

def trainingRun (trainingBranches : SetVar) (vals : List String) : Prog Unit := do
  trainingReset
  let fuzzed_inputs ← fuzz vals
  fuzzed_inputs.forM fun input => process .training trainingBranches (.ref input)

/-- The training phase, given the values of every run. -/
def training (runs : List (List String)) : Prog SetVar := do
  let trainingBranches ← newBranches
  runs.forM (trainingRun trainingBranches)
  pure trainingBranches

/-- The measured run up to the display. -/
def measured (vals : List String) : Prog SetVar := do
  reset
  let fuzzed_inputs ← fuzz vals
  let branches ← newBranches
  fuzzed_inputs.forM fun input => process .measured branches (.ref input)
  pure branches

end EcaEngines.DirectFinal
