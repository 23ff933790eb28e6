import EcaEngines.Instrumented
import EcaEngines.Transitions

/-!
# The instrumented transitions

The bodies of the thirteen `if`s in `calculateOutputm1` to `calculateOutputm8`,
common to the engines `instm183_LTL_CTLDirect`, `instm183_LTL_CTLCond` and
`instm183_LTL_CTLFuzzer`. The only difference in their text is that the first
and the last store a copy made by `I.myAssign` where the second stores the new
variable itself.
-/
namespace EcaEngines.Blocks
open Imperative Instrumented Transitions
open BoundedInt (Op)

/-- How an engine stores a variable it has just made. -/
structure Store where
  bool : MyBool → MyBool
  string : MyString → MyString

/-- `cf = I.myAssign(new MyBool(..))`, and so on. -/
def Store.copied : Store := ⟨I.copyBool, I.copyString⟩

/-- `cf = new MyBool(..)`, and so on. -/
def Store.fresh : Store := ⟨id, id⟩

/-- The body of the `if` of a transition. -/
def block (k : Store) : Transition → Prog Unit
  | .m1VoidReply => do
    setCf (k.bool (.new2 false "cf"))
    setA1745113960 (k.string (.new2 "h" true))
    I.myMul 1 .a2108127495 .a1522448132 true
    I.myMod 2 (.var 1) (.int 14999)
    I.myMod 3 (.var 2) (.int 72)
    I.myDel 4 (.var 3) (.int 91)
    I.myDel 5 (.var 4) (.int (-1))
    I.myMul 6 (.var 5) (.int 1)
    setA2108127495 (← I.myAssign (.var 6))
    I.myPrint "ai1_VoidReply"
  | .m2Ne1 => do
    setCf (k.bool (.new3 false "cf" true))
    I.myPrint "ni1_ne1"
  | .m2Ce2 => do
    setCf (k.bool (.new2 false "cf"))
    setA1745113960 (k.string (.new "h"))
    I.myMod 1 .a2108127495 (.int 59)
    I.myDel 2 (.var 1) (.int (-98))
    I.myDel 3 (.var 2) (.int 4)
    I.myAdd 4 (.var 3) (.int (-42))
    setA2108127495 (← I.myAssign (.var 4))
    I.myPrint "usr4_ai1_ce2"
  | .m3VoidReply => do
    setCf (k.bool (.new2 false "cf"))
    I.myMul 1 .a2108127495 .a2108127495 true
    I.myMod 2 (.var 1) (.int 50)
    I.myDel 3 (.var 2) (.int 75)
    I.myMul 4 (.var 3) (.int 5)
    I.myMod 5 (.var 4) (.int 50)
    I.myAdd 6 (.var 5) (.int (-31))
    setA1522448132 (← I.myAssign (.var 6))
    I.myMul 1 .a2108127495 .a1522448132
    I.myDel 2 (.var 1) (.int 22476)
    I.myMul 3 (.var 2) (.int 1)
    I.myAdd 4 (.var 3) (.int (-3649))
    setA2108127495 (← I.myAssign (.var 4))
    I.myPrint "usr2_ai1_ce4"
  | .m4Ce2 => do
    setCf (k.bool (.new3 false "cf" true))
    I.myPrint "ai1_VoidReply"
  | .m4Ce1 => do
    setCf (k.bool (.new3 false "cf" true))
    setA1745113960 (k.string (.new2 "g" true))
    I.myDel 1 .a2108127495 (.int (-7243)) true
    I.myDel 2 (.var 1) (.int (-1395))
    I.myMod 3 (.var 2) (.int 59)
    I.myDel 4 (.var 3) (.int (-16))
    setA2108127495 (← I.myAssign (.var 4))
    I.myPrint "usr4_ai1_ce1"
  | .m4Ne1 => do
    setCf (k.bool (.new3 false "cf" true))
    setA1745113960 (k.string (.new2 "i" true))
    I.myPrint "usr2_ai1_ce4"
  | .m5VoidReply => do
    setCf (k.bool (.new3 false "cf" true))
    setA1745113960 (k.string (.new2 "h" true))
    I.myPrint "none"
  | .m6Ne1 => do
    setCf (k.bool (.new3 false "cf" true))
    I.myAdd 1 .a2108127495 (.int 13863) true
    I.myMul 2 (.var 1) (.int 2)
    I.myMul 3 (.var 2) (.int 1)
    setA2108127495 (← I.myAssign (.var 3))
    I.myMul 1 .a2108127495 .a2108127495
    I.myMod 2 (.var 1) (.int 14999)
    I.myAdd 3 (.var 2) (.int (-1380))
    I.myMod 4 (.var 3) (.int 47)
    I.myDel 5 (.var 4) (.int (-150))
    I.myAdd 6 (.var 5) (.int 23887)
    I.myAdd 7 (.var 6) (.int (-23885))
    setA422009172 (← I.myAssign (.var 7))
    I.myPrint "none"
  | .m6VoidReply => do
    setCf (k.bool (.new3 false "cf" true))
    setA1745113960 (k.string (.new2 "e" true))
    I.myAdd 1 .a2108127495 (.int (-139))
    I.myAdd 2 (.var 1) (.int (-4))
    I.myAdd 3 (.var 2) (.int 5)
    setA2108127495 (← I.myAssign (.var 3))
    I.myPrint "ai1_VoidReply"
  | .m7Ne1 => do
    setCf (k.bool (.new3 false "cf" true))
    setA1745113960 (k.string (.new2 "g" true))
    I.myDel 1 .a2108127495 (.int 128)
    I.myDel 2 (.var 1) (.int (-3384))
    I.myDel 3 (.var 2) (.int 4504)
    I.myDel 4 (.var 3) (.int (-1107))
    setA2108127495 (← I.myAssign (.var 4))
    I.myPrint "none"
  | .m7VoidReply => do
    setCf (k.bool (.new3 false "cf" true))
    I.myDel 1 .a2108127495 (.int 22339) true
    I.myDel 2 (.var 1) (.int (-35662))
    I.myMul 3 (.var 2) (.int 2)
    I.myMod 4 (.var 3) (.int 72)
    I.myDel 5 (.var 4) (.int 149)
    setA2108127495 (← I.myAssign (.var 5))
    I.myPrint "ai1_VoidReply"
  | .m8VoidReply => do
    setCf (k.bool (.new3 false "cf" true))
    setA1745113960 (k.string (.new2 "e" true))
    I.myMul 1 .a2108127495 .a422009172 true
    I.myMod 2 (.var 1) (.int 14999)
    I.myDiv 3 (.var 2) (.int 5)
    I.myMod 4 (.var 3) (.int 72)
    I.myAdd 5 (.var 4) (.int (-156))
    I.myMul 6 (.var 5) (.int 5)
    I.myMod 7 (.var 6) (.int 72)
    I.myAdd 8 (.var 7) (.int (-65))
    setA2108127495 (← I.myAssign (.var 8))
    I.myPrint "ni1_ne1__ai1_VoidReply"

/-- The two ways to store differ in nothing: a copy of a fresh variable has its
contents. -/
theorem block_copied : block .copied = block .fresh := by
  funext t
  cases t <;> rfl

attribute [local simp] exec_bind Store.copied I.copyInt I.copyBool I.copyString MyInt.new
  MyInt.new3 MyBool.new2 MyBool.new3 MyString.new MyString.new2 World.int World.view
  MyInt.propagated MyInt.flagged MyInt.computed Op.eval Transition.fire Transition.word

theorem block_returns (t : Transition) (w : World) : (exec (block .copied t) w).1 = .ok () := by
  cases t <;> simp [block]

/-- A transition that has fired leaves `cf` false. -/
theorem block_cf (t : Transition) (w : World) : (exec (block .copied t) w).2.cf.val = false := by
  cases t <;> simp [block]

theorem block_out (t : Transition) (w : World) :
    (exec (block .copied t) w).2.out = w.out ++ [t.word] := by
  cases t <;> simp [block]

/-- A block makes no test. -/
theorem block_frame (t : Transition) (w : World) :
    let w' := (exec (block .copied t) w).2
    w'.bool = w.bool ∧ w'.made = w.made ∧ w'.branches = w.branches ∧
      w'.decisions = w.decisions := by
  cases t <;> simp [block]

theorem block_bool (t : Transition) (w : World) : (exec (block .copied t) w).2.bool = w.bool :=
  (block_frame t w).1

theorem block_made (t : Transition) (w : World) : (exec (block .copied t) w).2.made = w.made :=
  (block_frame t w).2.1

theorem block_branches (t : Transition) (w : World) :
    (exec (block .copied t) w).2.branches = w.branches := (block_frame t w).2.2.1

theorem block_decisions (t : Transition) (w : World) :
    (exec (block .copied t) w).2.decisions = w.decisions := (block_frame t w).2.2.2

/-- The chain of register operations computes the expression of the source machine. -/
theorem block_view (t : Transition) (w : World) :
    (exec (block .copied t) w).2.view = t.fire w.view := by
  cases t <;> simp [block]

end EcaEngines.Blocks
