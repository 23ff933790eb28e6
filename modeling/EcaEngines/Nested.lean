import EcaEngines.Transitions

/-!
# The recording engine without its records

What remains of the engine of `Ass1Redo/T1Final` when objects and branch sets are
left out: the variables, `cf`, which of them and of the boolean registers are
tainted, the words printed and the decisions taken. The blocks are nested as the
engine nests them: the region above 100 is tested inside the block of the region
below it, and so is the check for inputs without a transition.
-/
namespace EcaEngines.Nested
open Imperative FirstMatch Dispatch Transitions
open Original (Throwable Vars noTransition)

structure State extends Vars where
  cf : Bool
  cfTainted : Bool
  stringTainted : Bool
  tainted : ℕ → Bool
  out : List String
  decisions : List Bool

abbrev Prog := Imp Throwable State

namespace State

/-- Register `a` becomes tainted if `t` holds, and never stops to be. -/
def flow (a : ℕ) (t : Bool) (s : State) : State :=
  { s with tainted := fun n => s.tainted n || (t && decide (n = a)) }

/-- A conjunction with `cf`. -/
def andCf (a b : ℕ) (s : State) : State := s.flow a (s.tainted b || s.cfTainted)

/-- A conjunction of two registers, and one of the result with `cf`. -/
def andAndCf (s : State) : State := (s.flow 3 (s.tainted 1 || s.tainted 2)).andCf 4 3

def decided (b : Bool) (s : State) : State := { s with decisions := s.decisions ++ [b] }

end State

def decision (f : Vars → Bool → Bool) : Prog Bool := do
  modify fun s => s.decided (f s.toVars s.cf)
  test fun s => f s.toVars s.cf

def equal (b : Vars → String) (word : String) : Prog Bool := do
  modify (State.andCf 2 1)
  decision fun v cf => b v == word && cf

def between (lo hi : Int32) (c : Vars → Int32) : Prog Bool := do
  modify State.andAndCf
  decision fun v cf => (lo < c v && hi ≥ c v) && cf

def atMost (b : Vars → Int32) (c : Int32) : Prog Bool := do
  modify (State.andCf 2 1)
  decision fun v cf => b v ≤ c && cf

def above (b : Int32) (c : Vars → Int32) : Prog Bool := do
  modify (State.andCf 2 1)
  decision fun v cf => b < c v && cf

/-- Whether the new `cf` of a transition is tainted. -/
def taintsCf : Transition → Bool
  | .m1VoidReply | .m2Ce2 | .m3VoidReply => false
  | _ => true

/-- Whether the new string of a transition is tainted, if it makes one. -/
def taintsString : Transition → Option Bool
  | .m2Ce2 => some false
  | .m2Ne1 | .m3VoidReply | .m4Ce2 | .m6Ne1 | .m7VoidReply => none
  | _ => some true

def State.act (t : Transition) (s : State) : State :=
  { s with
    toVars := t.fire s.toVars
    cf := false
    cfTainted := taintsCf t
    stringTainted := (taintsString t).getD s.stringTainted
    out := s.out ++ [t.word] }

def block (t : Transition) : Prog Unit := modify (State.act t)

def word (letter : String) (t : Transition) : Prog Unit :=
  ifM (equal (fun _ => letter) t.letter) (block t)

def calculateOutputm1 (letter : String) : Prog Unit := word letter .m1VoidReply

def calculateOutputm2 (letter : String) : Prog Unit := do
  word letter .m2Ne1
  word letter .m2Ce2

def calculateOutputm3 (letter : String) : Prog Unit := word letter .m3VoidReply

def calculateOutputm4 (letter : String) : Prog Unit := do
  word letter .m4Ce2
  word letter .m4Ce1
  word letter .m4Ne1

def calculateOutputm5 (letter : String) : Prog Unit := word letter .m5VoidReply

def calculateOutputm6 (letter : String) : Prog Unit := do
  word letter .m6Ne1
  word letter .m6VoidReply

def calculateOutputm7 (letter : String) : Prog Unit := do
  word letter .m7Ne1
  word letter .m7VoidReply

def calculateOutputm8 (letter : String) : Prog Unit := word letter .m8VoidReply

def low (letter : String) : Prog Unit :=
  ifM (atMost Vars.a2108127495 (-164)) do
    ifM (between (-83) 18 Vars.a1522448132) do
      calculateOutputm1 letter

def middle (letter : String) : Prog Unit :=
  ifM (between (-164) (-19) Vars.a2108127495) do
    ifM (equal Vars.a1745113960 "e") do
      calculateOutputm2 letter
    ifM (equal Vars.a1745113960 "g") do
      calculateOutputm3 letter
    ifM (equal Vars.a1745113960 "h") do
      calculateOutputm4 letter
    ifM (equal Vars.a1745113960 "i") do
      calculateOutputm5 letter

def check : Prog Unit :=
  ifM (decision fun _ cf => cf) do
    throw noTransition

def upper (letter : String) : Prog Unit :=
  ifM (between (-19) 100 Vars.a2108127495) do
    ifM (equal Vars.a1745113960 "g") do
      calculateOutputm6 letter
    ifM (equal Vars.a1745113960 "h") do
      calculateOutputm7 letter
    ifM (above 100 Vars.a2108127495) do
      ifM (between 103 198 Vars.a422009172) do
        calculateOutputm8 letter
    check

def calculateOutput (letter : String) : Prog Unit := do
  modify fun s => { s with cf := true, cfTainted := false }
  low letter
  middle letter
  upper letter

theorem calculateOutput_start (letter : String) (s : State) :
    exec (calculateOutput letter) s = exec (do
      low letter
      middle letter
      upper letter) { s with cf := true, cfTainted := false } :=
  exec_bind_ok (exec_modify _ s)

inductive Acts : Prog Unit → Prop
  | block (t : Transition) : Acts (block t)
  | throw : Acts (throw noTransition)

/-- Each condition first passes on taint, and then decides. -/
inductive Asks : Prog Bool → Prop
  | cf (f : Vars → Bool → Bool) : Asks (decision f)
  | andCf (f : Vars → Bool → Bool) : Asks (do modify (State.andCf 2 1); decision f)
  | andAndCf (f : Vars → Bool → Bool) : Asks (do modify State.andAndCf; decision f)

abbrev Composed := Imperative.Composed Acts Asks

theorem word_composed (letter : String) (t : Transition) : Composed (word letter t) :=
  .ifM (.andCf _) (.act (.block t))

theorem calculateOutputm2_composed (letter : String) : Composed (calculateOutputm2 letter) :=
  .seq (word_composed _ _) (word_composed _ _)

theorem calculateOutputm4_composed (letter : String) : Composed (calculateOutputm4 letter) :=
  .seq (word_composed _ _) (.seq (word_composed _ _) (word_composed _ _))

theorem calculateOutputm6_composed (letter : String) : Composed (calculateOutputm6 letter) :=
  .seq (word_composed _ _) (word_composed _ _)

theorem calculateOutputm7_composed (letter : String) : Composed (calculateOutputm7 letter) :=
  .seq (word_composed _ _) (word_composed _ _)

/-- A method that is called if the string is `word`. -/
theorem mode_composed {p : Prog Unit} (h : Composed p) (b : Vars → String) (word : String) :
    Composed (ifM (equal b word) p) := .ifM (.andCf _) h

theorem low_composed (letter : String) : Composed (low letter) :=
  .ifM (.andCf _) (.ifM (.andAndCf _) (word_composed _ _))

theorem middle_composed (letter : String) : Composed (middle letter) :=
  .ifM (.andAndCf _) <|
    .seq (mode_composed (calculateOutputm2_composed letter) _ _) <|
    .seq (mode_composed (word_composed _ _) _ _) <|
    .seq (mode_composed (calculateOutputm4_composed letter) _ _)
      (mode_composed (word_composed _ _) _ _)

theorem upper_composed (letter : String) : Composed (upper letter) :=
  .ifM (.andAndCf _) <|
    .seq (mode_composed (calculateOutputm6_composed letter) _ _) <|
    .seq (mode_composed (calculateOutputm7_composed letter) _ _) <|
    .seq (.ifM (.andCf _) (.ifM (.andAndCf _) (word_composed _ _)))
      (.ifM (.cf _) (.act .throw))

/-- If `cf` holds, no transition has changed the variables `v`. -/
def Idle (v : Vars) (s : State) : Prop := s.cf = true → s.toVars = v

theorem Composed.keeps_idle {p : Prog Unit} (h : Composed p) (v : Vars) : Keeps (Idle v) p := by
  refine h.keeps (fun p hp => ?_) fun c hc => ?_
  · cases hp with
    | block t =>
      refine keeps_modify fun s _ hcf => ?_
      cases hcf
    | throw => exact keeps_throw _ _
  · cases hc with
    | cf f => exact fun s hs => hs
    | andCf f => exact fun s hs => hs
    | andAndCf f => exact fun s hs => hs

theorem Composed.raises_noTransition {p : Prog Unit} (h : Composed p) :
    Raises (· = noTransition) p := by
  refine h.raises (fun p hp => ?_) fun c hc => ?_
  · cases hp with
    | block t => exact raises_modify _ _
    | throw => exact fun s e he => (Except.error.inj he).symm
  · cases hc with
    | cf f => exact (raises_modify _ _).bind fun _ => raises_test _ _
    | andCf f =>
      exact (raises_modify _ _).bind fun _ => (raises_modify _ _).bind fun _ => raises_test _ _
    | andAndCf f =>
      exact (raises_modify _ _).bind fun _ => (raises_modify _ _).bind fun _ => raises_test _ _

/-- Nothing but the check throws. -/
theorem calculateOutput_raises (letter : String) :
    Raises (· = noTransition) (calculateOutput letter) :=
  (raises_modify _ _).bind fun _ => (low_composed letter).raises_noTransition.bind fun _ =>
    (middle_composed letter).raises_noTransition.bind fun _ =>
    (upper_composed letter).raises_noTransition

end EcaEngines.Nested
