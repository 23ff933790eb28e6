import EcaEngines.Imperative
import EcaEngines.Reactive
import Mathlib.Data.String.Defs

/-!
# The uninstrumented machine

`m183_LTL` of `m183_LTL_CTL.java`. The four variables and the flag `cf` are
fields; Java's `int` is `Int32`, whose operations wrap and whose division and
remainder truncate toward zero. The words that `System.out.println` receives are
kept in `out`. Every assignment is a statement of its own, in source order.
-/
namespace EcaEngines.Original
open Imperative

/-- The exceptions the programs of this repository can raise here. -/
inductive Throwable where
  | illegalArgument (message : String)
  | arithmetic
  | nullPointer
deriving DecidableEq, Repr

def noTransition : Throwable :=
  .illegalArgument "Current state has no transition for this input!"

/-- The four state variables. -/
structure Vars where
  a422009172 : Int32
  a2108127495 : Int32
  a1522448132 : Int32
  a1745113960 : String
deriving DecidableEq, Repr

structure State extends Vars where
  cf : Bool
  out : List String
deriving DecidableEq, Repr

def Vars.start : Vars := ⟨-68, -44, 173, "h"⟩

/-- The field initializers. -/
def State.start : State := ⟨Vars.start, true, []⟩

abbrev Prog := Imp Throwable State

def println (word : String) : Prog Unit := modify fun s => { s with out := s.out ++ [word] }

def calculateOutputm1 (input : String) : Prog Unit :=
  ifM (test fun s => input == "usr2_ai1_VoidReply" && s.cf) do
    modify fun s => { s with cf := false }
    modify fun s => { s with a1745113960 := "h" }
    modify fun s => { s with a2108127495 :=
      (((((s.a2108127495 * s.a1522448132) % 14999) % 72) - 91) - (-1)) * 1 }
    println "ai1_VoidReply"

def calculateOutputm2 (input : String) : Prog Unit := do
  ifM (test fun s => input == "usr4_ni1_ne1" && s.cf) do
    modify fun s => { s with cf := false }
    println "ni1_ne1"
  ifM (test fun s => input == "ai1_ce2" && s.cf) do
    modify fun s => { s with cf := false }
    modify fun s => { s with a1745113960 := "h" }
    modify fun s => { s with a2108127495 := (((s.a2108127495 % 59) - (-98)) - 4) + (-42) }
    println "usr4_ai1_ce2"

def calculateOutputm3 (input : String) : Prog Unit :=
  ifM (test fun s => s.cf && input == "usr4_ai1_VoidReply") do
    modify fun s => { s with cf := false }
    modify fun s => { s with a1522448132 :=
      (((((s.a2108127495 * s.a2108127495) % 50) - 75) * 5) % 50) + (-31) }
    modify fun s => { s with a2108127495 :=
      (((s.a2108127495 * s.a1522448132) - 22476) * 1) + (-3649) }
    println "usr2_ai1_ce4"

def calculateOutputm4 (input : String) : Prog Unit := do
  ifM (test fun s => s.cf && input == "ai1_ce2") do
    modify fun s => { s with cf := false }
    println "ai1_VoidReply"
  ifM (test fun s => s.cf && input == "ai1_ce1") do
    modify fun s => { s with cf := false }
    modify fun s => { s with a1745113960 := "g" }
    modify fun s => { s with a2108127495 :=
      (((s.a2108127495 - (-7243)) - (-1395)) % 59) - (-16) }
    println "usr4_ai1_ce1"
  ifM (test fun s => input == "usr4_ni1_ne1" && s.cf) do
    modify fun s => { s with cf := false }
    modify fun s => { s with a1745113960 := "i" }
    println "usr2_ai1_ce4"

def calculateOutputm5 (input : String) : Prog Unit :=
  ifM (test fun s => input == "usr2_ai1_VoidReply" && s.cf) do
    modify fun s => { s with cf := false }
    modify fun s => { s with a1745113960 := "h" }
    println "none"

def calculateOutputm6 (input : String) : Prog Unit := do
  ifM (test fun s => input == "usr4_ni1_ne1" && s.cf) do
    modify fun s => { s with cf := false }
    modify fun s => { s with a2108127495 := ((s.a2108127495 + 13863) * 2) * 1 }
    modify fun s => { s with a422009172 :=
      ((((((s.a2108127495 * s.a2108127495) % 14999) + (-1380)) % 47) - (-150)) + 23887)
        + (-23885) }
    println "none"
  ifM (test fun s => s.cf && input == "usr4_ai1_VoidReply") do
    modify fun s => { s with cf := false }
    modify fun s => { s with a1745113960 := "e" }
    modify fun s => { s with a2108127495 := ((s.a2108127495 + (-139)) + (-4)) + 5 }
    println "ai1_VoidReply"

def calculateOutputm7 (input : String) : Prog Unit := do
  ifM (test fun s => input == "usr4_ni1_ne1" && s.cf) do
    modify fun s => { s with cf := false }
    modify fun s => { s with a1745113960 := "g" }
    modify fun s => { s with a2108127495 :=
      (((s.a2108127495 - 128) - (-3384)) - 4504) - (-1107) }
    println "none"
  ifM (test fun s => s.cf && input == "usr4_ai1_VoidReply") do
    modify fun s => { s with cf := false }
    modify fun s => { s with a2108127495 :=
      ((((s.a2108127495 - 22339) - (-35662)) * 2) % 72) - 149 }
    println "ai1_VoidReply"

def calculateOutputm8 (input : String) : Prog Unit :=
  ifM (test fun s => input == "usr4_ai1_VoidReply" && s.cf) do
    modify fun s => { s with cf := false }
    modify fun s => { s with a1745113960 := "e" }
    modify fun s => { s with a2108127495 :=
      (((((((s.a2108127495 * s.a422009172) % 14999) / 5) % 72) + (-156)) * 5) % 72) + (-65) }
    println "ni1_ne1__ai1_VoidReply"

def calculateOutput (input : String) : Prog Unit := do
  modify fun s => { s with cf := true }
  ifM (test fun s => s.cf && s.a2108127495 ≤ -164) do
    ifM (test fun s => s.cf && (-83 < s.a1522448132 && 18 ≥ s.a1522448132)) do
      calculateOutputm1 input
  ifM (test fun s => s.cf && (-164 < s.a2108127495 && -19 ≥ s.a2108127495)) do
    ifM (test fun s => s.cf && s.a1745113960 == "e") do
      calculateOutputm2 input
    ifM (test fun s => s.cf && s.a1745113960 == "g") do
      calculateOutputm3 input
    ifM (test fun s => s.cf && s.a1745113960 == "h") do
      calculateOutputm4 input
    ifM (test fun s => s.a1745113960 == "i" && s.cf) do
      calculateOutputm5 input
  ifM (test fun s => (-19 < s.a2108127495 && 100 ≥ s.a2108127495) && s.cf) do
    ifM (test fun s => s.cf && s.a1745113960 == "g") do
      calculateOutputm6 input
    ifM (test fun s => s.cf && s.a1745113960 == "h") do
      calculateOutputm7 input
  ifM (test fun s => s.cf && 100 < s.a2108127495) do
    ifM (test fun s => (103 < s.a422009172 && 198 ≥ s.a422009172) && s.cf) do
      calculateOutputm8 input
  ifM (test fun s => s.cf) do
    throw noTransition

/-- What a caller that catches the exception sees of one call: the words printed
by it, and whether it was rejected. -/
structure Reply where
  words : List String
  rejected : Bool
deriving DecidableEq, Repr

def Reply.of (r : Except Throwable Unit) (out : List String) : Reply := ⟨out, !r.isOk⟩

/-- One call from a fresh output buffer, the exception caught as `main` does. -/
def call (s : State) (input : String) : Reply × State :=
  let r := exec (calculateOutput input) { s with out := [] }
  (.of r.1 r.2.out, r.2)

example : (call State.start "ai1_ce1").1 = ⟨["usr4_ai1_ce1"], false⟩ := by decide
example : (call State.start "usr2_ai1_VoidReply").1 = ⟨[], true⟩ := by decide

end EcaEngines.Original
