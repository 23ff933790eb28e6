import EcaEngines.CModes
import EcaEngines.Fuzzer

/-!
# The Java and the C version

The two programs have other variables, other bounds and other arithmetic. What
they share is the Mealy machine: each mode of the engine has a counterpart in the
C program, and words and codes correspond by the alphabet mapping file.
-/
namespace EcaEngines.Versions
open Reactive Dispatch Instrumented Modes Engine Reachable
open Original (Reply)

/-- `m183_LTL_CTL_alphabet_mapping_C_version.txt`. -/
def alphabetMapping : List (String × Int32) := [
  ("ni1_ne1", 65), ("none", 60), ("ai1_VoidReply", 64), ("ai1_ce1", 55), ("ai1_ce2", 58),
  ("-", 54), ("usr4_ai1_VoidReply", 56), ("ni1_ne1__ai1_VoidReply", 66), ("A", 1), ("B", 2),
  ("C", 3), ("usr4_ni1_ne1", 57), ("D", 4), ("E", 5), ("F", 6), ("G", 7), ("H", 8), ("I", 9),
  ("J", 10), ("K", 11), ("L", 12), ("error", 67), ("M", 13), ("N", 14), ("O", 15), ("P", 16),
  ("Q", 17), ("R", 18), ("S", 19), ("T", 20), ("U", 21), ("V", 22), ("W", 23), ("X", 24),
  ("Y", 25), ("Z", 26), ("_", 27), ("a", 28), ("b", 29), ("c", 30), ("d", 31),
  ("usr4_ai1_ce2", 61), ("e", 32), ("usr4_ai1_ce1", 62), ("f", 33), ("g", 34), ("h", 35),
  ("i", 36), ("j", 37), ("k", 38), ("l", 39), ("usr2_ai1_ce4", 63), ("m", 40), ("n", 41),
  ("o", 42), ("p", 43), ("q", 44), ("r", 45), ("s", 46), ("t", 47), ("u", 48), ("v", 49),
  ("w", 50), ("x", 51), ("usr2_ai1_VoidReply", 59), ("y", 52), ("z", 53)]

/-- The code of a word in the mapping file. -/
def codeOf (word : String) : Option Int32 := alphabetMapping.lookup word

/-- The five inputs. -/
inductive Input where
  | ai1_ce1 | usr4_ai1_VoidReply | usr4_ni1_ne1 | ai1_ce2 | usr2_ai1_VoidReply
deriving DecidableEq, Repr

namespace Input

def word : Input → String
  | ai1_ce1 => "ai1_ce1"
  | usr4_ai1_VoidReply => "usr4_ai1_VoidReply"
  | usr4_ni1_ne1 => "usr4_ni1_ne1"
  | ai1_ce2 => "ai1_ce2"
  | usr2_ai1_VoidReply => "usr2_ai1_VoidReply"

/-- The object in the array `inputs`. -/
def object (i : Input) : MyString := .new2 i.word true

/-- The input of the C program. -/
def code : Input → Int32
  | ai1_ce1 => 55
  | usr4_ai1_VoidReply => 56
  | usr4_ni1_ne1 => 57
  | ai1_ce2 => 58
  | usr2_ai1_VoidReply => 59

theorem codeOf_word (i : Input) : codeOf i.word = some i.code := by
  cases i <;> decide

end Input

/-- The mode of the C program that answers to a mode of the engine. -/
def counterpart : Mode → Mode
  | .m1 => .m7
  | .m2 => .m8
  | .m3 => .m4
  | .m4 => .m6
  | .m5 => .m3
  | .m6 => .m2
  | .m7 => .m1
  | .m8 => .m5

/-- Mode by mode and input by input the two machines have the same transitions. -/
theorem find_counterpart (m : Mode) (i : Input) :
    (CModes.find i.code (counterpart m)).map (fun t => (some t.code, t.target)) =
      (next m i.word).map fun r => (codeOf r.1, counterpart r.2) := by
  cases m <;> cases i <;> decide

/-- The engine is in some mode and the C program in its counterpart. -/
def Paired (w : World) (s : CVersion.State) : Prop :=
  ∃ m, Inv m w.view ∧ CModes.Inv (counterpart m) s.toVars

theorem paired_start (w : World) : Paired (reset w) CVersion.State.start :=
  ⟨.m4, inv_start, CModes.inv_start⟩

/-- Both accept and the code is that of the word, or both reject and no variable
changes. -/
inductive Answers (e : Entry World MyString Reply)
    (e' : Entry CVersion.State Int32 CVersion.Reply) : Prop
  | accepted {word : String} {code : Int32} : e.response = ⟨[word], false⟩ →
      e'.response = ⟨[code], [], false⟩ → codeOf word = some code → Answers e e'
  | rejected : e.response = ⟨[], true⟩ → e'.response = ⟨[], [e'.input], false⟩ →
      Unchanged e.before e.after → e'.after.toVars = e'.before.toVars → Answers e e'

/-- One input keeps the pairing. -/
theorem call_paired {w : World} {s : CVersion.State} (h : Paired w s) (i : Input) :
    Answers ⟨w, i.object, (call Fuzzer.CalculateOutput w i.object).1,
        (call Fuzzer.CalculateOutput w i.object).2⟩
      ⟨s, i.code, (CVersion.call s i.code).1, (CVersion.call s i.code).2⟩ ∧
    Paired (call Fuzzer.CalculateOutput w i.object).2 (CVersion.call s i.code).2 := by
  obtain ⟨m, hw, hs⟩ := h
  have hj : Follows w (call Fuzzer.CalculateOutput w i.object) (next m i.word) :=
    call_follows Fuzzer.CalculateOutput_implements hw i.object
  have hc := CModes.call_follows hs i.code
  have hm := find_counterpart m i
  -- the table decides whether the two accept, and both do or neither
  cases hn : next m i.word with
  | none =>
    rw [hn] at hj hm
    have hf : CModes.find i.code (counterpart m) = none := Option.map_eq_none_iff.mp hm
    rw [hf] at hc
    refine ⟨.rejected hj.1 hc.1 hj.2 hc.2, m, ?_, ?_⟩
    · rw [hj.2.view]
      exact hw
    · rw [hc.2]
      exact hs
  | some r =>
    rw [hn] at hj hm
    obtain ⟨t, hf, ht⟩ := Option.map_eq_some_iff.mp hm
    obtain ⟨hcode, htarget⟩ := Prod.mk.inj ht
    rw [hf] at hc
    refine ⟨.accepted hj.1 hc.1 hcode.symm, r.2, hj.2, ?_⟩
    rw [← htarget]
    exact hc.2

/-- The engine and the C program answer every word alike. -/
theorem same_system (w : World) (is : List Input) :
    (∀ i : Input, codeOf i.word = some i.code) ∧
    List.Forall₂ Answers
      (trace (call Fuzzer.CalculateOutput) (reset w) (is.map Input.object))
      (trace CVersion.call CVersion.State.start (is.map Input.code)) := by
  have hinputs : List.Forall₂ (fun o k => ∃ i : Input, o = i.object ∧ k = i.code)
      (is.map Input.object) (is.map Input.code) := by
    rw [List.forall₂_map_left_iff, List.forall₂_map_right_iff, List.forall₂_same]
    exact fun i _ => ⟨i, rfl, rfl⟩
  refine ⟨Input.codeOf_word, (trace_simulation ?_ (paired_start w) hinputs).1⟩
  rintro w s _ _ h ⟨i, rfl, rfl⟩
  exact call_paired h i

/-- No run of either program overflows: the engine's integer operations give the
mathematical results, and the C program's are defined. -/
theorem no_overflow :
    (∀ (w : World) (is : List MyString),
      ∀ e ∈ trace (call Fuzzer.CalculateOutput) (reset w) is, ∀ s ∈ e.after.steps, Exact s) ∧
    ∀ ks : List Int32, ∀ e ∈ trace CVersion.call CVersion.State.start ks,
      e.response.undefined = false := by
  constructor
  · intro w is
    exact trace_exact Fuzzer.CalculateOutput_implements w is
  · intro ks
    exact trace_forall CModes.call_defined CModes.moded_start ks

end EcaEngines.Versions
