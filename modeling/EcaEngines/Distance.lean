import EcaEngines.Displays
import EcaEngines.Runs
import Mathlib.Data.List.Nodup

/-!
# The distance of two words of the alphabet

The class `Calculate`. Its array of inputs is given by the words in it. `indexOf` compares
a word with the object it looks for, not with the word of that object.
-/
namespace EcaEngines.Distance
open Imperative Recording Displays

variable {w : World} {l r : Ref}

/-- What `equals` of a `String` may be given. -/
inductive Object where
  | string (s : String)
  | var (r : Ref)
deriving DecidableEq

/-- A `String` equals no object of another class. -/
def stringEquals (s : String) : Object → Bool
  | .string t => s == t
  | .var _ => false

namespace Calculate

/-- The words of the array `inputs` in the class. -/
def inputs : List String :=
  ["ai1_ce1", "usr4_ai1_VoidReply", "usr4_ni1_ne1", "ai1_ce2", "usr2_ai1_VoidReply"]

/-- The loop over the array. There are fewer than 2^31 words, so the index stays an `int`. -/
def search (inVar : Ref) : ℤ → List String → ℤ
  | index, [] => index
  | index, str :: inputs =>
    if stringEquals str (.var inVar) then
      if index = -1 then index + 1 else index
    else search inVar (index + 1) inputs

def indexOf (inputs : List String) : Option Ref → Except Failure ℤ
  | none => throw (.exception "Calculate.indexOf: in is null")
  | some inVar => pure (search inVar (-1) inputs)

/-- The method `calc`. -/
def calcDistance (inputs : List String) (lVar input : Option Ref) : Except Failure ℤ := do
  pure ((← indexOf inputs lVar) - (← indexOf inputs input))

/-- `Integer.MIN_VALUE`. -/
def minValue : ℤ := -2147483648

section
variable (isString : Ref → Bool) (inputs : List String)

/-- The loop over the branches; `isString` says whether the class is `MyString`. -/
def distance (w : World) : List ℕ → Except Failure ℤ
  | [] => pure minValue
  | k :: ks => do
    let some br := w.made[k]? | throw (.thrown .nullPointer)
    let some lVar := br.lVar | pure minValue
    let some rVar := br.rVar | pure minValue
    if isString lVar && isString rVar then
      calcDistance inputs lVar rVar
    else
      distance w ks

/-- The trace is only printed. What is printed is left out. -/
def calculateDistanceForInputTrace (w : World) (_inputTrace : Ref) :
    SetVar → Except Failure ℤ
  | none => throw (.thrown .nullPointer)
  | some x => match (w.sets x).branches with
    | none => pure minValue
    | some branches => distance isString inputs w branches

end

end Calculate

open Calculate

variable {inputs : List String}

/-- The index of a word in the alphabet, or -1. -/
def pos (inputs : List String) (word : String) : ℤ :=
  if word ∈ inputs then inputs.idxOf word else -1

theorem pos_nil (word : String) : pos [] word = -1 := rfl

/-- The last position is the one of the last word. -/
theorem pos_eq_last_iff (hn : inputs.Nodup) (hne : inputs ≠ []) (word : String) :
    pos inputs word = inputs.length - 1 ↔ inputs.getLast hne = word := by
  have hpos : 0 < inputs.length := List.length_pos_of_ne_nil hne
  rw [List.getLast_eq_getElem]
  constructor
  · intro h
    unfold pos at h
    split_ifs at h with hmem
    · have hidx : inputs.idxOf word = inputs.length - 1 := by omega
      have hget := List.getElem_idxOf (List.idxOf_lt_length_of_mem hmem)
      simpa only [hidx] using hget
    · omega
  · intro h
    have hidx : inputs.idxOf word = inputs.length - 1 := by
      rw [← h]
      exact hn.idxOf_getElem _ (by omega)
    have hmem : word ∈ inputs := h ▸ List.getElem_mem _
    rw [pos, if_pos hmem, hidx]
    omega

theorem pos_eq_pos_iff (a b : String) :
    pos inputs a = pos inputs b ↔ a = b ∨ (a ∉ inputs ∧ b ∉ inputs) := by
  unfold pos
  by_cases ha : a ∈ inputs <;> by_cases hb : b ∈ inputs
  · rw [if_pos ha, if_pos hb, Int.natCast_inj, List.idxOf_inj ha]
    exact ⟨.inl, fun h => h.resolve_right fun h => h.1 ha⟩
  · rw [if_pos ha, if_neg hb]
    constructor
    · intro h
      omega
    · rintro (rfl | ⟨ha', -⟩)
      · exact absurd ha hb
      · exact absurd ha ha'
  · rw [if_neg ha, if_pos hb]
    constructor
    · intro h
      omega
    · rintro (rfl | ⟨-, hb'⟩)
      · exact absurd hb ha
      · exact absurd hb hb'
  · rw [if_neg ha, if_neg hb]
    exact ⟨fun _ => .inr ⟨ha, hb⟩, fun _ => rfl⟩

/-- No word equals the object, so the search runs to the end. -/
theorem search_eq (inVar : Ref) (index : ℤ) (inputs : List String) :
    search inVar index inputs = index + inputs.length := by
  induction inputs generalizing index with
  | nil => simp [search]
  | cons str inputs ih =>
    rw [search, stringEquals, if_neg Bool.false_ne_true, ih, List.length_cons]
    omega

theorem indexOf_eq (inputs : List String) (s : Ref) :
    indexOf inputs (some s) = .ok (inputs.length - 1) := by
  have hsearch := search_eq s (-1) inputs
  rw [neg_add_eq_sub] at hsearch
  exact congrArg Except.ok hsearch

theorem calcDistance_eq (inputs : List String) (l r : Ref) :
    calcDistance inputs (some l) (some r) = .ok 0 := by
  have h : calcDistance inputs (some l) (some r) =
      .ok ((inputs.length - 1 : ℤ) - (inputs.length - 1)) := by
    unfold calcDistance
    rw [indexOf_eq, indexOf_eq]
    rfl
  rw [h, sub_self]

/-- The operands of a record that are not null. -/
def Operands (w : World) (k : ℕ) (l r : Ref) : Prop :=
  ∃ br, w.made[k]? = some br ∧ br.lVar = some l ∧ br.rVar = some r

theorem operands_iff {k : ℕ} : Operands w k l r ↔
    w.made[k]?.map (fun br => (br.lVar, br.rVar)) = some (some l, some r) := by
  rw [Option.map_eq_some_iff]
  simp only [Prod.mk.injEq, Operands]

/-- The first record of two strings compares `l` with `r`, and no operand before is null. -/
def FirstStrings (isString : Ref → Bool) (w : World) (ks : List ℕ) (l r : Ref) : Prop :=
  ∃ before k after, ks = before ++ k :: after ∧
    (∀ j ∈ before, ∃ l' r', Operands w j l' r' ∧ (isString l' && isString r') = false) ∧
    Operands w k l r ∧ isString l = true ∧ isString r = true

theorem distance_eq {isString : Ref → Bool} {ks : List ℕ} (h : FirstStrings isString w ks l r) :
    distance isString inputs w ks = calcDistance inputs (some l) (some r) := by
  obtain ⟨before, k, after, rfl, hbefore, ⟨br, hbr, hl, hr⟩, hsl, hsr⟩ := h
  induction before with
  | nil =>
    rw [List.nil_append, distance, hbr]
    simp only [hl, hr, hsl, hsr, Bool.and_self, if_true]
  | cons j before ih =>
    obtain ⟨l', r', ⟨br', hbr', hl', hr'⟩, hclass⟩ := hbefore j List.mem_cons_self
    rw [List.cons_append, distance, hbr']
    simp only [hl', hr', hclass, if_false, Bool.false_eq_true]
    exact ih fun i hi => hbefore i (List.mem_cons_of_mem _ hi)

/-- `indexOf` gives the position of the last word only, and the distance is that of the
positions if these are the same. -/
theorem position_iff (isString : Ref → Bool) (w : World) (hn : inputs.Nodup) :
    (∀ s, indexOf inputs (some s) = .ok (pos inputs (w.strings s).val) ↔
      inputs = [] ∨ inputs.getLast? = some (w.strings s).val) ∧
    ∀ x branches l r trace, (w.sets x).branches = some branches →
      FirstStrings isString w branches l r →
      (calculateDistanceForInputTrace isString inputs w trace (some x) =
          .ok (pos inputs (w.strings l).val - pos inputs (w.strings r).val) ↔
        (w.strings l).val = (w.strings r).val ∨
          ((w.strings l).val ∉ inputs ∧ (w.strings r).val ∉ inputs)) := by
  constructor
  · intro s
    rw [indexOf_eq, Except.ok.injEq, eq_comm]
    by_cases hne : inputs = []
    · subst hne
      simp [pos_nil]
    · rw [pos_eq_last_iff hn hne, List.getLast?_eq_some_getLast hne, Option.some.injEq]
      simp [hne]
  · intro x branches l r trace hx hfirst
    have hdist : calculateDistanceForInputTrace isString inputs w trace (some x) = .ok 0 := by
      unfold calculateDistanceForInputTrace
      simp only [hx]
      rw [distance_eq hfirst, calcDistance_eq]
    rw [hdist, Except.ok.injEq, ← pos_eq_pos_iff, eq_comm, sub_eq_zero]

/-- A comparison of numbers and then one of strings are recorded in a new set. -/
def comparing : Prog Unit := do
  DirectFinal.reset
  let inputs ← DirectFinal.fuzz ["ai1_ce1"]
  let branches ← DirectFinal.newBranches
  I.myLessInt (.bool 1) (-164) (.field .a2108127495) branches
  inputs.forM fun input => I.myEqualsString (.bool 2) (.ref input) "usr4_ai1_VoidReply" branches

/-- The two words are at different positions, so the distance is wrong. -/
theorem position_iff_comparing :
    let w := (exec comparing Runs.start).2
    let l := Ref.made 20
    let r := Ref.made 22
    (w.strings l).val = "ai1_ce1" ∧ (w.strings r).val = "usr4_ai1_VoidReply" ∧
    (indexOf Calculate.inputs (some l) = .ok (pos Calculate.inputs (w.strings l).val) ↔
      Calculate.inputs = [] ∨ Calculate.inputs.getLast? = some (w.strings l).val) ∧
    (calculateDistanceForInputTrace (isString w) Calculate.inputs w l (some 0) =
        .ok (pos Calculate.inputs (w.strings l).val - pos Calculate.inputs (w.strings r).val) ↔
      (w.strings l).val = (w.strings r).val ∨
        ((w.strings l).val ∉ Calculate.inputs ∧ (w.strings r).val ∉ Calculate.inputs)) := by
  intro w l r
  have hnumbers : Operands w 0 (.made 21) (.made 17) := operands_iff.mpr (by decide +kernel)
  have hstrings : Operands w 1 l r := operands_iff.mpr (by decide +kernel)
  have hbranches : (w.sets 0).branches = some [0, 1] := by decide +kernel
  have hfirst : FirstStrings (isString w) w [0, 1] l r := by
    refine ⟨[0], 1, [], rfl, fun j hj => ?_, hstrings, by decide +kernel, by decide +kernel⟩
    obtain rfl := List.mem_singleton.mp hj
    exact ⟨.made 21, .made 17, hnumbers, by decide +kernel⟩
  have hboth := position_iff (isString w) w (by decide : Calculate.inputs.Nodup)
  exact ⟨by decide +kernel, by decide +kernel, hboth.1 l,
    hboth.2 0 [0, 1] l r l hbranches hfirst⟩

theorem indexOf_ne_pos :
    let w := Runs.start.setString (.made 0) ⟨"ai1_ce1", 0, ""⟩
    ¬ indexOf Calculate.inputs (some (.made 0)) =
      .ok (pos Calculate.inputs (w.strings (.made 0)).val) := by
  intro w h
  have hval : (w.strings (.made 0)).val = "ai1_ce1" := by
    simp only [w, World.setString, Function.update_self]
  rw [indexOf_eq, hval] at h
  exact absurd (Except.ok.inj h) (by decide)

end EcaEngines.Distance
