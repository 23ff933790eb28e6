import EcaEngines.Modes
import EcaEngines.Taint

/-!
# The flags of a word

Along a run of the first task's programs the four flags follow the transitions
taken, and the one flag of `var1` that `reset()` leaves behind. So the flags after
a word are a function of the word and of that flag. Both programs are the same
here.
-/
namespace EcaEngines.Tracking
open Imperative Reactive Dispatch Instrumented Transitions Modes Blocks Guards Engine
open TaskOne Taint
open Original (Vars)

/-- The flags of the four state variables. -/
structure Flags where
  a422009172 : Bool
  a2108127495 : Bool
  a1522448132 : Bool
  a1745113960 : Bool
deriving DecidableEq, Repr

/-- Those and the flag of `var1`. -/
structure Marks extends Flags where
  var1 : Bool
deriving DecidableEq, Repr

def flagsOf (w : World) : Flags :=
  ⟨w.a422009172.flow, w.a2108127495.flow, w.a1522448132.flow, w.a1745113960.flow⟩

def marksOf (w : World) : Marks := ⟨flagsOf w, (w.var 1).flow⟩

/-- The transitions that flag `var1`. -/
def taints : Transition → Bool
  | .m1VoidReply | .m3VoidReply | .m6Ne1 | .m8VoidReply => true
  | .m2Ne1 | .m2Ce2 | .m4Ce2 | .m4Ce1 | .m4Ne1 | .m5VoidReply | .m6VoidReply | .m7Ne1
  | .m7VoidReply => false

/-- The transitions that assign to `a2108127495`. -/
def writes : Transition → Bool
  | .m2Ne1 | .m4Ce2 | .m4Ne1 | .m5VoidReply => false
  | .m1VoidReply | .m2Ce2 | .m3VoidReply | .m4Ce1 | .m6Ne1 | .m6VoidReply | .m7Ne1
  | .m7VoidReply | .m8VoidReply => true

/-- The flag that a transition gives to `a1745113960`, if it assigns to it. -/
def stringFlag : Transition → Option Bool
  | .m2Ne1 | .m3VoidReply | .m4Ce2 | .m6Ne1 | .m7VoidReply => none
  | .m2Ce2 => some false
  | .m1VoidReply | .m4Ce1 | .m4Ne1 | .m5VoidReply | .m6VoidReply | .m7Ne1 | .m8VoidReply =>
    some true

/-- What a transition does to the flags. A new `a2108127495` is flagged as `var1` is. -/
def mark (f : Marks) (t : Transition) : Marks where
  a422009172 := f.a422009172 || t == .m6Ne1
  a2108127495 := if writes t then f.var1 || taints t else f.a2108127495
  a1522448132 := f.a1522448132 || t == .m3VoidReply
  a1745113960 := (stringFlag t).getD f.a1745113960
  var1 := f.var1 || taints t

section
attribute [local simp] exec_bind Store.copied I.copyInt I.copyBool I.copyString MyInt.new
  MyInt.new3 MyBool.new2 MyBool.new3 MyString.new MyString.new2 World.int
  MyInt.propagated MyInt.flagged MyInt.computed marksOf flagsOf mark taints writes stringFlag

/-- A block that starts with a flag on `var1` flags every register it uses. -/
theorem block_marks_of_flagged {w : World} (h : (w.var 1).flow = true) (t : Transition) :
    marksOf (exec (block .copied t) w).2 = mark (marksOf w) t := by
  cases t <;> simp [block, h]

/-- Without any flag only a tainting block makes one. -/
theorem block_marks_of_clean {w : World} (h : ∀ r : IntRef, (w.int r).flow = false)
    (t : Transition) : marksOf (exec (block .copied t) w).2 = mark (marksOf w) t := by
  have hvar : ∀ n, (w.var n).flow = false := fun n => h (.var n)
  have h₁ : w.a422009172.flow = false := h .a422009172
  have h₂ : w.a2108127495.flow = false := h .a2108127495
  have h₃ : w.a1522448132.flow = false := h .a1522448132
  cases t <;> simp [block, hvar, h₁, h₂, h₃]

end

theorem block_marks {w : World} (h : Sound w) (t : Transition) :
    marksOf (exec (block .copied t) w).2 = mark (marksOf w) t := by
  by_cases h₁ : (w.var 1).flow = true
  · exact block_marks_of_flagged h₁ t
  · refine block_marks_of_clean (fun r => ?_) t
    exact Bool.eq_false_iff.mpr fun hr => h₁ (h.operand r hr)

theorem marksOf_same {w w' : World} (h : Same w w') : marksOf w' = marksOf w := by
  rw [h]
  rfl

/-- A world in a mode, with the invariant of the flags. -/
structure Tracked (m : Mode) (w : World) : Prop where
  sound : Sound w
  inv : Inv m w.view

/-- What the lookup says of variables, flags and mode after a call. -/
def Moves (m : Mode) (w w' : World) : Option Transition → Prop
  | some t => w'.view = t.fire w.view ∧ marksOf w' = mark (marksOf w) t ∧ Tracked (target t) w'
  | none => w'.view = w.view ∧ marksOf w' = marksOf w ∧ Tracked m w'

theorem call_moves {engine : MyString → Prog Unit} (he : Implements engine) {m : Mode} {w : World}
    (h : Tracked m w) (input : MyString) :
    Moves m w (call engine w input).2 (find input.val m) := by
  have hsound := h.sound.call he input
  have hstart : Sound (start (cleared w)) :=
    h.sound.cleared.congr (fun r => by cases r <;> rfl) (List.Subset.refl _)
  rw [← fired_of_guard h.inv.guard]
  rcases call_cases he w input with ⟨hf, -, hs⟩ | ⟨t, w₁, hf, -, h₁, h₂⟩ <;> rw [hf]
  · have hview : (call engine w input).2.view = w.view := hs.view
    have hmarks : marksOf (call engine w input).2 = marksOf (start (cleared w)) := marksOf_same hs
    exact ⟨hview, hmarks, hsound, hview ▸ h.inv⟩
  · obtain ⟨rfl, -⟩ := find_eq_some_iff.mp ((fired_of_guard h.inv.guard input.val).symm.trans hf)
    have hview : (call engine w input).2.view = t.fire w.view := by
      rw [h₂.view, block_view, h₁.view]
      rfl
    have hmarks : marksOf (call engine w input).2 = mark (marksOf w) t := by
      rw [marksOf_same h₂, block_marks (hstart.of_same h₁), marksOf_same h₁]
      rfl
    exact ⟨hview, hmarks, hsound, hview ▸ (safe t h.inv).1⟩

/-- `reset()` keeps one flag, that of `var1`. -/
theorem marksOf_reset (w : World) :
    marksOf (reset (cleared w)) = ⟨⟨false, false, false, false⟩, (marksOf w).var1⟩ := rfl

theorem tracked_reset {m : Mode} {w : World} (h : Tracked m w) :
    Tracked .m4 (reset (cleared w)) := ⟨h.sound.cleared.reset, inv_start⟩

/-- The transitions that a sequence of commands takes from a mode. -/
def taken : Mode → List Command → List Transition
  | _, [] => []
  | _, .reset :: cs => taken .m4 cs
  | m, .calculateOutput input :: cs =>
    match find input.val m with
    | some t => t :: taken (target t) cs
    | none => taken m cs

/-- Calls only, one for each input. -/
def commands (word : List MyString) : List Command := word.map Command.calculateOutput

section
variable {p : Program} (hp : Implements p.calculateOutput)
include hp

/-- After any history `var1` is flagged as soon as a tainting transition was taken. -/
theorem history_tracked {m : Mode} {w : World} (h : Tracked m w) (cs : List Command) :
    (∃ m', Tracked m' (after p.step w cs)) ∧
      (marksOf (after p.step w cs)).var1 = ((marksOf w).var1 || (taken m cs).any taints) := by
  induction cs generalizing m w with
  | nil => exact ⟨⟨m, h⟩, (Bool.or_false _).symm⟩
  | cons c cs ih =>
    cases c with
    | reset =>
      have := ih (tracked_reset h)
      rwa [marksOf_reset] at this
    | calculateOutput input =>
      have hmoves := call_moves hp h input
      cases hf : find input.val m with
      | none =>
        rw [hf] at hmoves
        obtain ⟨-, hmarks, htracked⟩ := hmoves
        have := ih htracked
        rw [hmarks] at this
        simp only [taken, hf]
        exact this
      | some t =>
        rw [hf] at hmoves
        obtain ⟨-, hmarks, htracked⟩ := hmoves
        have := ih htracked
        rw [hmarks] at this
        simp only [taken, hf, List.any_cons, ← Bool.or_assoc]
        exact this

/-- After a word the variables and the flags are those of the transitions taken. -/
theorem word_tracked {m : Mode} {w : World} (h : Tracked m w) (word : List MyString) :
    (after p.step w (commands word)).view =
        (taken m (commands word)).foldl (fun v t => t.fire v) w.view ∧
      marksOf (after p.step w (commands word)) =
        (taken m (commands word)).foldl mark (marksOf w) := by
  induction word generalizing m w with
  | nil => exact ⟨rfl, rfl⟩
  | cons input word ih =>
    have hmoves := call_moves hp h input
    simp only [commands, List.map_cons, after_cons, taken]
    cases hf : find input.val m with
    | none =>
      rw [hf] at hmoves
      obtain ⟨hview, hmarks, htracked⟩ := hmoves
      have := ih htracked
      rw [hview, hmarks] at this
      exact this
    | some t =>
      rw [hf] at hmoves
      obtain ⟨hview, hmarks, htracked⟩ := hmoves
      have := ih htracked
      rw [hview, hmarks] at this
      exact this

end

end EcaEngines.Tracking
