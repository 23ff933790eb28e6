import EcaEngines.Tracking

/-!
# Where the flags fail

`m4Ce1` and `m7VoidReply` are meant to flag what they compute from the input, but
their `I.myDel` puts the flag on a literal. The result then has the flag of
`var1` instead. That flag says nothing about the input as long as no other
transition has set it, and it survives `reset()` once one has.
-/
namespace EcaEngines.Leaks
open Reactive Dispatch Instrumented Transitions Modes Guards Engine TaskOne Taint Tracking
open Original (Vars)

/-- The marks just after a `reset()`. -/
def unmarked (var1 : Bool) : Marks := ⟨⟨false, false, false, false⟩, var1⟩

/-- The flag that `var1` has at the start shows in `a2108127495` only, and there
only until it is flagged anyway. -/
theorem foldl_mark (b : Bool) (ts : List Transition) :
    ts.foldl mark (unmarked b) = { ts.foldl mark (unmarked false) with
      a2108127495 := (b && ts.any writes) || ts.any taints
      var1 := b || ts.any taints } := by
  induction ts using List.reverseRecOn with
  | nil => simp [unmarked]
  | append_singleton ts t ih =>
    rw [List.foldl_append, ih, List.foldl_append]
    cases t <;> simp [mark, writes, taints]

/-- The marks after a `reset()` and a word, from any state with the invariants. -/
theorem marks_after_reset {p : Program} (hp : Implements p.calculateOutput) {m : Mode} {w : World}
    (h : Tracked m w) (word : List MyString) :
    marksOf (after p.step w (.reset :: commands word)) =
      (taken .m4 (commands word)).foldl mark (unmarked (marksOf w).var1) :=
  (word_tracked hp (tracked_reset h) word).2

/-- Some transition flags `var1`. -/
def Tainting (cs : List Command) : Prop := (taken .m4 cs).any taints = true

/-- Some transition assigns to `a2108127495`. -/
def Writing (cs : List Command) : Prop := (taken .m4 cs).any writes = true

instance (cs : List Command) : Decidable (Tainting cs) := inferInstanceAs (Decidable (_ = _))

instance (cs : List Command) : Decidable (Writing cs) := inferInstanceAs (Decidable (_ = _))

theorem tracked_start : Tracked .m4 Direct.start := ⟨sound_start, inv_start⟩

/-- The history shows after `reset()` and a word exactly when it tainted `var1`, and
the word writes `a2108127495` without tainting `var1` itself. -/
theorem reset_forgets_iff (history : List Command) (word : List MyString) :
    flagsOf (after Direct.step Direct.start (history ++ .reset :: commands word)) =
        flagsOf (after Direct.step Direct.start (.reset :: commands word)) ↔
      ¬ (Tainting history ∧ Writing (commands word) ∧ ¬ Tainting (commands word)) := by
  obtain ⟨⟨m, hm⟩, hvar⟩ := history_tracked Direct_implements tracked_start history
  have h₁ := marks_after_reset Direct_implements hm word
  have h₂ := marks_after_reset Direct_implements tracked_start word
  rw [hvar, foldl_mark] at h₁
  rw [foldl_mark] at h₂
  have hstart : (marksOf Direct.start).var1 = false := rfl
  rw [after_append]
  change (marksOf _).toFlags = (marksOf _).toFlags ↔ _
  rw [h₁, h₂, hstart]
  simp only [Tainting, Writing, Flags.mk.injEq, Bool.false_or, Bool.false_and, true_and, and_true]
  cases (taken .m4 history).any taints <;> cases (taken .m4 (commands word)).any taints <;>
    cases (taken .m4 (commands word)).any writes <;> simp

/-- After `ai1_ce1` and `usr4_ni1_ne1` the flag of `a2108127495` is another than after
program start. -/
theorem reset_remembers :
    flagsOf (after Direct.step Direct.start
        (commands [.new2 "ai1_ce1" true, .new2 "usr4_ni1_ne1" true] ++
          .reset :: commands [.new2 "ai1_ce1" true])) ≠
      flagsOf (after Direct.step Direct.start (.reset :: commands [.new2 "ai1_ce1" true])) := by
  decide +kernel

/-- Non-interference of one pair of runs: a variable that is unflagged at the end of
both has one value. -/
structure Agree (w w' : World) : Prop where
  a422009172 : w.a422009172.flow = false → w'.a422009172.flow = false →
    w.a422009172.val = w'.a422009172.val
  a2108127495 : w.a2108127495.flow = false → w'.a2108127495.flow = false →
    w.a2108127495.val = w'.a2108127495.val
  a1522448132 : w.a1522448132.flow = false → w'.a1522448132.flow = false →
    w.a1522448132.val = w'.a1522448132.val
  a1745113960 : w.a1745113960.flow = false → w'.a1745113960.flow = false →
    w.a1745113960.val = w'.a1745113960.val

/-- The other three variables have their start values while they are unflagged. -/
structure Default (v : Vars) (f : Marks) : Prop where
  a422009172 : f.a422009172 = false → v.a422009172 = -68
  a1522448132 : f.a1522448132 = false → v.a1522448132 = 173
  a1745113960 : f.a1745113960 = false → v.a1745113960 = "h"

theorem default_start : Default Vars.start (unmarked false) :=
  ⟨fun _ => rfl, fun _ => rfl, fun _ => rfl⟩

theorem fire_a422009172 {t : Transition} (ht : t ≠ .m6Ne1) (v : Vars) :
    (t.fire v).a422009172 = v.a422009172 := by
  cases v
  cases t with
  | m6Ne1 => exact absurd rfl ht
  | _ => rfl

theorem fire_a1522448132 {t : Transition} (ht : t ≠ .m3VoidReply) (v : Vars) :
    (t.fire v).a1522448132 = v.a1522448132 := by
  cases v
  cases t with
  | m3VoidReply => exact absurd rfl ht
  | _ => rfl

theorem fire_a1745113960 (t : Transition) (v : Vars) :
    (stringFlag t = none → (t.fire v).a1745113960 = v.a1745113960) ∧
      (stringFlag t = some false → (t.fire v).a1745113960 = "h") := by
  cases v
  cases t <;> constructor <;> intro hs <;> first | rfl | exact absurd hs (by decide)

theorem Default.next {v : Vars} {f : Marks} (h : Default v f) (t : Transition) :
    Default (t.fire v) (mark f t) := by
  constructor
  · intro hf
    simp only [mark, Bool.or_eq_false_iff, beq_eq_false_iff_ne] at hf
    rw [fire_a422009172 hf.2]
    exact h.a422009172 hf.1
  · intro hf
    simp only [mark, Bool.or_eq_false_iff, beq_eq_false_iff_ne] at hf
    rw [fire_a1522448132 hf.2]
    exact h.a1522448132 hf.1
  · intro hf
    obtain ⟨hkept, hnew⟩ := fire_a1745113960 t v
    simp only [mark] at hf
    cases hs : stringFlag t with
    | none =>
      rw [hs] at hf
      rw [hkept hs]
      exact h.a1745113960 hf
    | some b =>
      rw [hs] at hf
      obtain rfl : b = false := hf
      exact hnew hs

theorem Default.foldl {v : Vars} {f : Marks} (h : Default v f) (ts : List Transition) :
    Default (ts.foldl (fun v t => t.fire v) v) (ts.foldl mark f) := by
  induction ts generalizing v f with
  | nil => exact h
  | cons t ts ih => exact ih (h.next t)

/-- Where an untainted word has come to: a mode and the number of laps completed, from 7 on reduced
by 6. As long as no transition flags `var1`, the machine goes round the modes `m4`, `m6`, `m2` and
`m7`, and from the seventh lap on the values of `a2108127495` repeat. -/
structure Place where
  mode : Mode
  lap : ℕ
deriving DecidableEq, Repr

namespace Place

/-- The values of `a2108127495` in a mode, lap by lap. -/
def values : Mode → List Int32
  | .m4 | .m5 => [-44, -87, -127, -135, -79, -111, -103]
  | .m6 => [55, 71, 31, 23, 20, 47, 55]
  | .m2 => [-83, -67, -107, -115, -118, -91, -83]
  | .m7 => [28, 44, 4, -4, 52, 20, 28]
  | .m3 => [-113, -97, -137, -145, -89, -121, -113]
  | .m1 | .m8 => []

def value (p : Place) : Int32 := (values p.mode).getD p.lap 0

/-- `m7VoidReply` completes a lap. -/
def next (p : Place) (t : Transition) : Place where
  mode := target t
  lap := if t = .m7VoidReply then (if p.lap = 6 then 1 else p.lap + 1) else p.lap

/-- `m5` does not write `a2108127495`. -/
def stop (p : Place) : Mode := if p.mode = .m5 then .m4 else p.mode

/-- Lap 6 is lap 0 again, except in `m4` and `m5`. -/
def Alike (p q : Place) : Prop :=
  p.stop = q.stop ∧ (p.lap = q.lap ∨ p.stop ≠ .m4 ∧ p.lap % 6 = q.lap % 6)

/-- The one value that two different stops share. -/
def Meets (p q : Place) : Prop := p = ⟨.m6, 4⟩ ∧ q = ⟨.m7, 5⟩

def Coincide (p q : Place) : Prop := p.Alike q ∨ p.Meets q ∨ q.Meets p

instance (p q : Place) : Decidable (p.Alike q) := inferInstanceAs (Decidable (_ ∧ _))

instance (p q : Place) : Decidable (p.Meets q) := inferInstanceAs (Decidable (_ ∧ _))

instance (p q : Place) : Decidable (p.Coincide q) := inferInstanceAs (Decidable (_ ∨ _))

def places : List Place :=
  [.m2, .m3, .m4, .m5, .m6, .m7].flatMap fun m => (List.range 7).map (Place.mk m)

theorem value_eq_iff : ∀ p ∈ places, ∀ q ∈ places, p.value = q.value ↔ p.Coincide q := by
  decide +kernel

end Place

open Place

/-- An untainted transition computes `a2108127495` from itself. -/
theorem fire_a2108127495 {t : Transition} (ht : taints t = false) (v : Vars) :
    (t.fire v).a2108127495 = (t.fire ⟨0, v.a2108127495, 0, ""⟩).a2108127495 := by
  cases v
  cases t with
  | m1VoidReply | m3VoidReply | m6Ne1 | m8VoidReply => cases ht
  | _ => rfl

/-- One step of the cycle. -/
theorem place_next (t : Transition) : ∀ p ∈ places, t.mode = p.mode → taints t = false →
    p.next t ∈ places ∧
      (t.fire ⟨0, p.value, 0, ""⟩).a2108127495 = (p.next t).value := by
  cases t <;> decide +kernel

/-- The value of `a2108127495` follows the place along an untainted word. -/
theorem value_foldl {p : Place} {v : Vars} (hp : p ∈ places) (hv : v.a2108127495 = p.value)
    (word : List MyString) (hword : (taken p.mode (commands word)).any taints = false) :
    (taken p.mode (commands word)).foldl Place.next p ∈ places ∧
      ((taken p.mode (commands word)).foldl (fun v t => t.fire v) v).a2108127495 =
        ((taken p.mode (commands word)).foldl Place.next p).value := by
  induction word generalizing p v with
  | nil => exact ⟨hp, hv⟩
  | cons input word ih =>
    simp only [commands, List.map_cons, taken] at hword ⊢
    cases hf : find input.val p.mode with
    | none =>
      rw [hf] at hword
      exact ih hp hv hword
    | some t =>
      simp only [hf, List.any_cons, Bool.or_eq_false_iff] at hword
      obtain ⟨ht, hrest⟩ := hword
      obtain ⟨hnext, hvalue⟩ := place_next t p hp (find_eq_some_iff.mp hf).1 ht
      refine ih (p := p.next t) hnext ?_ hrest
      rw [fire_a2108127495 ht, hv, hvalue]

/-- The place at the end of a word. -/
def endPlace (word : List MyString) : Place :=
  (taken .m4 (commands word)).foldl Place.next ⟨.m4, 0⟩

/-- A run of the program from its start: `reset()` and the word. -/
def run (word : List MyString) : World := after Cond.step Cond.start (.reset :: commands word)

theorem cond_tracked : Tracked .m4 Cond.start := by
  refine ⟨⟨fun r hr => ?_, fun s hs => absurd hs List.not_mem_nil⟩, inv_start⟩
  cases r <;> cases hr

section
variable (word : List MyString)

theorem run_view : (run word).view =
    (taken .m4 (commands word)).foldl (fun v t => t.fire v) Vars.start :=
  (word_tracked Cond_implements (tracked_reset cond_tracked) word).1

theorem run_marks : marksOf (run word) =
    (taken .m4 (commands word)).foldl mark (unmarked false) :=
  marks_after_reset Cond_implements cond_tracked word

/-- `a2108127495` is flagged when the word taints and in no other case. -/
theorem run_a2108127495_flow :
    (run word).a2108127495.flow = (taken .m4 (commands word)).any taints := by
  have h := congrArg (fun f => f.a2108127495) (run_marks word)
  rw [foldl_mark, Bool.false_and, Bool.false_or] at h
  exact h

theorem run_default : Default (run word).view (marksOf (run word)) := by
  rw [run_view, run_marks]
  exact default_start.foldl _

theorem run_value (h : ¬ Tainting (commands word)) :
    endPlace word ∈ places ∧ (run word).a2108127495.val = (endPlace word).value := by
  have h' := value_foldl (p := ⟨.m4, 0⟩) (v := Vars.start) (by decide) rfl word
    (Bool.eq_false_iff.mpr h)
  refine ⟨h'.1, ?_⟩
  rw [← show (run word).view.a2108127495 = (run word).a2108127495.val from rfl, run_view]
  exact h'.2

end

/-- Only `a2108127495` can disagree. -/
theorem agree_iff_a2108127495 (u v : List MyString) : Agree (run u) (run v) ↔
    (¬ Tainting (commands u) → ¬ Tainting (commands v) →
      (run u).a2108127495.val = (run v).a2108127495.val) := by
  have hu := run_default u
  have hv := run_default v
  have hfu := run_a2108127495_flow u
  have hfv := run_a2108127495_flow v
  constructor
  · intro h htu htv
    exact h.a2108127495 (hfu.trans (Bool.eq_false_iff.mpr htu))
      (hfv.trans (Bool.eq_false_iff.mpr htv))
  · intro h
    refine ⟨fun hx hy => ?_, fun hx hy => ?_, fun hx hy => ?_, fun hx hy => ?_⟩
    · exact (hu.a422009172 hx).trans (hv.a422009172 hy).symm
    · exact h (Bool.eq_false_iff.mp (hfu.symm.trans hx)) (Bool.eq_false_iff.mp (hfv.symm.trans hy))
    · exact (hu.a1522448132 hx).trans (hv.a1522448132 hy).symm
    · exact (hu.a1745113960 hx).trans (hv.a1745113960 hy).symm

/-- Two words agree on what is unflagged exactly when one of them taints, or they
end in places with one value of `a2108127495`. -/
theorem agree_iff (u v : List MyString) : Agree (run u) (run v) ↔
    Tainting (commands u) ∨ Tainting (commands v) ∨ (endPlace u).Coincide (endPlace v) := by
  rw [agree_iff_a2108127495]
  by_cases hu : Tainting (commands u)
  · simp only [hu, not_true_eq_false, false_implies, true_or]
  by_cases hv : Tainting (commands v)
  · simp only [hv, not_true_eq_false, false_implies, implies_true, true_or, or_true]
  obtain ⟨hpu, hvu⟩ := run_value u hu
  obtain ⟨hpv, hvv⟩ := run_value v hv
  simp only [hu, hv, not_false_eq_true, true_implies, false_or]
  rw [hvu, hvv]
  exact value_eq_iff _ hpu _ hpv

/-- `ai1_ce1` moves `a2108127495` from -44 to 55 and flags it in neither run. -/
theorem not_agree :
    [MyString.new2 "ai1_ce1" true].length = [MyString.new2 "ai1_ce2" true].length ∧
      ¬ Agree (run [.new2 "ai1_ce1" true]) (run [.new2 "ai1_ce2" true]) := by
  refine ⟨rfl, fun h => ?_⟩
  have := h.a2108127495 (by decide +kernel) (by decide +kernel)
  revert this
  decide +kernel

end EcaEngines.Leaks
