import EcaEngines.Dispatch
import EcaEngines.Original

/-!
# The transitions of the machine

Thirteen blocks of the source move the machine. Each stands under a complete
guard (a region of `a2108127495` with a condition on one other variable, which
is the mode) and an input word. This module states them as a table and proves
that one call of the original machine is one lookup: it fires the transition of
the mode and the input, or rejects and changes nothing. All states are covered,
reachable or not.
-/
namespace EcaEngines.Transitions
open Imperative FirstMatch Dispatch Original

/-- The constants that `calculateOutput` compares `a2108127495` with. -/
def cuts : Cuts := ⟨-164, -19, 100⟩

/-- The inner condition, on another variable than the region. -/
def Side : Mode → Vars → Prop
  | .m1, v => -83 < v.a1522448132 ∧ v.a1522448132 ≤ 18
  | .m2, v => v.a1745113960 = "e"
  | .m3, v => v.a1745113960 = "g"
  | .m4, v => v.a1745113960 = "h"
  | .m5, v => v.a1745113960 = "i"
  | .m6, v => v.a1745113960 = "g"
  | .m7, v => v.a1745113960 = "h"
  | .m8, v => 103 < v.a422009172 ∧ v.a422009172 ≤ 198

instance : ∀ (m : Mode) (v : Vars), Decidable (Side m v)
  | .m1, _ | .m8, _ => inferInstanceAs (Decidable (_ ∧ _))
  | .m2, _ | .m3, _ | .m4, _ | .m5, _ | .m6, _ | .m7, _ => inferInstanceAs (Decidable (_ = _))

/-- The complete guard under which the method of a mode is called. -/
def Guard (m : Mode) (v : Vars) : Prop := m.region.Holds cuts v.a2108127495 ∧ Side m v

instance (m : Mode) (v : Vars) : Decidable (Guard m v) := inferInstanceAs (Decidable (_ ∧ _))

/-- The blocks that move the machine, named by method and input word. -/
inductive Transition where
  | m1VoidReply
  | m2Ne1 | m2Ce2
  | m3VoidReply
  | m4Ce2 | m4Ce1 | m4Ne1
  | m5VoidReply
  | m6Ne1 | m6VoidReply
  | m7Ne1 | m7VoidReply
  | m8VoidReply
deriving DecidableEq, Repr

namespace Transition

def mode : Transition → Mode
  | m1VoidReply => .m1
  | m2Ne1 | m2Ce2 => .m2
  | m3VoidReply => .m3
  | m4Ce2 | m4Ce1 | m4Ne1 => .m4
  | m5VoidReply => .m5
  | m6Ne1 | m6VoidReply => .m6
  | m7Ne1 | m7VoidReply => .m7
  | m8VoidReply => .m8

def letter : Transition → String
  | m1VoidReply | m5VoidReply => "usr2_ai1_VoidReply"
  | m2Ne1 | m4Ne1 | m6Ne1 | m7Ne1 => "usr4_ni1_ne1"
  | m2Ce2 | m4Ce2 => "ai1_ce2"
  | m4Ce1 => "ai1_ce1"
  | m3VoidReply | m6VoidReply | m7VoidReply | m8VoidReply => "usr4_ai1_VoidReply"

def word : Transition → String
  | m1VoidReply | m4Ce2 | m6VoidReply | m7VoidReply => "ai1_VoidReply"
  | m2Ne1 => "ni1_ne1"
  | m2Ce2 => "usr4_ai1_ce2"
  | m3VoidReply | m4Ne1 => "usr2_ai1_ce4"
  | m4Ce1 => "usr4_ai1_ce1"
  | m5VoidReply | m6Ne1 | m7Ne1 => "none"
  | m8VoidReply => "ni1_ne1__ai1_VoidReply"

/-- The effect on the four variables. -/
def fire : Transition → Vars → Vars
  | m1VoidReply, v =>
    { v with
      a1745113960 := "h"
      a2108127495 := (((((v.a2108127495 * v.a1522448132) % 14999) % 72) - 91) - (-1)) * 1 }
  | m2Ne1, v => v
  | m2Ce2, v =>
    { v with
      a1745113960 := "h"
      a2108127495 := (((v.a2108127495 % 59) - (-98)) - 4) + (-42) }
  | m3VoidReply, v =>
    let v := { v with
      a1522448132 := (((((v.a2108127495 * v.a2108127495) % 50) - 75) * 5) % 50) + (-31) }
    { v with a2108127495 := (((v.a2108127495 * v.a1522448132) - 22476) * 1) + (-3649) }
  | m4Ce2, v => v
  | m4Ce1, v =>
    { v with
      a1745113960 := "g"
      a2108127495 := (((v.a2108127495 - (-7243)) - (-1395)) % 59) - (-16) }
  | m4Ne1, v => { v with a1745113960 := "i" }
  | m5VoidReply, v => { v with a1745113960 := "h" }
  | m6Ne1, v =>
    let v := { v with a2108127495 := ((v.a2108127495 + 13863) * 2) * 1 }
    { v with
      a422009172 :=
        ((((((v.a2108127495 * v.a2108127495) % 14999) + (-1380)) % 47) - (-150)) + 23887)
          + (-23885) }
  | m6VoidReply, v =>
    { v with
      a1745113960 := "e"
      a2108127495 := ((v.a2108127495 + (-139)) + (-4)) + 5 }
  | m7Ne1, v =>
    { v with
      a1745113960 := "g"
      a2108127495 := (((v.a2108127495 - 128) - (-3384)) - 4504) - (-1107) }
  | m7VoidReply, v =>
    { v with a2108127495 := ((((v.a2108127495 - 22339) - (-35662)) * 2) % 72) - 149 }
  | m8VoidReply, v =>
    { v with
      a1745113960 := "e"
      a2108127495 :=
        (((((((v.a2108127495 * v.a422009172) % 14999) / 5) % 72) + (-156)) * 5) % 72) + (-65) }

end Transition

/-- The transition itself, if the input is its letter. -/
def Transition.on (t : Transition) (i : String) : Option Transition :=
  if i = t.letter then some t else none

/-- The transition of a mode on an input word. -/
def find (i : String) : Mode → Option Transition
  | .m1 => Transition.m1VoidReply.on i
  | .m2 => (Transition.m2Ne1.on i).or (Transition.m2Ce2.on i)
  | .m3 => Transition.m3VoidReply.on i
  | .m4 => (Transition.m4Ce2.on i).or ((Transition.m4Ce1.on i).or (Transition.m4Ne1.on i))
  | .m5 => Transition.m5VoidReply.on i
  | .m6 => (Transition.m6Ne1.on i).or (Transition.m6VoidReply.on i)
  | .m7 => (Transition.m7Ne1.on i).or (Transition.m7VoidReply.on i)
  | .m8 => Transition.m8VoidReply.on i

theorem Transition.on_eq_some_iff {t u : Transition} {i : String} :
    t.on i = some u ↔ u = t ∧ u.letter = i := by
  simp only [Transition.on, Option.ite_none_right_eq_some, Option.some.injEq]
  constructor
  · rintro ⟨rfl, rfl⟩
    exact ⟨rfl, rfl⟩
  · rintro ⟨rfl, rfl⟩
    exact ⟨rfl, rfl⟩

theorem find_eq_some_iff {m : Mode} {i : String} {t : Transition} :
    find i m = some t ↔ t.mode = m ∧ t.letter = i := by
  constructor
  · intro h
    cases m <;> simp only [find, Option.or_eq_some_iff, Transition.on_eq_some_iff] at h <;>
      grind [Transition.mode]
  · rintro ⟨rfl, rfl⟩
    cases t <;> decide

/-- At most one complete guard holds. -/
theorem guard_unique {m n : Mode} {v : Vars} (hm : Guard m v) (hn : Guard n v) : n = m := by
  have hr := (Region.holds_iff (by decide) hm.1).mp hn.1
  have hs := hm.2
  have hs' := hn.2
  cases m <;> cases n <;> simp_all [Mode.region, Side]

def modes : List Mode := [.m1, .m2, .m3, .m4, .m5, .m6, .m7, .m8]

/-- The mode whose complete guard holds, if any. -/
def modeOf (v : Vars) : Option Mode := modes.find? fun m => Guard m v

theorem modeOf_eq_some_iff {v : Vars} {m : Mode} : modeOf v = some m ↔ Guard m v := by
  constructor
  · intro h
    simpa using List.find?_some h
  · intro h
    have hm : m ∈ modes := by cases m <;> decide
    cases ho : modeOf v with
    | none => exact absurd h (by simpa using List.find?_eq_none.mp ho m hm)
    | some n =>
      have hn : Guard n v := by simpa using List.find?_some ho
      rw [guard_unique h hn]

/-- The transition that a state fires on an input word. -/
def fired (v : Vars) (i : String) : Option Transition := (modeOf v).bind (find i)

theorem fired_of_guard {v : Vars} {m : Mode} (h : Guard m v) (i : String) :
    fired v i = find i m := by
  rw [fired, modeOf_eq_some_iff.mpr h, Option.bind_some]

/-- The nested tests of `calculateOutput` make this lookup. -/
theorem search_eq_fired (v : Vars) (i : String) :
    search (fun r => r.Holds cuts v.a2108127495) (fun m => Side m v) (find i) = fired v i := by
  cases hm : modeOf v with
  | some m =>
    have hg := modeOf_eq_some_iff.mp hm
    rw [fired_of_guard hg]
    refine search_of_guard (fun r => Region.holds_iff (by decide) hg.1) fun n hn => ?_
    exact ⟨fun hs => guard_unique hg ⟨hn ▸ hg.1, hs⟩, fun h => h ▸ hg.2⟩
  | none =>
    rw [fired, hm, Option.bind_none]
    refine search_of_none fun m hg => ?_
    rw [modeOf_eq_some_iff.mpr hg] at hm
    cases hm

/-- The phases of one call from the variables `v` and the output `out`. -/
def phases (v : Vars) (out : List String) : Phases State Transition where
  idle s := s = ⟨v, true, out⟩
  acted t s := s = ⟨t.fire v, false, out ++ [t.word]⟩

section
variable {v : Vars} {out : List String}

theorem decides_test (P : Prop) [Decidable P] {f : State → Bool}
    (hidle : f ⟨v, true, out⟩ = true ↔ P) (hacted : ∀ s : State, s.cf = false → f s = false) :
    (phases v out).Decides (test f : Prog Bool) P where
  idle := by
    rintro s rfl
    exact ⟨_, by rw [exec_test, ← Bool.decide_coe (f _), decide_eq_decide.mpr hidle], rfl⟩
  acted := by
    rintro t s rfl
    exact ⟨_, by rw [exec_test, hacted _ rfl], rfl⟩

theorem decides_region (r : Region) {f : State → Bool}
    (hidle : f ⟨v, true, out⟩ = true ↔ r.Holds cuts v.a2108127495)
    (hacted : ∀ s : State, s.cf = false → f s = false) :
    (phases v out).Decides (test f : Prog Bool) (r.Holds cuts v.a2108127495) :=
  decides_test _ hidle hacted

/-- The `if` around the call of a method. -/
theorem takes_row (m : Mode) {f : State → Bool} {p : Prog Unit} {i : String}
    (hp : (phases v out).Takes p (find i m)) (hidle : f ⟨v, true, out⟩ = true ↔ Side m v)
    (hacted : ∀ s : State, s.cf = false → f s = false) :
    (phases v out).Takes (ifM (test f) p) (row (fun m => Side m v) (find i) m) :=
  (decides_test (Side m v) hidle hacted).nest fun _ => hp

theorem decides_word (w : String) (input : String) :
    (phases v out).Decides (test fun s => input == w && s.cf : Prog Bool) (input = w) :=
  decides_test _ (by simp) (by simp_all)

theorem decides_cf_word (w : String) (input : String) :
    (phases v out).Decides (test fun s => s.cf && input == w : Prog Bool) (input = w) :=
  decides_test _ (by simp) (by simp_all)

/-- A block of straight-line code, run while no other has fired. -/
theorem acts {t : Transition} {p : Prog Unit}
    (h : exec p ⟨v, true, out⟩ = (.ok (), ⟨t.fire v, false, out ++ [t.word]⟩)) :
    ∀ s, (phases v out).idle s → Leads p s ((phases v out).acted t) := by
  rintro s rfl
  exact ⟨_, h, rfl⟩

theorem calculateOutputm1_takes (input : String) :
    (phases v out).Takes (calculateOutputm1 input) (find input .m1) :=
  (decides_word _ input).act fun _ => acts rfl

theorem calculateOutputm2_takes (input : String) :
    (phases v out).Takes (calculateOutputm2 input) (find input .m2) :=
  ((decides_word _ input).act fun _ => acts rfl).seq
    ((decides_word _ input).act fun _ => acts rfl)

theorem calculateOutputm3_takes (input : String) :
    (phases v out).Takes (calculateOutputm3 input) (find input .m3) :=
  (decides_cf_word _ input).act fun _ => acts rfl

theorem calculateOutputm4_takes (input : String) :
    (phases v out).Takes (calculateOutputm4 input) (find input .m4) :=
  ((decides_cf_word _ input).act fun _ => acts rfl).seq
    (((decides_cf_word _ input).act fun _ => acts rfl).seq
      ((decides_word _ input).act fun _ => acts rfl))

theorem calculateOutputm5_takes (input : String) :
    (phases v out).Takes (calculateOutputm5 input) (find input .m5) :=
  (decides_word _ input).act fun _ => acts rfl

theorem calculateOutputm6_takes (input : String) :
    (phases v out).Takes (calculateOutputm6 input) (find input .m6) :=
  ((decides_word _ input).act fun _ => acts rfl).seq
    ((decides_cf_word _ input).act fun _ => acts rfl)

theorem calculateOutputm7_takes (input : String) :
    (phases v out).Takes (calculateOutputm7 input) (find input .m7) :=
  ((decides_word _ input).act fun _ => acts rfl).seq
    ((decides_cf_word _ input).act fun _ => acts rfl)

theorem calculateOutputm8_takes (input : String) :
    (phases v out).Takes (calculateOutputm8 input) (find input .m8) :=
  (decides_word _ input).act fun _ => acts rfl

/-- The end of a call that fires nothing. -/
def Rejects (v : Vars) (out : List String) (r : Except Throwable Unit) (s : State) : Prop :=
  r = .error noTransition ∧ s = ⟨v, true, out⟩

theorem calculateOutput_ends (v : Vars) (out : List String) (input : String) :
    ∃ p, calculateOutput input = (modify fun s => { s with cf := true }) >>= (fun _ => p) ∧
      (phases v out).Ends (Rejects v out) p (fired v input) := by
  rw [← search_eq_fired]
  exact ⟨_, rfl, dispatch_ends
    (decides_region .low (by simp [Region.Holds, cuts]) (by simp_all))
    (fun _ => takes_row .m1 (calculateOutputm1_takes input) (by simp [Side]) (by simp_all))
    (decides_region .middle (by simp [Region.Holds, cuts]) (by simp_all))
    (fun _ => takes_row .m2 (calculateOutputm2_takes input) (by simp [Side]) (by simp_all))
    (fun _ => takes_row .m3 (calculateOutputm3_takes input) (by simp [Side]) (by simp_all))
    (fun _ => takes_row .m4 (calculateOutputm4_takes input) (by simp [Side]) (by simp_all))
    (fun _ => takes_row .m5 (calculateOutputm5_takes input) (by simp [Side]) (by simp_all))
    (decides_region .upper (by simp [Region.Holds, cuts]) (by simp_all))
    (fun _ => takes_row .m6 (calculateOutputm6_takes input) (by simp [Side]) (by simp_all))
    (fun _ => takes_row .m7 (calculateOutputm7_takes input) (by simp [Side]) (by simp_all))
    (decides_region .high (by simp [Region.Holds, cuts]) (by simp_all))
    (fun _ => takes_row .m8 (calculateOutputm8_takes input) (by simp [Side]) (by simp_all))
    ((decides_test True (by simp) (by simp_all)).check fun _ hs => ⟨rfl, hs⟩)⟩

end

/-- The effect of what the lookup gives. -/
def react (s : State) : Option Transition → Except Throwable Unit × State
  | some t => (.ok (), ⟨t.fire s.toVars, false, s.out ++ [t.word]⟩)
  | none => (.error noTransition, ⟨s.toVars, true, s.out⟩)

/-- One call is one lookup, in every state. -/
theorem exec_calculateOutput (input : String) (s : State) :
    exec (calculateOutput input) s = react s (fired s.toVars input) := by
  obtain ⟨p, hp, hends⟩ := calculateOutput_ends s.toVars s.out input
  rw [hp, exec_bind_ok (exec_modify _ _)]
  have h := hends.idle _ rfl
  cases hf : fired s.toVars input with
  | none =>
    rw [hf] at h
    exact Prod.ext h.1 h.2
  | some t =>
    rw [hf] at h
    exact Prod.ext h.1 h.2

end EcaEngines.Transitions
