import EcaEngines.CVersion

/-!
# The modes of the C version

The same treatment as for the Java engines, on other variables and bounds: the
guard of each mode with a bound on `a355441369` is an inductive invariant. Here
the invariant is needed to run a method at all, because a method may meet
undefined behaviour in states that no run reaches.
-/
namespace EcaEngines.CModes
open Imperative FirstMatch BoundedInt Dispatch CVersion

/-- The constants that `calculate_output` compares `a1504052271` with. -/
def cuts : Cuts := ⟨-80, 132, 158⟩

/-- The inner condition, on another variable than the region. -/
def Side : Mode → Vars → Prop
  | .m1, v => 308 < v.a355441369
  | .m2, v => v.a553774011 = 2
  | .m3, v => v.a553774011 = 4
  | .m4, v => v.a553774011 = 7
  | .m5, v => v.a553774011 = 9
  | .m6, v => 116 < v.a355441369 ∧ v.a355441369 ≤ 308
  | .m7, v => 308 < v.a355441369
  | .m8, v => 19 < v.a355441369 ∧ v.a355441369 ≤ 116

instance : ∀ (m : Mode) (v : Vars), Decidable (Side m v)
  | .m1, _ | .m7, _ => inferInstanceAs (Decidable (_ < _))
  | .m6, _ | .m8, _ => inferInstanceAs (Decidable (_ ∧ _))
  | .m2, _ | .m3, _ | .m4, _ | .m5, _ => inferInstanceAs (Decidable (_ = _))

/-- The blocks that move the machine, named by method and input. -/
inductive Transition where
  | m1On56 | m1On57
  | m2On57 | m2On56
  | m3On59
  | m4On56
  | m5On56
  | m6On57 | m6On58 | m6On55
  | m7On59
  | m8On57 | m8On58
deriving DecidableEq, Repr

namespace Transition

def input : Transition → Int32
  | m6On55 => 55
  | m1On56 | m2On56 | m4On56 | m5On56 => 56
  | m1On57 | m2On57 | m6On57 | m8On57 => 57
  | m6On58 | m8On58 => 58
  | m3On59 | m7On59 => 59

def code : Transition → Int32
  | m1On57 | m2On57 | m3On59 => 60
  | m8On58 => 61
  | m6On55 => 62
  | m4On56 | m6On57 => 63
  | m1On56 | m2On56 | m6On58 | m7On59 => 64
  | m8On57 => 65
  | m5On56 => 66

def target : Transition → Mode
  | m8On58 => .m1
  | m6On55 => .m2
  | m6On57 => .m3
  | m1On57 => .m4
  | m2On57 => .m5
  | m1On56 | m3On59 | m6On58 | m7On59 => .m6
  | m4On56 => .m7
  | m2On56 | m5On56 | m8On57 => .m8

/-- The transition itself, if the input is its input. -/
def on (t : Transition) (i : Int32) : Option Transition := if i = t.input then some t else none

end Transition

/-- The transition of a mode on an input. -/
def find (i : Int32) : Mode → Option Transition
  | .m1 => (Transition.m1On56.on i).or (Transition.m1On57.on i)
  | .m2 => (Transition.m2On57.on i).or (Transition.m2On56.on i)
  | .m3 => Transition.m3On59.on i
  | .m4 => Transition.m4On56.on i
  | .m5 => Transition.m5On56.on i
  | .m6 => (Transition.m6On57.on i).or ((Transition.m6On58.on i).or (Transition.m6On55.on i))
  | .m7 => Transition.m7On59.on i
  | .m8 => (Transition.m8On57.on i).or (Transition.m8On58.on i)

def span : Region → Span
  | .low => ⟨-30000, -80⟩
  | .middle => ⟨-79, 132⟩
  | .upper => ⟨133, 158⟩
  | .high => ⟨159, 30000⟩

/-- The condition of a mode outside the middle region, with a bound. -/
def sideSpan : Mode → Span
  | .m1 | .m7 => ⟨309, 30000⟩
  | .m6 => ⟨117, 308⟩
  | .m8 => ⟨20, 116⟩
  | .m2 | .m3 | .m4 | .m5 => ⟨-2 ^ 31, 2 ^ 31 - 1⟩

/-- The invariant of a mode. -/
structure Inv (m : Mode) (v : Vars) : Prop where
  region : v.a1504052271 ∈ span m.region
  side : Side m v
  bound : v.a355441369 ∈ sideSpan m

theorem holds_of_mem_span {r : Region} {a : Int32} (h : a ∈ span r) : r.Holds cuts a := by
  have h₁ : (-80 : Int32).toInt = -80 := rfl
  have h₂ : (132 : Int32).toInt = 132 := rfl
  have h₃ : (158 : Int32).toInt = 158 := rfl
  cases r <;>
    simp only [span, Region.Holds, cuts, mem_def, Int32.le_iff_toInt_le,
      Int32.lt_iff_toInt_lt, h₁, h₂, h₃] at h ⊢ <;>
    omega

theorem side_of_mem_sideSpan {m : Mode} {v : Vars} (hm : m.region ≠ .middle)
    (h : v.a355441369 ∈ sideSpan m) : Side m v := by
  have h₁ : (308 : Int32).toInt = 308 := rfl
  have h₂ : (116 : Int32).toInt = 116 := rfl
  have h₃ : (19 : Int32).toInt = 19 := rfl
  cases m <;> simp only [Mode.region, ne_eq, not_true_eq_false] at hm <;>
    simp only [sideSpan, Side, mem_def, Int32.le_iff_toInt_le,
      Int32.lt_iff_toInt_lt, h₁, h₂, h₃] at h ⊢ <;>
    omega

/-- Outside the middle region the condition of a mode follows from its bound. -/
theorem inv_of_mem {m : Mode} {v : Vars} (hm : m.region ≠ .middle)
    (ha : v.a1504052271 ∈ span m.region) (hb : v.a355441369 ∈ sideSpan m) : Inv m v :=
  ⟨ha, side_of_mem_sideSpan hm hb, hb⟩

/-- In the middle region nothing is said about `a355441369`. -/
theorem inv_of_middle {m : Mode} {v : Vars} (hm : m.region = .middle)
    (ha : v.a1504052271 ∈ span .middle) (hs : Side m v) : Inv m v := by
  have hb : v.a355441369 ∈ sideSpan m := by
    have h := inRange_toInt v.a355441369
    cases m <;> simp only [Mode.region, reduceCtorEq] at hm <;>
      exact ⟨h.1, Int.le_sub_one_of_lt h.2⟩
  exact ⟨hm ▸ ha, hs, hb⟩

theorem inv_start : Inv .m6 State.start.toVars := inv_of_mem (by decide) (by decide) (by decide)

theorem Inv.holds_iff {m : Mode} {v : Vars} (h : Inv m v) (r : Region) :
    r.Holds cuts v.a1504052271 ↔ r = m.region :=
  Region.holds_iff (by decide) (holds_of_mem_span h.region)

/-- The conditions of the modes of one region exclude each other. -/
theorem Inv.side_iff {m n : Mode} {v : Vars} (h : Inv m v) (hn : n.region = m.region) :
    Side n v ↔ n = m := by
  have hs := h.side
  constructor
  · intro hs'
    cases m <;> cases n <;> simp only [Mode.region, reduceCtorEq] at hn <;> simp_all only [Side] <;>
      first
        | exact absurd hs' (by decide)
        | (simp only [Int32.le_iff_toInt_le, Int32.lt_iff_toInt_lt] at hs hs'; omega)
  · rintro rfl
    exact hs

/-- The whole guard of a mode picks the mode of the invariant. -/
theorem Inv.unique {m n : Mode} {v : Vars} (h : Inv m v)
    (hr : n.region.Holds cuts v.a1504052271) (hs : Side n v) : n = m :=
  (h.side_iff ((h.holds_iff _).mp hr)).mp hs

theorem exec_applyAll {x : Int32} {ops : List (Op × Int32)} {s : State}
    (h : ∀ o ∈ chainOperations x ops, o.Defined) :
    exec (applyAll x ops) s = (.ok (chain x ops), s) := by
  induction ops generalizing x with
  | nil => rfl
  | cons p ops ih =>
    obtain ⟨op, y⟩ := p
    obtain ⟨hd, hops⟩ := List.forall_mem_cons.mp h
    have hd : op.Defined x y := hd
    have happly : exec (apply op x y) s = (.ok (op.eval x y), s) := by
      unfold apply
      rw [exec_bind_ok (exec_ifM_of_false (by rw [exec_test, decide_eq_false (not_not.mpr hd)]))]
      rfl
    exact (exec_bind_ok happly).trans (ih hops)

section
variable {x : State → Int32} {ops : State → List (Op × Int32)} {J : Span} {s : State}
  {p : Prog Unit} {Q : State → Prop}

/-- An assignment whose expression is followed by intervals, and what comes after it. -/
theorem leads_assignA1504052271 (h : Runs (x s) (ops s) J)
    (hp : ∀ y ∈ J, Leads p { s with a1504052271 := y } Q) :
    Leads (assignA1504052271 x ops >>= fun _ => p) s Q := by
  refine Leads.seq ?_ (hp _ h.1)
  unfold assignA1504052271
  rw [exec_bind_ok (exec_get s), exec_bind_ok (exec_applyAll h.2)]
  rfl

theorem leads_assignA355441369 (h : Runs (x s) (ops s) J)
    (hp : ∀ y ∈ J, Leads p { s with a355441369 := y } Q) :
    Leads (assignA355441369 x ops >>= fun _ => p) s Q := by
  refine Leads.seq ?_ (hp _ h.1)
  unfold assignA355441369
  rw [exec_bind_ok (exec_get s), exec_bind_ok (exec_applyAll h.2)]
  rfl

end

/-- The phases of one call from the variables `v` and the outputs `out` and `err`. -/
def phases (v : Vars) (out err : List Int32) : Phases State Transition where
  idle s := s = ⟨v, 1, out, err⟩
  acted t s := ∃ v', s = ⟨v', 0, out ++ [t.code], err⟩ ∧ Inv t.target v'

section
variable {v : Vars} {out err : List Int32} {m : Mode}

theorem decides_test (P : Prop) [Decidable P] {f : State → Bool}
    (hidle : f ⟨v, 1, out, err⟩ = true ↔ P) (hacted : ∀ s : State, s.cf = 0 → f s = false) :
    (phases v out err).Decides (test f : Prog Bool) P where
  idle := by
    rintro s rfl
    exact ⟨_, by rw [exec_test, ← Bool.decide_coe (f _), decide_eq_decide.mpr hidle], rfl⟩
  acted := by
    rintro t s ⟨v', rfl, h⟩
    exact ⟨_, by rw [exec_test, hacted _ rfl], v', rfl, h⟩

theorem decides_region (r : Region) {f : State → Bool}
    (hidle : f ⟨v, 1, out, err⟩ = true ↔ r.Holds cuts v.a1504052271)
    (hacted : ∀ s : State, s.cf = 0 → f s = false) :
    (phases v out err).Decides (test f : Prog Bool) (r.Holds cuts v.a1504052271) :=
  decides_test _ hidle hacted

theorem decides_input (k input : Int32) :
    (phases v out err).Decides (test fun s => input == k && s.cf == 1 : Prog Bool) (input = k) :=
  decides_test _ (by simp) (by simp_all)

theorem decides_cf_input (k input : Int32) :
    (phases v out err).Decides (test fun s => s.cf == 1 && input == k : Prog Bool) (input = k) :=
  decides_test _ (by simp) (by simp_all)

/-- The `if` around the call of a method, which is run in its own mode only. -/
theorem takes_row (h : Inv m v) (n : Mode) {f : State → Bool} {p : Prog Unit} {i : Int32}
    (hp : Inv n v → (phases v out err).Takes p (find i n))
    (hidle : f ⟨v, 1, out, err⟩ = true ↔ Side n v) (hacted : ∀ s : State, s.cf = 0 → f s = false)
    (hr : n.region.Holds cuts v.a1504052271) :
    (phases v out err).Takes (ifM (test f) p) (row (fun n => Side n v) (find i) n) :=
  (decides_test (Side n v) hidle hacted).nest fun hs => hp (h.unique hr hs ▸ h)

/-- A block of straight-line code, run while no other has fired. -/
theorem acts (t : Transition) {p : Prog Unit}
    (h : Leads p ⟨v, 0, out, err⟩ ((phases v out err).acted t)) :
    ∀ s, (phases v out err).idle s →
      Leads (assignCf 0 >>= fun _ => p) s ((phases v out err).acted t) := by
  rintro s rfl
  exact h

/-- The last statement of a block. -/
theorem leads_printf (t : Transition) {v' : Vars} (h : Inv t.target v') :
    Leads (printf t.code) ⟨v', 0, out, err⟩ ((phases v out err).acted t) :=
  ⟨_, exec_modify _ _, v', rfl, h⟩

theorem calculate_outputm1_takes (input : Int32) (h : Inv .m1 v) :
    (phases v out err).Takes (calculate_outputm1 input) (find input .m1) := by
  have ha := h.region
  have hb := h.bound
  refine Phases.Takes.seq ((decides_input 56 input).act fun _ => acts .m1On56 ?_)
    ((decides_cf_input 57 input).act fun _ => acts .m1On57 ?_)
  · refine leads_assignA355441369 (runs_of_mul ⟨156, 250⟩ hb ha (by decide) (by decide)) ?_
    intro b hb'
    refine leads_assignA1504052271 (runs_of_mul ⟨134, 145⟩ ha hb' (by decide) (by decide)) ?_
    intro a ha'
    exact leads_printf .m1On56 (inv_of_mem (by decide) (mem_mono ha' (by decide))
      (mem_mono hb' (by decide)))
  · refine leads_assignA1504052271 (runs_of_mul ⟨-78, 26⟩ ha hb (by decide) (by decide)) ?_
    intro a ha'
    exact leads_printf .m1On57 (inv_of_middle rfl (mem_mono ha' (by decide)) rfl)

theorem calculate_outputm2_takes (input : Int32) (h : Inv .m2 v) :
    (phases v out err).Takes (calculate_outputm2 input) (find input .m2) := by
  have ha := h.region
  refine Phases.Takes.seq ((decides_cf_input 57 input).act fun _ => acts .m2On57 ?_)
    ((decides_input 56 input).act fun _ => acts .m2On56 ?_)
  · exact Leads.seq (exec_modify _ _) (leads_printf .m2On57 (inv_of_middle rfl ha rfl))
  · refine leads_assignA355441369
      (runs_of_mul ⟨21, 115⟩ ha ha (by decide) (by decide)) fun b hb => ?_
    refine leads_assignA1504052271
      (runs_of_mul ⟨5043, 29308⟩ ha hb (by decide) (by decide)) fun a ha' => ?_
    exact leads_printf .m2On56
      (inv_of_mem (by decide) (mem_mono ha' (by decide)) (mem_mono hb (by decide)))

theorem calculate_outputm3_takes (input : Int32) (h : Inv .m3 v) :
    (phases v out err).Takes (calculate_outputm3 input) (find input .m3) := by
  refine (decides_input 59 input).act fun _ => acts .m3On59 ?_
  refine leads_assignA1504052271
    (runs_of_through ⟨134, 156⟩ h.region (by decide)) fun a ha => ?_
  refine leads_assignA355441369
    (runs_of_mul ⟨131, 225⟩ ha ha (by decide) (by decide)) fun b hb => ?_
  exact leads_printf .m3On59
    (inv_of_mem (by decide) (mem_mono ha (by decide)) (mem_mono hb (by decide)))

theorem calculate_outputm4_takes (input : Int32) (h : Inv .m4 v) :
    (phases v out err).Takes (calculate_outputm4 input) (find input .m4) := by
  have ha := h.region
  refine (decides_cf_input 56 input).act fun _ => acts .m4On56 ?_
  refine leads_assignA355441369
    (runs_of_mul ⟨1971, 29823⟩ ha ha (by decide) (by decide)) fun b hb => ?_
  refine leads_assignA1504052271
    (runs_of_mul ⟨134, 156⟩ ha hb (by decide) (by decide)) fun a ha' => ?_
  exact leads_printf .m4On56
    (inv_of_mem (by decide) (mem_mono ha' (by decide)) (mem_mono hb (by decide)))

theorem calculate_outputm5_takes (input : Int32) (h : Inv .m5 v) :
    (phases v out err).Takes (calculate_outputm5 input) (find input .m5) := by
  refine (decides_cf_input 56 input).act fun _ => acts .m5On56 ?_
  refine leads_assignA1504052271
    (runs_of_through ⟨2168, 2215⟩ h.region (by decide)) fun a ha => ?_
  refine leads_assignA355441369
    (runs_of_mul ⟨27, 69⟩ ha ha (by decide) (by decide)) fun b hb => ?_
  exact leads_printf .m5On56
    (inv_of_mem (by decide) (mem_mono ha (by decide)) (mem_mono hb (by decide)))

theorem calculate_outputm6_takes (input : Int32) (h : Inv .m6 v) :
    (phases v out err).Takes (calculate_outputm6 input) (find input .m6) := by
  have ha := h.region
  have hb := h.bound
  refine Phases.Takes.seq ((decides_cf_input 57 input).act fun _ => acts .m6On57 ?_)
    (Phases.Takes.seq ((decides_input 58 input).act fun _ => acts .m6On58 ?_)
      ((decides_input 55 input).act fun _ => acts .m6On55 ?_))
  · refine leads_assignA1504052271
      (runs_of_mul ⟨48, 68⟩ ha hb (by decide) (by decide)) fun a ha' => ?_
    exact Leads.seq (exec_modify _ _)
      (leads_printf .m6On57 (inv_of_middle rfl (mem_mono ha' (by decide)) rfl))
  · exact leads_printf .m6On58 h
  · refine leads_assignA1504052271
      (runs_of_mul ⟨-46, -25⟩ ha hb (by decide) (by decide)) fun a ha' => ?_
    exact Leads.seq (exec_modify _ _)
      (leads_printf .m6On55 (inv_of_middle rfl (mem_mono ha' (by decide)) rfl))

theorem calculate_outputm7_takes (input : Int32) (h : Inv .m7 v) :
    (phases v out err).Takes (calculate_outputm7 input) (find input .m7) := by
  refine (decides_cf_input 59 input).act fun _ => acts .m7On59 ?_
  refine leads_assignA355441369
    (runs_of_mul ⟨169, 263⟩ h.bound h.region (by decide) (by decide)) fun b hb => ?_
  exact leads_printf .m7On59 (inv_of_mem (by decide) h.region (mem_mono hb (by decide)))

theorem calculate_outputm8_takes (input : Int32) (h : Inv .m8 v) :
    (phases v out err).Takes (calculate_outputm8 input) (find input .m8) := by
  have ha := h.region
  have hb := h.bound
  refine Phases.Takes.seq ((decides_cf_input 57 input).act fun _ => acts .m8On57 ?_)
    ((decides_cf_input 58 input).act fun _ => acts .m8On58 ?_)
  · exact leads_printf .m8On57 h
  · refine leads_assignA1504052271
      (runs_of_mul ⟨-2468, -802⟩ ha hb (by decide) (by decide)) fun a ha' => ?_
    refine leads_assignA355441369
      (runs_of_mul ⟨9562, 24560⟩ hb ha' (by decide) (by decide)) fun b hb' => ?_
    exact leads_printf .m8On58
      (inv_of_mem (by decide) (mem_mono ha' (by decide)) (mem_mono hb' (by decide)))

/-- The end of a call that fires nothing. -/
def Rejects (v : Vars) (out err : List Int32) (input : Int32) (r : Except Fault Unit)
    (s : State) : Prop :=
  r = .ok () ∧ s = ⟨v, 1, out, err ++ [input]⟩

/-- In a mode, one call is one lookup. -/
theorem calculate_output_ends (h : Inv m v) (input : Int32) :
    ∃ p, calculate_output input = (assignCf 1 >>= fun _ => p) ∧
      (phases v out err).Ends (Rejects v out err input) p (find input m) := by
  have hfind : search (fun r => r.Holds cuts v.a1504052271) (fun n => Side n v) (find input) =
      find input m := search_of_guard h.holds_iff fun n hn => h.side_iff hn
  rw [← hfind]
  exact ⟨_, rfl, dispatch_ends
    (decides_region .low (by simp [Region.Holds, cuts]) (by simp_all))
    (takes_row h .m1 (calculate_outputm1_takes input) (by simp [Side]) (by simp_all))
    (decides_region .middle (by simp [Region.Holds, cuts]) (by simp_all))
    (takes_row h .m2 (calculate_outputm2_takes input) (by simp [Side]) (by simp_all))
    (takes_row h .m3 (calculate_outputm3_takes input) (by simp [Side]) (by simp_all))
    (takes_row h .m4 (calculate_outputm4_takes input) (by simp [Side]) (by simp_all))
    (takes_row h .m5 (calculate_outputm5_takes input) (by simp [Side]) (by simp_all))
    (decides_region .upper (by simp [Region.Holds, cuts]) (by simp_all))
    (takes_row h .m6 (calculate_outputm6_takes input) (by simp [Side]) (by simp_all))
    (takes_row h .m7 (calculate_outputm7_takes input) (by simp [Side]) (by simp_all))
    (decides_region .high (by simp [Region.Holds, cuts]) (by simp_all))
    (takes_row h .m8 (calculate_outputm8_takes input) (by simp [Side]) (by simp_all))
    ((decides_test True (by simp) (by simp_all)).check fun s hs => by
      obtain rfl : s = ⟨v, 1, out, err⟩ := hs
      exact ⟨rfl, rfl⟩)⟩

end

/-- What the lookup says of a call. -/
def Follows (s : State) (input : Int32) (r : Reply × State) : Option Transition → Prop
  | some t => r.1 = ⟨[t.code], [], false⟩ ∧ Inv t.target r.2.toVars
  | none => r.1 = ⟨[], [input], false⟩ ∧ r.2.toVars = s.toVars

theorem call_follows {m : Mode} {s : State} (h : Inv m s.toVars) (input : Int32) :
    Follows s input (call s input) (find input m) := by
  obtain ⟨p, hp, hends⟩ :=
    @calculate_output_ends s.toVars [] [] m h input
  have he := hends.idle _ rfl
  have hrun : exec (calculate_output input) { s with out := [], err := [] } =
      exec p ⟨s.toVars, 1, [], []⟩ := by
    rw [hp]
    exact exec_bind_ok (exec_modify _ _)
  unfold call
  rw [hrun]
  generalize exec p ⟨s.toVars, 1, [], []⟩ = r at he
  obtain ⟨r, s'⟩ := r
  cases hf : find input m with
  | none =>
    rw [hf] at he
    obtain ⟨rfl, rfl⟩ := he
    exact ⟨rfl, rfl⟩
  | some t =>
    rw [hf] at he
    obtain ⟨rfl, v', rfl, hv'⟩ := he
    exact ⟨rfl, hv'⟩

/-- The states in which some mode's invariant holds. -/
def Moded (s : State) : Prop := ∃ m, Inv m s.toVars

theorem moded_start : Moded State.start := ⟨.m6, inv_start⟩

/-- A call in a mode meets no undefined behaviour and ends in a mode. -/
theorem call_defined (s : State) (input : Int32) (h : Moded s) :
    (call s input).1.undefined = false ∧ Moded (call s input).2 := by
  obtain ⟨m, hs⟩ := h
  have hc := call_follows hs input
  cases hf : find input m with
  | none =>
    rw [hf] at hc
    refine ⟨by rw [hc.1], m, ?_⟩
    rw [hc.2]
    exact hs
  | some t =>
    rw [hf] at hc
    exact ⟨by rw [hc.1], t.target, hc.2⟩

end EcaEngines.CModes
