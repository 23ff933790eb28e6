import EcaEngines.BoundedInt
import EcaEngines.Transitions

/-!
# The modes as a Mealy machine

From the start values the mode and the input alone decide what happens. The
guard of each mode, with a bound on `a2108127495`, is an inductive invariant: a
transition leads from any state of its mode into the guard of one target mode,
and none of its integer operations wraps.
-/
namespace EcaEngines.Modes
open BoundedInt Dispatch Transitions
open Original (Vars)

/-- Mode, input, output, next mode. -/
def table : List (Mode × String × String × Mode) := [
  (.m4, "ai1_ce2", "ai1_VoidReply", .m4),
  (.m4, "ai1_ce1", "usr4_ai1_ce1", .m6),
  (.m4, "usr4_ni1_ne1", "usr2_ai1_ce4", .m5),
  (.m5, "usr2_ai1_VoidReply", "none", .m4),
  (.m6, "usr4_ni1_ne1", "none", .m8),
  (.m6, "usr4_ai1_VoidReply", "ai1_VoidReply", .m2),
  (.m8, "usr4_ai1_VoidReply", "ni1_ne1__ai1_VoidReply", .m2),
  (.m2, "usr4_ni1_ne1", "ni1_ne1", .m2),
  (.m2, "ai1_ce2", "usr4_ai1_ce2", .m7),
  (.m7, "usr4_ni1_ne1", "none", .m3),
  (.m7, "usr4_ai1_VoidReply", "ai1_VoidReply", .m4),
  (.m3, "usr4_ai1_VoidReply", "usr2_ai1_ce4", .m1),
  (.m1, "usr2_ai1_VoidReply", "ai1_VoidReply", .m4)]

/-- What the table says of a mode and an input. -/
def next (m : Mode) (i : String) : Option (String × Mode) :=
  (table.find? fun r => r.1 = m ∧ r.2.1 = i).map fun r => r.2.2

def target : Transition → Mode
  | .m1VoidReply | .m4Ce2 | .m5VoidReply | .m7VoidReply => .m4
  | .m2Ne1 | .m6VoidReply | .m8VoidReply => .m2
  | .m2Ce2 => .m7
  | .m3VoidReply => .m1
  | .m4Ce1 => .m6
  | .m4Ne1 => .m5
  | .m6Ne1 => .m8
  | .m7Ne1 => .m3

/-- The table and the transitions of the source are the same thing. -/
theorem next_eq (m : Mode) (i : String) :
    next m i = (find i m).map fun t => (t.word, target t) := by
  cases h : find i m with
  | some t =>
    obtain ⟨rfl, rfl⟩ := find_eq_some_iff.mp h
    cases t <;> decide
  | none =>
    have hrows : ∀ r ∈ table, ∃ t : Transition, t.mode = r.1 ∧ t.letter = r.2.1 := by
      simp only [table, List.forall_mem_cons]
      exact ⟨⟨.m4Ce2, rfl, rfl⟩, ⟨.m4Ce1, rfl, rfl⟩, ⟨.m4Ne1, rfl, rfl⟩, ⟨.m5VoidReply, rfl, rfl⟩,
        ⟨.m6Ne1, rfl, rfl⟩, ⟨.m6VoidReply, rfl, rfl⟩, ⟨.m8VoidReply, rfl, rfl⟩, ⟨.m2Ne1, rfl, rfl⟩,
        ⟨.m2Ce2, rfl, rfl⟩, ⟨.m7Ne1, rfl, rfl⟩, ⟨.m7VoidReply, rfl, rfl⟩, ⟨.m3VoidReply, rfl, rfl⟩,
        ⟨.m1VoidReply, rfl, rfl⟩, fun _ hr => absurd hr List.not_mem_nil⟩
    have hnone : table.find? (fun r => r.1 = m ∧ r.2.1 = i) = none := by
      refine List.find?_eq_none.mpr fun r hr hmi => ?_
      obtain ⟨t, hm, hi⟩ := hrows r hr
      obtain ⟨rfl, rfl⟩ : r.1 = m ∧ r.2.1 = i := by simpa using hmi
      have := find_eq_some_iff.mpr ⟨hm, hi⟩
      rw [h] at this
      cases this
    rw [next, hnone]
    rfl

/-- Every mode accepts some input. -/
theorem exists_next (m : Mode) : ∃ i, (next m i).isSome := by
  cases m with
  | m1 => exact ⟨"usr2_ai1_VoidReply", by decide⟩
  | m2 => exact ⟨"ai1_ce2", by decide⟩
  | m3 => exact ⟨"usr4_ai1_VoidReply", by decide⟩
  | m4 => exact ⟨"ai1_ce1", by decide⟩
  | m5 => exact ⟨"usr2_ai1_VoidReply", by decide⟩
  | m6 => exact ⟨"usr4_ai1_VoidReply", by decide⟩
  | m7 => exact ⟨"usr4_ai1_VoidReply", by decide⟩
  | m8 => exact ⟨"usr4_ai1_VoidReply", by decide⟩

/-- A bound on `a2108127495` that every transition keeps. -/
def bound : Span := ⟨-30000, 30000⟩

def span : Region → Span
  | .low => ⟨-30000, -164⟩
  | .middle => ⟨-163, -19⟩
  | .upper => ⟨-18, 100⟩
  | .high => ⟨101, 30000⟩

theorem mem_span_iff {r : Region} {a : Int32} : a ∈ span r ↔ r.Holds cuts a ∧ a ∈ bound := by
  have h₁ : (-164 : Int32).toInt = -164 := rfl
  have h₂ : (-19 : Int32).toInt = -19 := rfl
  have h₃ : (100 : Int32).toInt = 100 := rfl
  cases r <;>
    simp only [span, Region.Holds, cuts, bound, mem_def, Int32.le_iff_toInt_le,
      Int32.lt_iff_toInt_lt, h₁, h₂, h₃] <;>
    omega

theorem m1_side_iff {v : Vars} : Side .m1 v ↔ v.a1522448132 ∈ (⟨-82, 18⟩ : Span) := by
  have h₁ : (-83 : Int32).toInt = -83 := rfl
  have h₂ : (18 : Int32).toInt = 18 := rfl
  simp only [Side, mem_def, Int32.le_iff_toInt_le, Int32.lt_iff_toInt_lt, h₁, h₂]
  omega

theorem m8_side_iff {v : Vars} : Side .m8 v ↔ v.a422009172 ∈ (⟨104, 198⟩ : Span) := by
  have h₁ : (103 : Int32).toInt = 103 := rfl
  have h₂ : (198 : Int32).toInt = 198 := rfl
  simp only [Side, mem_def, Int32.le_iff_toInt_le, Int32.lt_iff_toInt_lt, h₁, h₂]
  omega

/-- The invariant of a mode. -/
structure Inv (m : Mode) (v : Vars) : Prop where
  region : v.a2108127495 ∈ span m.region
  side : Side m v

theorem Inv.guard {m : Mode} {v : Vars} (h : Inv m v) : Guard m v :=
  ⟨(mem_span_iff.mp h.region).1, h.side⟩

theorem inv_start : Inv .m4 Vars.start := ⟨by decide, by decide⟩

/-- The integer operations of a transition, in the order of the source. -/
def operations : Transition → Vars → List Operation
  | .m1VoidReply, v => chainOperations v.a2108127495
    [(.mul, v.a1522448132), (.mod, 14999), (.mod, 72), (.sub, 91), (.sub, -1), (.mul, 1)]
  | .m2Ne1, _ | .m4Ce2, _ | .m4Ne1, _ | .m5VoidReply, _ => []
  | .m2Ce2, v => chainOperations v.a2108127495 [(.mod, 59), (.sub, -98), (.sub, 4), (.add, -42)]
  | .m3VoidReply, v =>
    chainOperations v.a2108127495
      [(.mul, v.a2108127495), (.mod, 50), (.sub, 75), (.mul, 5), (.mod, 50), (.add, -31)] ++
    chainOperations v.a2108127495 [(.mul, (Transition.m3VoidReply.fire v).a1522448132),
      (.sub, 22476), (.mul, 1), (.add, -3649)]
  | .m4Ce1, v =>
    chainOperations v.a2108127495 [(.sub, -7243), (.sub, -1395), (.mod, 59), (.sub, -16)]
  | .m6Ne1, v =>
    let a := (Transition.m6Ne1.fire v).a2108127495
    chainOperations v.a2108127495 [(.add, 13863), (.mul, 2), (.mul, 1)] ++
    chainOperations a [(.mul, a), (.mod, 14999), (.add, -1380), (.mod, 47), (.sub, -150),
      (.add, 23887), (.add, -23885)]
  | .m6VoidReply, v => chainOperations v.a2108127495 [(.add, -139), (.add, -4), (.add, 5)]
  | .m7Ne1, v =>
    chainOperations v.a2108127495 [(.sub, 128), (.sub, -3384), (.sub, 4504), (.sub, -1107)]
  | .m7VoidReply, v => chainOperations v.a2108127495
    [(.sub, 22339), (.sub, -35662), (.mul, 2), (.mod, 72), (.sub, 149)]
  | .m8VoidReply, v => chainOperations v.a2108127495
    [(.mul, v.a422009172), (.mod, 14999), (.div, 5), (.mod, 72), (.add, -156), (.mul, 5),
      (.mod, 72), (.add, -65)]

/-- The transition leads into its target mode and nothing wraps on the way. -/
def Safe (t : Transition) (v : Vars) : Prop :=
  Inv (target t) (t.fire v) ∧ ∀ o ∈ operations t v, o.Defined

section
variable {m : Mode} {v : Vars} {x : Int32} {J : Span} {ops : List (Op × Int32)}

/-- The new value of `a2108127495` is computed by a chain. -/
theorem inv_of_runs (h : Runs x ops J) (hv : v.a2108127495 = chain x ops)
    (hJ : J.Within (span m.region)) (hs : Side m v) :
    Inv m v ∧ ∀ o ∈ chainOperations x ops, o.Defined :=
  ⟨⟨mem_mono (hv ▸ h.1) hJ, hs⟩, h.2⟩

theorem m1VoidReply_safe (h : Inv .m1 v) : Safe .m1VoidReply v :=
  inv_of_runs (runs_of_mul ⟨-161, -19⟩ h.region (m1_side_iff.mp h.side) (by decide) (by decide))
    rfl (by decide) rfl

theorem m2Ce2_safe (h : Inv .m2 v) : Safe .m2Ce2 v :=
  inv_of_runs (runs_of_through ⟨-6, 52⟩ h.region (by decide)) rfl (by decide) rfl

theorem m3VoidReply_safe (h : Inv .m3 v) : Safe .m3VoidReply v := by
  have ha := h.region
  -- the first assignment gives the other factor of the second
  have hb : Runs v.a2108127495
      [(.mul, v.a2108127495), (.mod, 50), (.sub, 75), (.mul, 5), (.mod, 50), (.add, -31)]
      ⟨-80, -31⟩ := runs_of_mul _ ha ha (by decide) (by decide)
  have hb' : (Transition.m3VoidReply.fire v).a1522448132 ∈ (⟨-80, -31⟩ : Span) := hb.1
  have hc : Runs v.a2108127495 [(.mul, (Transition.m3VoidReply.fire v).a1522448132),
      (.sub, 22476), (.mul, 1), (.add, -3649)] ⟨-25536, -13085⟩ :=
    runs_of_mul _ ha hb' (by decide) (by decide)
  refine ⟨⟨mem_mono hc.1 (by decide), m1_side_iff.mpr (mem_mono hb' (by decide))⟩, ?_⟩
  exact List.forall_mem_append.mpr ⟨hb.2, hc.2⟩

theorem m4Ce1_safe (h : Inv .m4 v) : Safe .m4Ce1 v :=
  inv_of_runs (runs_of_through ⟨16, 74⟩ h.region (by decide)) rfl (by decide) rfl

theorem m6Ne1_safe (h : Inv .m6 v) : Safe .m6Ne1 v := by
  have ha : Runs v.a2108127495 [(.add, 13863), (.mul, 2), (.mul, 1)] ⟨27690, 27926⟩ :=
    runs_of_through _ h.region (by decide)
  have hb : Runs (chain v.a2108127495 [(.add, 13863), (.mul, 2), (.mul, 1)])
      [(.mul, chain v.a2108127495 [(.add, 13863), (.mul, 2), (.mul, 1)]), (.mod, 14999),
        (.add, -1380), (.mod, 47), (.sub, -150), (.add, 23887), (.add, -23885)] ⟨106, 198⟩ :=
    runs_of_mul _ ha.1 ha.1 (by decide) (by decide)
  refine ⟨⟨mem_mono ha.1 (by decide), m8_side_iff.mpr (mem_mono hb.1 (by decide))⟩, ?_⟩
  exact List.forall_mem_append.mpr ⟨ha.2, hb.2⟩

theorem m6VoidReply_safe (h : Inv .m6 v) : Safe .m6VoidReply v :=
  inv_of_runs (runs_of_through ⟨-156, -38⟩ h.region (by decide)) rfl (by decide) rfl

theorem m7Ne1_safe (h : Inv .m7 v) : Safe .m7Ne1 v :=
  inv_of_runs (runs_of_through ⟨-159, -41⟩ h.region (by decide)) rfl (by decide) rfl

theorem m7VoidReply_safe (h : Inv .m7 v) : Safe .m7VoidReply v :=
  inv_of_runs (runs_of_through ⟨-149, -78⟩ h.region (by decide)) rfl (by decide) h.side

theorem m8VoidReply_safe (h : Inv .m8 v) : Safe .m8VoidReply v :=
  inv_of_runs (runs_of_mul ⟨-136, -65⟩ h.region (m8_side_iff.mp h.side) (by decide) (by decide))
    rfl (by decide) rfl

/-- A transition that writes no integer. -/
theorem safe_of_writes_no_int {t : Transition} (h : Inv t.mode v) (hops : operations t v = [])
    (ha : (t.fire v).a2108127495 = v.a2108127495) (hr : (target t).region = t.mode.region)
    (hs : Side (target t) (t.fire v)) : Safe t v := by
  refine ⟨⟨by rw [ha, hr]; exact h.region, hs⟩, ?_⟩
  rw [hops]
  exact fun o ho => absurd ho List.not_mem_nil

/-- One step keeps the invariant and wraps nowhere. -/
theorem safe (t : Transition) (h : Inv t.mode v) : Safe t v := by
  cases t with
  | m1VoidReply => exact m1VoidReply_safe h
  | m2Ne1 => exact safe_of_writes_no_int h rfl rfl rfl h.side
  | m2Ce2 => exact m2Ce2_safe h
  | m3VoidReply => exact m3VoidReply_safe h
  | m4Ce2 => exact safe_of_writes_no_int h rfl rfl rfl h.side
  | m4Ce1 => exact m4Ce1_safe h
  | m4Ne1 => exact safe_of_writes_no_int h rfl rfl rfl rfl
  | m5VoidReply => exact safe_of_writes_no_int h rfl rfl rfl rfl
  | m6Ne1 => exact m6Ne1_safe h
  | m6VoidReply => exact m6VoidReply_safe h
  | m7Ne1 => exact m7Ne1_safe h
  | m7VoidReply => exact m7VoidReply_safe h
  | m8VoidReply => exact m8VoidReply_safe h

end

end EcaEngines.Modes
