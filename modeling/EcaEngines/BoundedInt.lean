import Mathlib.Algebra.Order.Ring.Int
import Mathlib.Tactic.Linarith

/-!
# Interval arithmetic for 32-bit integers

A machine integer is followed through a chain of wrapping operations by an
interval that holds its value. An operation whose interval stays inside the
32-bit range did not wrap, and its result is the mathematical one. Division and
remainder truncate toward zero; only positive divisors are treated.
-/
namespace EcaEngines.BoundedInt

structure Span where
  lo : Int
  hi : Int
deriving DecidableEq, Repr

instance : Membership Int32 Span := ⟨fun I x => I.lo ≤ x.toInt ∧ x.toInt ≤ I.hi⟩

theorem mem_def {x : Int32} {I : Span} : x ∈ I ↔ I.lo ≤ x.toInt ∧ x.toInt ≤ I.hi := Iff.rfl

instance (x : Int32) (I : Span) : Decidable (x ∈ I) :=
  inferInstanceAs (Decidable (I.lo ≤ x.toInt ∧ x.toInt ≤ I.hi))

/-- `n` is a signed 32-bit value. -/
def InRange (n : Int) : Prop := -2 ^ 31 ≤ n ∧ n < 2 ^ 31

instance (n : Int) : Decidable (InRange n) := inferInstanceAs (Decidable (_ ∧ _))

namespace Span

def point (n : Int) : Span := ⟨n, n⟩
def add (I J : Span) : Span := ⟨I.lo + J.lo, I.hi + J.hi⟩
def sub (I J : Span) : Span := ⟨I.lo - J.hi, I.hi - J.lo⟩

/-- The hull of the four corner products. -/
def mul (I J : Span) : Span :=
  ⟨min (min (I.lo * J.lo) (I.lo * J.hi)) (min (I.hi * J.lo) (I.hi * J.hi)),
    max (max (I.lo * J.lo) (I.lo * J.hi)) (max (I.hi * J.lo) (I.hi * J.hi))⟩

def tdiv (I : Span) (n : Int) : Span := ⟨I.lo.tdiv n, I.hi.tdiv n⟩

/-- A truncated remainder has the sign of its dividend and is no larger. -/
def tmod (I : Span) (n : Int) : Span :=
  ⟨if 0 ≤ I.lo then 0 else max I.lo (1 - n), if I.hi ≤ 0 then 0 else min I.hi (n - 1)⟩

/-- Both ends are signed 32-bit values. -/
def Fits (I : Span) : Prop := InRange I.lo ∧ InRange I.hi

instance (I : Span) : Decidable I.Fits := inferInstanceAs (Decidable (_ ∧ _))

/-- Inclusion, by the ends. -/
def Within (I J : Span) : Prop := J.lo ≤ I.lo ∧ I.hi ≤ J.hi

instance (I J : Span) : Decidable (I.Within J) := inferInstanceAs (Decidable (_ ∧ _))

end Span

open BoundedInt.Span

theorem mem_mono {x : Int32} {I J : Span} (hx : x ∈ I) (h : I.Within J) : x ∈ J :=
  ⟨h.1.trans hx.1, hx.2.trans h.2⟩

theorem mem_point {k : Int32} {n : Int} (h : k.toInt = n) : k ∈ point n := by
  simp [mem_def, point, h]

/-- A value inside the 32-bit range is its own balanced residue. -/
theorem bmod_of_inRange {n : Int} (h : InRange n) : n.bmod (2 ^ 32) = n :=
  Int.bmod_eq_of_le (by simpa using h.1) (by simpa using h.2)

theorem inRange_of_fits {I : Span} {n : Int} (hI : I.Fits) (hn : I.lo ≤ n ∧ n ≤ I.hi) :
    InRange n :=
  ⟨hI.1.1.trans hn.1, hn.2.trans_lt hI.2.2⟩

theorem inRange_toInt (x : Int32) : InRange x.toInt := ⟨x.le_toInt, x.toInt_lt⟩

theorem toInt_add_of_inRange {x y : Int32} (h : InRange (x.toInt + y.toInt)) :
    (x + y).toInt = x.toInt + y.toInt := by
  rw [Int32.toInt_add, bmod_of_inRange h]

theorem toInt_sub_of_inRange {x y : Int32} (h : InRange (x.toInt - y.toInt)) :
    (x - y).toInt = x.toInt - y.toInt := by
  rw [Int32.toInt_sub, bmod_of_inRange h]

theorem toInt_mul_of_inRange {x y : Int32} (h : InRange (x.toInt * y.toInt)) :
    (x * y).toInt = x.toInt * y.toInt := by
  rw [Int32.toInt_mul, bmod_of_inRange h]

theorem toInt_div_of_pos {x k : Int32} (hk : 0 < k.toInt) :
    (x / k).toInt = x.toInt.tdiv k.toInt := by
  refine Int32.toInt_div_of_ne_right x k fun h => ?_
  rw [h] at hk
  exact absurd hk (by decide)

private theorem mul_le_ends {l h x y : Int} (hl : l ≤ x) (hh : x ≤ h) :
    min (l * y) (h * y) ≤ x * y ∧ x * y ≤ max (l * y) (h * y) := by
  rcases le_total 0 y with hy | hy
  · exact ⟨min_le_of_left_le (mul_le_mul_of_nonneg_right hl hy),
      le_max_of_le_right (mul_le_mul_of_nonneg_right hh hy)⟩
  · exact ⟨min_le_of_right_le (mul_le_mul_of_nonpos_right hh hy),
      le_max_of_le_left (mul_le_mul_of_nonpos_right hl hy)⟩

theorem corners {I J : Span} {x y : Int} (hx : I.lo ≤ x ∧ x ≤ I.hi)
    (hy : J.lo ≤ y ∧ y ≤ J.hi) : (I.mul J).lo ≤ x * y ∧ x * y ≤ (I.mul J).hi := by
  have hxy := mul_le_ends (y := y) hx.1 hx.2
  have hlo := mul_le_ends (y := I.lo) hy.1 hy.2
  have hhi := mul_le_ends (y := I.hi) hy.1 hy.2
  simp only [mul_comm _ I.lo, mul_comm _ I.hi] at hlo hhi
  exact ⟨(min_le_min hlo.1 hhi.1).trans hxy.1, hxy.2.trans (max_le_max hlo.2 hhi.2)⟩

section
variable {x y : Int32} {I J : Span}

theorem add_inRange (hx : x ∈ I) (hy : y ∈ J) (h : (I.add J).Fits) :
    InRange (x.toInt + y.toInt) :=
  inRange_of_fits h ⟨add_le_add hx.1 hy.1, add_le_add hx.2 hy.2⟩

theorem sub_inRange (hx : x ∈ I) (hy : y ∈ J) (h : (I.sub J).Fits) :
    InRange (x.toInt - y.toInt) :=
  inRange_of_fits h ⟨sub_le_sub hx.1 hy.2, sub_le_sub hx.2 hy.1⟩

theorem mul_inRange (hx : x ∈ I) (hy : y ∈ J) (h : (I.mul J).Fits) :
    InRange (x.toInt * y.toInt) :=
  inRange_of_fits h (corners hx hy)

theorem mem_add (hx : x ∈ I) (hy : y ∈ J) (h : (I.add J).Fits) : x + y ∈ I.add J := by
  rw [mem_def, toInt_add_of_inRange (add_inRange hx hy h)]
  exact ⟨add_le_add hx.1 hy.1, add_le_add hx.2 hy.2⟩

theorem mem_sub (hx : x ∈ I) (hy : y ∈ J) (h : (I.sub J).Fits) : x - y ∈ I.sub J := by
  rw [mem_def, toInt_sub_of_inRange (sub_inRange hx hy h)]
  exact ⟨sub_le_sub hx.1 hy.2, sub_le_sub hx.2 hy.1⟩

theorem mem_mul (hx : x ∈ I) (hy : y ∈ J) (h : (I.mul J).Fits) : x * y ∈ I.mul J := by
  rw [mem_def, toInt_mul_of_inRange (mul_inRange hx hy h)]
  exact corners hx hy

theorem mem_div {n : Int} (hx : x ∈ I) (hy : y ∈ point n) (hn : 0 < n) : x / y ∈ I.tdiv n := by
  have hk : y.toInt = n := le_antisymm hy.2 hy.1
  rw [mem_def, toInt_div_of_pos (hk ▸ hn), hk]
  exact ⟨Int.tdiv_le_tdiv hn hx.1, Int.tdiv_le_tdiv hn hx.2⟩

theorem tmod_le_self {a n : Int} (hn : 0 < n) (ha : 0 ≤ a) : a.tmod n ≤ a := by
  have hq := Int.mul_nonneg hn.le (Int.tdiv_nonneg ha hn.le)
  have := Int.tmod_add_mul_tdiv a n
  omega

theorem tmod_bounds {a n : Int} (hn : 0 < n) (h : I.lo ≤ a ∧ a ≤ I.hi) :
    (I.tmod n).lo ≤ a.tmod n ∧ a.tmod n ≤ (I.tmod n).hi := by
  have hlt := Int.tmod_lt_of_pos a hn
  have hgt := Int.lt_tmod_of_pos a hn
  unfold Span.tmod
  rcases le_total 0 a with ha | ha
  · have h₀ := Int.tmod_nonneg n ha
    have h₁ := tmod_le_self hn ha
    split_ifs <;> constructor <;> simp only [max_le_iff, le_min_iff] <;> omega
  · -- the remainder of a negative dividend is read off that of its negation
    have h₀ := Int.tmod_nonneg n (Int.neg_nonneg.mpr ha)
    have h₁ := tmod_le_self hn (Int.neg_nonneg.mpr ha)
    rw [Int.neg_tmod] at h₀ h₁
    split_ifs <;> constructor <;> simp only [max_le_iff, le_min_iff] <;> omega

theorem mem_mod {n : Int} (hx : x ∈ I) (hy : y ∈ point n) (hn : 0 < n) : x % y ∈ I.tmod n := by
  have hk : y.toInt = n := le_antisymm hy.2 hy.1
  rw [mem_def, Int32.toInt_mod, hk]
  exact tmod_bounds hn hx

end

inductive Op where
  | add | sub | mul | div | mod
deriving DecidableEq, Repr

namespace Op

/-- The machine operation. -/
def eval : Op → Int32 → Int32 → Int32
  | add, x, y => x + y
  | sub, x, y => x - y
  | mul, x, y => x * y
  | div, x, y => x / y
  | mod, x, y => x % y

/-- The mathematical operation. -/
def exact : Op → Int → Int → Int
  | add, x, y => x + y
  | sub, x, y => x - y
  | mul, x, y => x * y
  | div, x, y => x.tdiv y
  | mod, x, y => x.tmod y

/-- The result is representable. A remainder needs the quotient to be. -/
def Defined : Op → Int32 → Int32 → Prop
  | add, x, y => InRange (x.toInt + y.toInt)
  | sub, x, y => InRange (x.toInt - y.toInt)
  | mul, x, y => InRange (x.toInt * y.toInt)
  | div, x, y | mod, x, y => y ≠ 0 ∧ InRange (x.toInt.tdiv y.toInt)

instance : ∀ (op : Op) (x y : Int32), Decidable (op.Defined x y)
  | add, _, _ | sub, _, _ | mul, _, _ => inferInstanceAs (Decidable (InRange _))
  | div, _, _ | mod, _, _ => inferInstanceAs (Decidable (_ ∧ _))

theorem eval_of_defined {op : Op} {x y : Int32} (h : op.Defined x y) :
    (op.eval x y).toInt = op.exact x.toInt y.toInt := by
  cases op with
  | add => exact toInt_add_of_inRange h
  | sub => exact toInt_sub_of_inRange h
  | mul => exact toInt_mul_of_inRange h
  | div => exact (Int32.toInt_div x y).trans (bmod_of_inRange h.2)
  | mod => exact Int32.toInt_mod x y

end Op

/-- An operation with its operands. -/
structure Operation where
  op : Op
  left : Int32
  right : Int32
deriving DecidableEq, Repr

def Operation.Defined (o : Operation) : Prop := o.op.Defined o.left o.right

/-- Operations with literals applied one after the other. -/
def chain (x : Int32) : List (Op × Int32) → Int32
  | [] => x
  | (op, k) :: ops => chain (op.eval x k) ops

def chainOperations (x : Int32) : List (Op × Int32) → List Operation
  | [] => []
  | (op, k) :: ops => ⟨op, x, k⟩ :: chainOperations (op.eval x k) ops

/-- The interval after one operation with a literal, if that cannot wrap. -/
def Span.step (I : Span) (op : Op) (k : Int32) : Option Span :=
  match op with
  | .add => fitting (I.add (point k.toInt))
  | .sub => fitting (I.sub (point k.toInt))
  | .mul => fitting (I.mul (point k.toInt))
  | .div => if 0 < k.toInt then some (I.tdiv k.toInt) else none
  | .mod => if 0 < k.toInt then some (I.tmod k.toInt) else none
where
  fitting (J : Span) : Option Span := if J.Fits then some J else none

def Span.through : Span → List (Op × Int32) → Option Span
  | I, [] => some I
  | I, (op, k) :: ops => (I.step op k).bind fun J => J.through ops

theorem Span.fitting_eq_some {J J' : Span} (h : step.fitting J = some J') :
    J.Fits ∧ J = J' := by
  simpa only [step.fitting, Option.ite_none_right_eq_some, Option.some.injEq] using h

/-- A quotient by a positive number lies between zero and the dividend. -/
theorem inRange_tdiv {n k : Int} (hn : InRange n) (hk : 0 < k) : InRange (n.tdiv k) := by
  rcases le_total 0 n with h | h
  · have h₀ := Int.tdiv_nonneg h hk.le
    have h₁ := Int.tdiv_le_self k h
    exact ⟨by omega, h₁.trans_lt hn.2⟩
  · have h₀ := Int.tdiv_nonneg (Int.neg_nonneg.mpr h) hk.le
    have h₁ := Int.tdiv_le_self k (Int.neg_nonneg.mpr h)
    rw [Int.neg_tdiv] at h₀ h₁
    exact ⟨hn.1.trans (by omega), by omega⟩

theorem step_mem {x k : Int32} {I J : Span} {op : Op} (hx : x ∈ I) (h : I.step op k = some J) :
    op.eval x k ∈ J ∧ op.Defined x k := by
  have hk : k ∈ point k.toInt := mem_point rfl
  have hne (hp : 0 < k.toInt) : k ≠ 0 := by
    rintro rfl
    exact absurd hp (by decide)
  cases op with
  | add =>
    obtain ⟨hf, rfl⟩ := Span.fitting_eq_some h
    exact ⟨mem_add hx hk hf, add_inRange hx hk hf⟩
  | sub =>
    obtain ⟨hf, rfl⟩ := Span.fitting_eq_some h
    exact ⟨mem_sub hx hk hf, sub_inRange hx hk hf⟩
  | mul =>
    obtain ⟨hf, rfl⟩ := Span.fitting_eq_some h
    exact ⟨mem_mul hx hk hf, mul_inRange hx hk hf⟩
  | div =>
    simp only [Span.step, Option.ite_none_right_eq_some, Option.some.injEq] at h
    obtain ⟨hp, rfl⟩ := h
    exact ⟨mem_div hx hk hp, hne hp, inRange_tdiv (inRange_toInt x) hp⟩
  | mod =>
    simp only [Span.step, Option.ite_none_right_eq_some, Option.some.injEq] at h
    obtain ⟨hp, rfl⟩ := h
    exact ⟨mem_mod hx hk hp, hne hp, inRange_tdiv (inRange_toInt x) hp⟩

/-- The chain ends in `J`, and none of its operations wraps. -/
def Runs (x : Int32) (ops : List (Op × Int32)) (J : Span) : Prop :=
  chain x ops ∈ J ∧ ∀ o ∈ chainOperations x ops, o.Defined

theorem runs_cons {x k : Int32} {op : Op} {ops : List (Op × Int32)} {J : Span}
    (hd : op.Defined x k) (h : Runs (op.eval x k) ops J) : Runs x ((op, k) :: ops) J :=
  ⟨h.1, List.forall_mem_cons.mpr ⟨hd, h.2⟩⟩

/-- Intervals that all fit are followed to the last of them. -/
theorem runs_of_through {x : Int32} {I : Span} {ops : List (Op × Int32)} (J : Span) (hx : x ∈ I)
    (h : I.through ops = some J) : Runs x ops J := by
  induction ops generalizing x I with
  | nil =>
    obtain rfl : I = J := Option.some.inj h
    exact ⟨hx, fun o ho => absurd ho List.not_mem_nil⟩
  | cons p ops ih =>
    obtain ⟨K, hK, hJ⟩ := Option.bind_eq_some_iff.mp h
    obtain ⟨hmem, hdef⟩ := step_mem hx hK
    exact runs_cons hdef (ih hmem hJ)

/-- A chain that starts with a product of two variables. -/
theorem runs_of_mul {x y : Int32} {I I' : Span} {ops : List (Op × Int32)} (J : Span) (hx : x ∈ I)
    (hy : y ∈ I') (hf : (I.mul I').Fits) (h : (I.mul I').through ops = some J) :
    Runs x ((.mul, y) :: ops) J :=
  runs_cons (mul_inRange hx hy hf) (runs_of_through J (mem_mul hx hy hf) h)

end EcaEngines.BoundedInt
