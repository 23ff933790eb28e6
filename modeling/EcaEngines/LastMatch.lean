import Mathlib.Data.List.DropRight

/-!
# The last match of a loop

A loop over a list counts the items that do not match. At each match it stores the count
so far in one place, over what was stored there before. So what is left at the end belongs
to the last match.
-/
namespace EcaEngines.LastMatch

variable {α : Type} {f g : α → Bool} {l : List α}

/-- The loop: the count, and what is stored. -/
def scan (f : α → Bool) : List α → ℕ → Option ℕ → Option ℕ
  | [], _, stored => stored
  | a :: as, n, stored => if f a then scan f as n (some n) else scan f as (n + 1) stored

/-- The position of the last match, counted from 1, or 0. -/
def last (f : α → Bool) (l : List α) : ℕ := (l.rdropWhile (!f ·)).length

/-- The number of items before the last match that do not match. -/
def passed (f : α → Bool) (l : List α) : ℕ := (l.rdropWhile (!f ·)).countP (!f ·)

theorem scan_congr (h : ∀ a ∈ l, f a = g a) (n : ℕ) (stored : Option ℕ) :
    scan f l n stored = scan g l n stored := by
  induction l generalizing n stored with
  | nil => rfl
  | cons a l ih =>
    obtain ⟨ha, hl⟩ := List.forall_mem_cons.mp h
    rw [scan, scan, ha, ih hl, ih hl]

theorem scan_concat (a : α) (n : ℕ) (stored : Option ℕ) :
    scan f (l ++ [a]) n stored =
      if f a then some (n + l.countP (!f ·)) else scan f l n stored := by
  induction l generalizing n stored with
  | nil => simp [scan]
  | cons b l ih =>
    rw [List.cons_append, scan, scan, ih, ih]
    cases hb : f b with
    | true => simp [hb]
    | false =>
      have hcount : (b :: l).countP (!f ·) = l.countP (!f ·) + 1 := by simp [hb]
      simp only [hcount, Bool.false_eq_true, if_false, Nat.add_right_comm n 1, Nat.add_assoc]

/-- The last match decides what is stored. -/
theorem scan_eq (n : ℕ) (stored : Option ℕ) :
    scan f l n stored = if l.any f then some (n + passed f l) else stored := by
  induction l using List.reverseRecOn with
  | nil => rfl
  | append_singleton l a ih =>
    rw [scan_concat, ih]
    unfold passed
    cases ha : f a with
    | true => simp [ha]
    | false => simp [ha]

theorem passed_add_countP : passed f l + l.countP f = last f l := by
  induction l using List.reverseRecOn with
  | nil => rfl
  | append_singleton l a ih =>
    unfold passed last at *
    cases ha : f a with
    | true =>
      have hlen : l.length = l.countP (!f ·) + l.countP f := by
        rw [Nat.add_comm]
        simpa using l.length_eq_countP_add_countP f
      simp [ha]
      omega
    | false => simpa [ha] using ih

/-- The items that only one of two loops takes for a match. -/
theorem countP_exchange :
    l.countP f + l.countP (fun a => g a && !f a) =
      l.countP g + l.countP (fun a => f a && !g a) := by
  induction l with
  | nil => rfl
  | cons a l ih => cases hf : f a <;> cases hg : g a <;> simp [hf, hg] <;> omega

/-- Two loops store the same if both or neither of them finds a match, and what one takes
for a match and the other not makes up for the way between the last matches. -/
theorem scan_eq_scan_iff (n : ℕ) : scan f l n none = scan g l n none ↔
    l.any f = l.any g ∧ last f l + l.countP (fun a => g a && !f a) =
      last g l + l.countP (fun a => f a && !g a) := by
  have hf : passed f l + l.countP f = last f l := passed_add_countP
  have hg : passed g l + l.countP g = last g l := passed_add_countP
  have hexchange : l.countP f + l.countP (fun a => g a && !f a) =
      l.countP g + l.countP (fun a => f a && !g a) := countP_exchange
  rw [scan_eq, scan_eq]
  cases hanyf : l.any f <;> cases hanyg : l.any g
  · have hf0 : l.countP f = 0 := by simpa using hanyf
    have hg0 : l.countP g = 0 := by simpa using hanyg
    have hlastf : last f l = 0 := by simpa [last] using hanyf
    have hlastg : last g l = 0 := by simpa [last] using hanyg
    simp only [Bool.false_eq_true, if_false, true_and, true_iff]
    omega
  · simp
  · simp
  · simp only [if_true, Option.some.injEq, true_and]
    omega

end EcaEngines.LastMatch
