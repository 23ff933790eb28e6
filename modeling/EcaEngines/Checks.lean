import EcaEngines.Fuzzer

/-!
# The branches that a program makes

The first `if` in the loop of `main` makes a branch of nine conditions for every input,
and the engine makes none of more than four. The tests of both share their registers.
-/
namespace EcaEngines.Checks
open Imperative Instrumented Transitions Blocks Guards
open Original (Throwable noTransition)

/-- `I.myEquals(I.bool<a>, input, word, br)` -/
def equals (a : ℕ) (input : MyString) (word : String) : Condition :=
  ⟨.myEquals, .register a, some input, some (.new word), none, none, none, none⟩

/-- `I.myAnd(I.bool<a>, I.bool<b>, I.bool<c>, br)` -/
def conjunction (a b c : ℕ) : Condition :=
  ⟨.myAnd, .register a, none, none, some (.register b), some (.register c), none, none⟩

/-- The branch of the first `if`. -/
def checkBranch (input : MyString) : Branch :=
  ⟨none, [equals 1 input "ai1_ce1", equals 2 input "usr4_ai1_VoidReply",
    equals 3 input "usr4_ni1_ne1", equals 4 input "ai1_ce2", equals 5 input "usr2_ai1_VoidReply",
    conjunction 6 1 2, conjunction 7 3 4, conjunction 8 6 7, conjunction 9 8 5], input.val⟩

/-- The branches of nine conditions. -/
def nines (l : List Branch) : List Branch := l.filter fun b => b.condLst.length = 9

/-- In between, the branches `bs` of nine conditions were made, and others of at most four. -/
def Makes (bs : List Branch) (u v : World) : Prop :=
  ∃ new, v.made = u.made ++ new ∧ (∀ b ∈ new, b.condLst.length ≤ 4 ∨ b.condLst.length = 9) ∧
    nines new = bs

section
variable {bs bs' : List Branch} {u v w : World}

theorem makes_of_same (h : v.made = u.made) : Makes [] u v :=
  ⟨[], by rw [h, List.append_nil], fun _ h => absurd h List.not_mem_nil, rfl⟩

theorem makes_of_le {b : Branch} (h : v.made = u.made ++ [b]) (hb : b.condLst.length ≤ 4) :
    Makes [] u v := by
  refine ⟨[b], h, List.forall_mem_singleton.mpr (.inl hb), List.filter_eq_nil_iff.mpr ?_⟩
  intro c hc
  rw [List.mem_singleton.mp hc, decide_eq_true_iff]
  omega

theorem Makes.trans (h : Makes bs u v) (k : Makes bs' v w) : Makes (bs ++ bs') u w := by
  obtain ⟨new, hv, hnew, hbs⟩ := h
  obtain ⟨new', hw, hnew', hbs'⟩ := k
  refine ⟨new ++ new', ?_, List.forall_mem_append.mpr ⟨hnew, hnew'⟩, ?_⟩
  · rw [hw, hv, List.append_assoc]
  · rw [nines, List.filter_append, ← nines, ← nines, hbs, hbs']

end

section
variable {l : List Branch} {k n : ℕ} {w : World}

theorem modify_last {α : Type} (f : α → α) (l : List α) (a : α) :
    (l ++ [a]).modify l.length f = l ++ [f a] := by
  rw [List.modify_eq_take_cons_drop (by simp)]
  simp

/-- A test that is given the last branch adds its condition to it. -/
theorem exec_test {b : Branch} (a : ℕ) (val : World → Bool) (cond : World → Condition)
    (hmade : w.made = l ++ [b]) :
    ∃ u v, exec (do I.decideBool a val; I.record l.length cond) w = (.ok (), v) ∧
      v.made = l ++ [{ b with condLst := b.condLst ++ [cond u] }] := by
  let u := w.setBool a { w.bool a with val := val w }
  refine ⟨u, _, rfl, ?_⟩
  change w.made.modify l.length (fun b => { b with condLst := b.condLst ++ [cond u] }) = _
  rw [hmade, modify_last]

/-- The last branch has the identity `k` and `n` conditions, and was made after `l`. -/
structure Pending (l : List Branch) (k n : ℕ) (w : World) : Prop where
  last : k = l.length
  made : ∃ b, w.made = l ++ [b] ∧ b.condLst.length = n

theorem newBranch_pending (input : String) (w : World) :
    ∃ w', exec (newBranch input) w = (.ok w.made.length, w') ∧
      Pending w.made w.made.length 0 w' :=
  ⟨_, rfl, rfl, _, rfl, rfl⟩

theorem test_pending (a : ℕ) (val : World → Bool) (cond : World → Condition) :
    Meets (Pending l k n) (do I.decideBool a val; I.record k cond)
      fun _ => Pending l k (n + 1) := by
  rintro w ⟨rfl, x, hmade, rfl⟩
  obtain ⟨u, v, hv, hmade'⟩ := exec_test a val cond hmade
  exact ⟨_, v, hv, rfl, _, hmade', List.length_append⟩

theorem myLess_pending (a : ℕ) (b c : IntRef) :
    Meets (Pending l k n) (I.myLess a b c k) fun _ => Pending l k (n + 1) := test_pending _ _ _

theorem myLessEqual_pending (a : ℕ) (b c : IntRef) :
    Meets (Pending l k n) (I.myLessEqual a b c k) fun _ => Pending l k (n + 1) :=
  test_pending _ _ _

theorem myGreaterEqual_pending (a : ℕ) (b c : IntRef) :
    Meets (Pending l k n) (I.myGreaterEqual a b c k) fun _ => Pending l k (n + 1) :=
  test_pending _ _ _

theorem myEquals_pending (a : ℕ) (b : StringRef) (c : String) :
    Meets (Pending l k n) (I.myEquals a b c k) fun _ => Pending l k (n + 1) := test_pending _ _ _

theorem myAnd_pending (a : ℕ) (b c : BoolRef) :
    Meets (Pending l k n) (I.myAnd a b c k) fun _ => Pending l k (n + 1) := test_pending _ _ _

theorem myAnd_unrecorded (a : ℕ) (b c : BoolRef) :
    Meets (Pending l k n) (I.myAnd a b c) fun _ => Pending l k n :=
  fun _ hw => ⟨_, _, rfl, hw.last, hw.made⟩

theorem setDependentVariable_pending (b : BoolRef) :
    Meets (Pending l k n) (setDependentVariable k b) fun _ => Pending l k n := by
  rintro w ⟨rfl, x, hmade, hlen⟩
  refine ⟨_, _, rfl, rfl, { x with dependentVariable := some (w.keepBool b) }, ?_, hlen⟩
  change w.made.modify l.length (fun x => { x with dependentVariable := some (w.keepBool b) }) = _
  rw [hmade, modify_last]

/-- The branch is added to the set and the decision made. -/
theorem decided_pending (b : BoolRef) (h : n ≤ 4) :
    Meets (Pending l k n) (do branchesAdd k; I.myIf b) fun _ w => ∃ j ≤ 4, Pending l k j w :=
  fun _ hw => ⟨_, _, rfl, n, h, hw.last, hw.made⟩

end

theorem moves_site {input : String} {q : ℕ → Prog Bool}
    (h : ∀ l k, Meets (Pending l k 0) (q k) fun _ w => ∃ j ≤ 4, Pending l k j w) :
    Moves (Makes []) (fun _ : Throwable => False) (newBranch input >>= q) := by
  rintro w r w' he -
  obtain ⟨u, hu, hp⟩ := newBranch_pending input w
  rw [exec_bind_ok hu] at he
  obtain ⟨b, v, hv, j, hj, -, x, hmade, hlen⟩ := h _ _ u hp
  obtain ⟨-, rfl⟩ := Prod.mk.injEq .. ▸ hv.symm.trans he
  exact makes_of_le hmade (hlen ▸ hj)

theorem moves_block (t : Transition) :
    Moves (Makes []) (fun _ : Throwable => False) (block .copied t) := by
  rintro w r w' he -
  have hmade := block_made t w
  rw [he] at hmade
  exact makes_of_same hmade

/-- No `if` of the engine stands behind more than four conditions. -/
theorem moves_CalculateOutput (input : MyString) :
    Moves (Makes []) (fun _ : Throwable => False) (Fuzzer.CalculateOutput input) := by
  unfold Fuzzer.CalculateOutput Fuzzer.Text.CalculateOutput Fuzzer.Text.CalculateOutputm1
    Fuzzer.Text.CalculateOutputm2 Fuzzer.Text.CalculateOutputm3 Fuzzer.Text.CalculateOutputm4
    Fuzzer.Text.CalculateOutputm5 Fuzzer.Text.CalculateOutputm6 Fuzzer.Text.CalculateOutputm7
    Fuzzer.Text.CalculateOutputm8
  with_reducible repeat' first
    | exact moves_of_exec (fun _ => rfl) fun _ => makes_of_same rfl
    | exact moves_block _
    | refine (myEquals_pending _ _ _).bind fun _ => ?_
    | refine (myAnd_pending _ _ _).bind fun _ => ?_
    | refine (myAnd_unrecorded _ _ _).bind fun _ => ?_
    | refine (myLess_pending _ _ _).bind fun _ => ?_
    | refine (myLessEqual_pending _ _ _).bind fun _ => ?_
    | refine (myGreaterEqual_pending _ _ _).bind fun _ => ?_
    | refine (setDependentVariable_pending _).bind fun _ => ?_
    | exact decided_pending _ (by decide)
    | refine moves_site fun _ _ => ?_
    | refine Moves.ifM (fun _ => makes_of_same rfl) Makes.trans ?_ ?_
    | refine Moves.bind Makes.trans ?_ fun _ => ?_

/-- The branch under way has the conditions `cs`. -/
def Holds (l : List Branch) (input : String) (cs : List Condition) (w : World) : Prop :=
  w.made = l ++ [⟨none, cs, input⟩]

section
variable {l : List Branch} {input : MyString} {i : String} {cs : List Condition}

theorem myEquals_holds (a : ℕ) (word : String) :
    Meets (Holds l i cs) (I.myEquals a (.object input) word l.length)
      fun _ => Holds l i (cs ++ [equals a input word]) := by
  intro w hw
  obtain ⟨_, v, hv, hmade⟩ := exec_test a _ _ hw
  exact ⟨_, v, hv, hmade⟩

theorem myAnd_holds (a b c : ℕ) :
    Meets (Holds l i cs) (I.myAnd a (.bool b) (.bool c) l.length)
      fun _ => Holds l i (cs ++ [conjunction a b c]) := by
  intro w hw
  obtain ⟨_, v, hv, hmade⟩ := exec_test a _ _ hw
  exact ⟨_, v, hv, hmade⟩

end

theorem check_made (input : MyString) (w : World) :
    (exec (Fuzzer.check input) w).2.made = w.made ++ [checkBranch input] := by
  have hnew : exec (newBranch input.val) w = (.ok w.made.length,
      { w with made := w.made ++ [⟨none, [], input.val⟩] }) := rfl
  have hcheck (l : List Branch) : Meets (Holds l input.val []) (do
      I.myEquals 1 (.object input) "ai1_ce1" l.length
      I.myEquals 2 (.object input) "usr4_ai1_VoidReply" l.length
      I.myEquals 3 (.object input) "usr4_ni1_ne1" l.length
      I.myEquals 4 (.object input) "ai1_ce2" l.length
      I.myEquals 5 (.object input) "usr2_ai1_VoidReply" l.length
      I.myAnd 6 (.bool 1) (.bool 2) l.length
      I.myAnd 7 (.bool 3) (.bool 4) l.length
      I.myAnd 8 (.bool 6) (.bool 7) l.length
      I.myAnd 9 (.bool 8) (.bool 5) l.length
      branchesAdd l.length
      I.myIf (.bool 9)) fun _ w => w.made = l ++ [checkBranch input] := by
    with_reducible repeat' first
      | refine (myEquals_holds _ _).bind fun _ => ?_
      | refine (myAnd_holds _ _ _).bind fun _ => ?_
    exact fun _ hw => ⟨_, _, rfl, hw⟩
  obtain ⟨_, v, hv, hmade⟩ :=
    hcheck w.made { w with made := w.made ++ [⟨none, [], input.val⟩] } rfl
  unfold Fuzzer.check
  rw [exec_bind_ok hnew, hv]
  exact hmade

theorem check_makes (input : MyString) (w : World) :
    Makes [checkBranch input] w (exec (Fuzzer.check input) w).2 :=
  ⟨[checkBranch input], check_made input w, List.forall_mem_singleton.mpr (.inr rfl), rfl⟩

/-- The registers from 5 on are as they were. -/
def Apart (u v : World) : Prop := ∀ r, 5 ≤ r → v.bool r = u.bool r

theorem Apart.trans {u v w : World} (h : Apart u v) (k : Apart v w) : Apart u w :=
  fun r hr => (k r hr).trans (h r hr)

theorem apart_of_same {u v : World} (h : v.bool = u.bool) : Apart u v := fun r _ => congrFun h r

theorem apart_test {a : ℕ} (ha : a < 5) (val : World → Bool) (cond : World → Condition)
    (br : Option ℕ) :
    Moves Apart (fun _ : Throwable => False) (do
      I.decideBool a val
      match br with
      | none => pure ()
      | some br => I.record br cond) := by
  have hset (w : World) (x : MyBool) : Apart w (w.setBool a x) := by
    intro r hr
    unfold World.setBool
    exact Function.update_of_ne (by omega : r ≠ a) ..
  cases br with
  | none => exact moves_of_exec (fun _ => rfl) fun w => hset w _
  | some br => exact moves_of_exec (fun _ => rfl) fun w => hset w _

theorem apart_myLess {a : ℕ} (ha : a < 5) (b c : IntRef) (br : Option ℕ) :
    Moves Apart (fun _ : Throwable => False) (I.myLess a b c br) := apart_test ha _ _ _

theorem apart_myLessEqual {a : ℕ} (ha : a < 5) (b c : IntRef) (br : Option ℕ) :
    Moves Apart (fun _ : Throwable => False) (I.myLessEqual a b c br) := apart_test ha _ _ _

theorem apart_myGreaterEqual {a : ℕ} (ha : a < 5) (b c : IntRef) (br : Option ℕ) :
    Moves Apart (fun _ : Throwable => False) (I.myGreaterEqual a b c br) := apart_test ha _ _ _

theorem apart_myEquals {a : ℕ} (ha : a < 5) (b : StringRef) (c : String) (br : Option ℕ) :
    Moves Apart (fun _ : Throwable => False) (I.myEquals a b c br) := apart_test ha _ _ _

theorem apart_myAnd {a : ℕ} (ha : a < 5) (b c : BoolRef) (br : Option ℕ) :
    Moves Apart (fun _ : Throwable => False) (I.myAnd a b c br) := apart_test ha _ _ _

theorem apart_block (t : Transition) :
    Moves Apart (fun _ : Throwable => False) (block .copied t) := by
  rintro w r w' he -
  have hbool := block_bool t w
  rw [he] at hbool
  exact apart_of_same hbool

theorem apart_CalculateOutput (input : MyString) :
    Moves Apart (fun _ : Throwable => False) (Fuzzer.CalculateOutput input) := by
  unfold Fuzzer.CalculateOutput Fuzzer.Text.CalculateOutput Fuzzer.Text.CalculateOutputm1
    Fuzzer.Text.CalculateOutputm2 Fuzzer.Text.CalculateOutputm3 Fuzzer.Text.CalculateOutputm4
    Fuzzer.Text.CalculateOutputm5 Fuzzer.Text.CalculateOutputm6 Fuzzer.Text.CalculateOutputm7
    Fuzzer.Text.CalculateOutputm8
  with_reducible repeat' first
    | exact apart_myEquals (by decide) _ _ _
    | exact apart_myAnd (by decide) _ _ _
    | exact apart_myLess (by decide) _ _ _
    | exact apart_myLessEqual (by decide) _ _ _
    | exact apart_myGreaterEqual (by decide) _ _ _
    | exact apart_block _
    | exact moves_of_exec (fun _ => rfl) fun _ => apart_of_same rfl
    | refine Moves.ifM (fun _ => apart_of_same rfl) Apart.trans ?_ ?_
    | refine Moves.bind Apart.trans ?_ fun _ => ?_

/-- Of the conjunctions of the first `if` none is true. -/
def Refuted (w : World) : Prop := ∀ r, 6 ≤ r → r ≤ 9 → (w.bool r).val = false

theorem beq_and_beq {a b : String} (h : a ≠ b) (i : String) : (i == a && i == b) = false := by
  by_cases hi : i = a
  · simp [hi, h]
  · simp [hi]

theorem check_refutes (input : MyString) (w : World) :
    Refuted (exec (Fuzzer.check input) w).2 := by
  have hsix : ((exec (Fuzzer.check input) w).2.bool 6).val = false :=
    beq_and_beq (by decide : "ai1_ce1" ≠ "usr4_ai1_VoidReply") input.val
  have hseven : ((exec (Fuzzer.check input) w).2.bool 7).val = false :=
    beq_and_beq (by decide : "usr4_ni1_ne1" ≠ "ai1_ce2") input.val
  have height : ((exec (Fuzzer.check input) w).2.bool 8).val =
      (((exec (Fuzzer.check input) w).2.bool 6).val &&
        ((exec (Fuzzer.check input) w).2.bool 7).val) := rfl
  have hnine : ((exec (Fuzzer.check input) w).2.bool 9).val =
      (((exec (Fuzzer.check input) w).2.bool 8).val &&
        ((exec (Fuzzer.check input) w).2.bool 5).val) := rfl
  rw [hsix, Bool.false_and] at height
  rw [height, Bool.false_and] at hnine
  intro r hr hr'
  obtain rfl | rfl | rfl | rfl : r = 6 ∨ r = 7 ∨ r = 8 ∨ r = 9 := by omega
  · exact hsix
  · exact hseven
  · exact height
  · exact hnine

theorem Refuted.apart {u v : World} (h : Refuted u) (ha : Apart u v) : Refuted v :=
  fun r hr hr' => by rw [ha r (by omega), h r hr hr']

end EcaEngines.Checks
