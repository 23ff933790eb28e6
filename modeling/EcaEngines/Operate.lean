import EcaEngines.Overloads
import EcaEngines.Displays

/-!
# What a record says when it is replayed

`Branch.operate` computes the operation of a record again, from the operands as they are
then. For the records of the overloads with two variables as operands it answers whether
the value is still the recorded one. In a phase that is not so: the scratch registers of one
call are those of the next, and the comparisons of `main` use them too, so as soon as one input
was processed, there are two records of one conjunction with different outcomes.
-/
namespace EcaEngines.Operate
open Imperative Recording Effects Operations Displays
open BoundedInt (Op)
open Original (Throwable)
open Instrumented (Throws)
open Overloads

variable {u v w : World} {x : ℕ}

/-- What an operation makes of the values of two objects. An assignment has one operand. -/
def value (w : World) (l r : Ref) : Operation → Option Outcome
  | .equals => some (.bool ((w.strings l).val == (w.strings r).val))
  | .lessEqual => some (.bool ((w.ints l).val ≤ (w.ints r).val))
  | .greaterEqual => some (.bool ((w.ints l).val ≥ (w.ints r).val))
  | .less => some (.bool ((w.ints l).val < (w.ints r).val))
  | .and => some (.bool ((w.bools l).val && (w.bools r).val))
  | .add => some (.int ((w.ints l).val + (w.ints r).val))
  | .del => some (.int ((w.ints l).val - (w.ints r).val))
  | .mult => some (.int ((w.ints l).val * (w.ints r).val))
  | .div => some (.int ((w.ints l).val / (w.ints r).val))
  | .mod => some (.int ((w.ints l).val % (w.ints r).val))
  | .boolAssign | .stringAssign | .intAssign => none

/-- The operation divides by `r`, which is zero. -/
def DividesByZero (w : World) (r : Ref) : Operation → Prop
  | .div | .mod => (w.ints r).val = 0
  | _ => False

instance (w : World) (r : Ref) : ∀ o, Decidable (DividesByZero w r o)
  | .div | .mod => inferInstanceAs (Decidable (_ = _))
  | .equals | .lessEqual | .greaterEqual | .and | .less | .mult | .boolAssign | .stringAssign
  | .intAssign | .del | .add => inferInstanceAs (Decidable False)

theorem int_beq (i j : Int32) : (i == j) = decide (some (Outcome.int i) = some (.int j)) := by
  by_cases h : i = j <;> simp [h]

theorem bool_beq (a b : Bool) : (a == b) = decide (some (Outcome.bool a) = some (.bool b)) := by
  cases a <;> cases b <;> decide

theorem sameInt_eq (w : World) (op : Op) (l r : Ref) (i : Int32) :
    sameInt w op l r (.int i) = if Throws op (w.ints r).val then .error (.thrown .arithmetic)
      else .ok (op.eval (w.ints l).val (w.ints r).val == i) := by
  unfold sameInt
  split_ifs <;> rfl

/-- An outcome of the same operation is unboxed as what it is. -/
theorem operate_value {o : Operation} {l r : Ref} {out : Outcome} (h : value w l r o = some out) :
    operate u (some ⟨some out, some o, some l, some r, none⟩) (some o) (some l) (some r) =
      if DividesByZero u r o then .error (.thrown .arithmetic)
      else .ok (decide (value u l r o = some out)) := by
  cases o with
  | equals | lessEqual | greaterEqual | and | less =>
    obtain rfl := Option.some.inj h
    rw [if_neg (id : DividesByZero u r _ → False), value, ← bool_beq]
    simp only [operate, ne_eq, not_true_eq_false, if_false]
    rfl
  | mult | mod | del | add | div =>
    obtain rfl := Option.some.inj h
    rw [value, ← int_beq]
    simp only [operate, ne_eq, not_true_eq_false, if_false]
    exact sameInt_eq u _ l r _
  | boolAssign | stringAssign | intAssign => cases h

/-- The values of the object `r` are the same. -/
structure Same (u v : World) (r : Ref) : Prop where
  int : (v.ints r).val = (u.ints r).val
  bool : (v.bools r).val = (u.bools r).val
  string : (v.strings r).val = (u.strings r).val

theorem value_congr {l r : Ref} (hl : Same u v l) (hr : Same u v r) (o : Operation) :
    value v l r o = value u l r o := by
  cases o <;> simp only [value, hl.int, hl.bool, hl.string, hr.int, hr.bool, hr.string]

theorem dividesByZero_congr {r : Ref} (hr : Same u v r) (o : Operation) :
    DividesByZero v r o ↔ DividesByZero u r o := by
  cases o <;> simp only [DividesByZero, hr.int]

/-- The branch `o` of `l` and `r` was appended, with the value at that time, and the
operands are as they were. -/
structure Recorded (x : ℕ) (o : Operation) (l r : Ref) (out : Outcome) (u v : World) : Prop where
  members : members v x = members u x ++ [u.made.length]
  made : v.made = u.made ++ [⟨some out, some o, some l, some r, none⟩]
  value : value u l r o = some out
  defined : ¬ DividesByZero u r o
  left : Same u v l
  right : Same u v r

theorem setInt_same {a r : Ref} (h : a ≠ r) (i : MyInt) : Same w (w.setInt a i) r :=
  ⟨congrArg MyInt.val (Function.update_of_ne h.symm _ _), rfl, rfl⟩

theorem setBool_same {a r : Ref} (h : a ≠ r) (b : MyBool) : Same w (w.setBool a b) r :=
  ⟨rfl, congrArg MyBool.val (Function.update_of_ne h.symm _ _), rfl⟩

/-- The flags of an operation concern `taintSet` only. -/
theorem propagate_taintSet {a b c : Arg} (h : exec (I.propagate a b c) w = (.ok (), v)) :
    ∃ t, v = { w with taintSet := t } := by
  cases hw : w.taintSet with
  | none =>
    have hthrow : exec (I.propagate a b c) w = (.error .nullPointer, w) := by
      have hb : exec (I.contains b) w = (.error .nullPointer, w) := by
        unfold I.contains
        rw [exec_bind_ok (exec_get w), hw]
        rfl
      exact exec_bind_error (exec_bind_error hb)
    rw [hthrow] at h
    cases h
  | some t =>
    rw [exec_propagate (by rw [hw]; rfl)] at h
    have hv : v = if w.tainted (w.eval b) || w.tainted (w.eval c) then w.taint (w.eval a) else w :=
      (congrArg Prod.snd h).symm
    rw [hv]
    split_ifs
    · exact ⟨_, rfl⟩
    · exact ⟨w.taintSet, rfl⟩

theorem compute_returns {op : Op} {a b c : Arg} (h : exec (I.compute op a b c) w = (.ok (), v)) :
    ¬ Throws op (w.int c).val ∧ v = put op a b c w := by
  by_cases hz : Throws op (w.int c).val
  · have hthrow : exec (I.compute op a b c) w = (.error .arithmetic, w) := by
      unfold I.compute
      refine exec_bind_error ?_
      rw [exec_ifM_test, if_pos (by simpa using hz), exec_throw]
    rw [hthrow] at h
    cases h
  · rw [exec_compute hz] at h
    exact ⟨hz, (congrArg Prod.snd h).symm⟩

theorem arith_recorded {op : Op} {o : Operation} {a b c : Arg}
    (ho : value w (w.eval b) (w.eval c) o = some (.int (op.eval (w.int b).val (w.int c).val)))
    (hz : DividesByZero w (w.eval c) o ↔ Throws op (w.int c).val)
    (hb : w.eval a ≠ w.eval b) (hc : w.eval a ≠ w.eval c)
    (h : exec (I.arith op o a b c (I.propagate a b c) (.given (some x))) w = (.ok (), v)) :
    Recorded x o (w.eval b) (w.eval c) (.int (v.int a).val) w v := by
  unfold I.arith at h
  obtain ⟨_, p, hp, h⟩ := of_exec_bind h
  obtain ⟨hdef, rfl⟩ := compute_returns hp
  obtain ⟨_, q, hq, h⟩ := of_exec_bind h
  obtain ⟨t, rfl⟩ := propagate_taintSet hq
  obtain rfl := congrArg Prod.snd ((exec_record x _ _).symm.trans h)
  have hval : ((put op a b c w).int a).val = op.eval (w.int b).val (w.int c).val := by
    have heval : (put op a b c w).eval a = w.eval a := eval_congr rfl a
    rw [World.int, heval]
    exact congrArg MyInt.val (Function.update_self (w.eval a) _ w.ints)
  refine ⟨?_, rfl, ?_, fun hd => hdef (hz.mp hd), ?_, ?_⟩
  · rw [Effects.members, noted_sets_self]
    rfl
  · rw [ho]
    exact congrArg (fun i => some (Outcome.int i)) hval.symm
  · exact ⟨(setInt_same hb _).int, rfl, rfl⟩
  · exact ⟨(setInt_same hc _).int, rfl, rfl⟩

theorem decideBool_recorded {o : Operation} {a b c : Arg} {val : World → Bool} {flags : Prog Unit}
    (hflags : ∀ {u v}, exec flags u = (.ok (), v) → ∃ t, v = { u with taintSet := t })
    (ho : value w (w.eval b) (w.eval c) o = some (.bool (val w)))
    (hz : ¬ DividesByZero w (w.eval c) o) (hb : w.eval a ≠ w.eval b) (hc : w.eval a ≠ w.eval c)
    (h : exec (I.decideBool o a b c val flags (.given (some x))) w = (.ok (), v)) :
    Recorded x o (w.eval b) (w.eval c) (.bool (v.boolean a).val) w v := by
  let p := w.setBool (w.eval a) { w.boolean a with val := val w }
  unfold I.decideBool at h
  obtain ⟨_, q, hq, h⟩ := of_exec_bind ((exec_bind_ok (exec_modify _ w)).symm.trans h)
  obtain ⟨t, rfl⟩ := hflags hq
  obtain rfl := congrArg Prod.snd ((exec_record x _ _).symm.trans h)
  have hval : (p.boolean a).val = val w := by
    have heval : p.eval a = w.eval a := eval_congr rfl a
    rw [World.boolean, heval]
    exact congrArg MyBool.val (Function.update_self (w.eval a) _ w.bools)
  refine ⟨?_, rfl, ?_, hz, ?_, ?_⟩
  · rw [Effects.members, noted_sets_self]
    rfl
  · rw [ho]
    exact congrArg (fun i => some (Outcome.bool i)) hval.symm
  · exact ⟨rfl, (setBool_same hb _).bool, rfl⟩
  · exact ⟨rfl, (setBool_same hc _).bool, rfl⟩

theorem run_recorded {c : Call} (hc : c.operandsAreVariables = true)
    (hl : w.eval c.dest ≠ c.lVar w) (hr : w.eval c.dest ≠ c.rVar w)
    (h : exec (c.run (some x)) w = (.ok (), v)) :
    Recorded x c.operation (c.lVar w) (c.rVar w) (c.outcome v) w v := by
  have hnone : ∀ {u v : World}, exec (pure () : Prog Unit) u = (.ok (), v) →
      ∃ t, v = { u with taintSet := t } := by
    intro u v h
    exact ⟨u.taintSet, (congrArg Prod.snd h).symm⟩
  cases c with
  | myAdd a b c | myDel a b c | myMul a b c | myDiv a b c | myMod a b c =>
    exact arith_recorded rfl Iff.rfl hl hr h
  | myEquals a b c | myLess a b c | myLessEqual a b c | myGreaterEqual a b c =>
    exact decideBool_recorded hnone rfl id hl hr h
  | myAnd a b c => exact decideBool_recorded propagate_taintSet rfl id hl hr h
  | _ => cases hc

/-- A record of two variables answers, whatever the variables are now, whether its
operation still gives its outcome. -/
theorem operate_recorded (c : Call) (x : ℕ) (u v : World) (hc : c.operandsAreVariables = true)
    (hl : u.eval c.dest ≠ c.lVar u) (hr : u.eval c.dest ≠ c.rVar u)
    (h : exec (c.run (some x)) u = (.ok (), v)) :
    let br := c.branch u v
    members v x = members u x ++ [u.made.length] ∧ v.made = u.made ++ [br] ∧
      (∀ w, operate w (some br) br.operation br.lVar br.rVar =
        if DividesByZero w (c.rVar u) c.operation then .error (.thrown .arithmetic)
        else .ok (decide (value w (c.lVar u) (c.rVar u) c.operation = br.outcome))) ∧
      ∀ w, Same v w (c.lVar u) → Same v w (c.rVar u) →
        operate w (some br) br.operation br.lVar br.rVar = .ok true := by
  intro br
  have hrec := run_recorded hc hl hr h
  have hreplay : ∀ w, operate w (some br) br.operation br.lVar br.rVar =
      if DividesByZero w (c.rVar u) c.operation then .error (.thrown .arithmetic)
      else .ok (decide (value w (c.lVar u) (c.rVar u) c.operation = br.outcome)) :=
    fun w => operate_value hrec.value
  refine ⟨hrec.members, hrec.made, hreplay, fun w hsl hsr => ?_⟩
  have hvalue : value w (c.lVar u) (c.rVar u) c.operation = br.outcome := by
    rw [value_congr hsl hsr, value_congr hrec.left hrec.right, hrec.value]
    rfl
  have hdef : ¬ DividesByZero w (c.rVar u) c.operation := by
    rw [dividesByZero_congr hsr, dividesByZero_congr hrec.right]
    exact hrec.defined
  rw [hreplay, if_neg hdef, decide_eq_true hvalue]

theorem operate_recorded_myLess :
    let c : Call := .myLess (.bool 1) (.var 1) (.var 2)
    let v := (exec (c.run (some 0)) Runs.start).2
    let br := c.branch Runs.start v
    members v 0 = members Runs.start 0 ++ [Runs.start.made.length] ∧
      v.made = Runs.start.made ++ [br] ∧
      (∀ w, operate w (some br) br.operation br.lVar br.rVar =
        if DividesByZero w (.var 2) .less then .error (.thrown .arithmetic)
        else .ok (decide (value w (.var 1) (.var 2) .less = br.outcome))) ∧
      ∀ w, Same v w (.var 1) → Same v w (.var 2) →
        operate w (some br) br.operation br.lVar br.rVar = .ok true :=
  operate_recorded (.myLess (.bool 1) (.var 1) (.var 2)) 0 Runs.start _ rfl nofun nofun rfl

end EcaEngines.Operate

namespace EcaEngines.Replaying
open Imperative Recording Effects Trees DirectFinal Runs Displays

variable {u v w : World} {x : ℕ}

/-- Comparisons, conjunctions and arithmetic. -/
def replayable : Option Operation → Bool
  | none | some .boolAssign | some .stringAssign | some .intAssign => false
  | _ => true

def Replays (w : World) (b : Branch) : Prop :=
  operate w (some b) b.operation b.lVar b.rVar = .ok true

/-- What was recorded in between still is the outcome. -/
def AllReplay (u v : World) : Prop :=
  ∀ b ∈ recorded u v, replayable b.operation = true → Replays v b

theorem replays_and (o : Bool) (w : World) :
    Replays w ⟨some (.bool o), some .and, some (.bool 1), some (.bool 2), none⟩ ↔
      ((w.bools (.bool 1)).val && (w.bools (.bool 2)).val) = o := by
  have hrun : operate w (some ⟨some (.bool o), some .and, some (.bool 1), some (.bool 2), none⟩)
      (some .and) (some (.bool 1)) (some (.bool 2)) =
      .ok (((w.bools (.bool 1)).val && (w.bools (.bool 2)).val) == o) := rfl
  rw [Replays, hrun, Except.ok.injEq, beq_iff_eq]

theorem not_allReplay_of_marked (h : Marked x u v) : ¬ AllReplay u v := by
  intro hall
  have hfalse := (replays_and false v).mp (hall _ h.fails rfl)
  have htrue := (replays_and true v).mp (hall _ h.holds rfl)
  rw [hfalse] at htrue
  cases htrue

theorem allReplay_iff {busy : Prop} (h : Ran busy x u v) : AllReplay u v ↔ ¬ busy := by
  refine ⟨fun hall hbusy => not_allReplay_of_marked (h.marked hbusy) hall, fun hidle b hb => ?_⟩
  rw [recorded, h.made hidle, List.drop_length] at hb
  exact absurd hb List.not_mem_nil

/-- In either phase all records replay only if there is nothing to process. -/
theorem phases_replay_iff (runs : List (List String)) (vals : List String) :
    ∃ t v s w, exec (training runs) start = (.ok t, v) ∧ exec (measured vals) v = (.ok s, w) ∧
      (AllReplay start v ↔ ∀ vals ∈ runs, vals = []) ∧ (AllReplay v w ↔ vals = []) := by
  obtain ⟨t, v, hv, -, -, htrained⟩ := training_ran start_sound runs
  obtain ⟨x, w, hw, -, hran, -⟩ := measured_ran htrained.later.sound vals
  refine ⟨some t, v, some x, w, hv, hw, ?_, ?_⟩
  · rw [allReplay_iff htrained]
    push Not
    rfl
  · rw [allReplay_iff hran, not_not]

theorem not_allReplay_after_one : ∃ t v, exec (training [["ai1_ce1"]]) start = (.ok t, v) ∧
    ¬ AllReplay start v := by
  obtain ⟨x, v, hv, -, -, hran⟩ := training_ran start_sound [["ai1_ce1"]]
  have hbusy : ∃ vals ∈ [["ai1_ce1"]], vals ≠ [] :=
    ⟨["ai1_ce1"], List.mem_singleton_self _, List.cons_ne_nil _ _⟩
  exact ⟨some x, v, hv, not_allReplay_of_marked (hran.marked hbusy)⟩

end EcaEngines.Replaying
