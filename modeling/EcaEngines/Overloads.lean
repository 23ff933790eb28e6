import EcaEngines.Runs

/-!
# The overloads that take a branch set

Sixteen of the nineteen overloads of class `I` with a `BranchSet` record what they
compute. The other three take a literal and go on to the overload without a set.
-/
namespace EcaEngines.Overloads
open Imperative Recording Effects Operations
open BoundedInt (Op)
open Instrumented (Throws)

variable {u v w : World} {x : ℕ}

/-- A call, by the types of its arguments. -/
inductive Call where
  | myAdd (a b c : Arg) | myAddInt (a b : Arg) (c : Int32)
  | myDel (a b c : Arg) | myDelInt (a b : Arg) (c : Int32)
  | myMul (a b c : Arg) | myMulInt (a b : Arg) (c : Int32)
  | myDiv (a b c : Arg) | myDivInt (a b : Arg) (c : Int32)
  | myMod (a b c : Arg) | myModInt (a b : Arg) (c : Int32)
  | myEquals (a b c : Arg) | myEqualsString (a b : Arg) (c : String)
  | myLess (a b c : Arg) | myLessInt (a : Arg) (b : Int32) (c : Arg)
  | myLessEqual (a b c : Arg) | myLessEqualInt (a b : Arg) (c : Int32)
  | myGreaterEqual (a b c : Arg) | myGreaterEqualInt (a : Arg) (b : Int32) (c : Arg)
  | myAnd (a b c : Arg)
deriving DecidableEq

namespace Call

def run (branchSet : SetVar) : Call → Prog Unit
  | myAdd a b c => I.myAdd a b c branchSet
  | myAddInt a b c => I.myAddInt a b c branchSet
  | myDel a b c => I.myDel a b c branchSet
  | myDelInt a b c => I.myDelInt a b c branchSet
  | myMul a b c => I.myMul a b c branchSet
  | myMulInt a b c => I.myMulInt a b c branchSet
  | myDiv a b c => I.myDiv a b c branchSet
  | myDivInt a b c => I.myDivInt a b c branchSet
  | myMod a b c => I.myMod a b c branchSet
  | myModInt a b c => I.myModInt a b c branchSet
  | myEquals a b c => I.myEquals a b c branchSet
  | myEqualsString a b c => I.myEqualsString a b c branchSet
  | myLess a b c => I.myLess a b c branchSet
  | myLessInt a b c => I.myLessInt a b c branchSet
  | myLessEqual a b c => I.myLessEqual a b c branchSet
  | myLessEqualInt a b c => I.myLessEqualInt a b c branchSet
  | myGreaterEqual a b c => I.myGreaterEqual a b c branchSet
  | myGreaterEqualInt a b c => I.myGreaterEqualInt a b c branchSet
  | myAnd a b c => I.myAnd a b c branchSet

/-- The three that go on to the overload without a set. -/
def forwards : Call → Bool
  | myDivInt .. | myModInt .. | myLessEqualInt .. => true
  | _ => false

def operation : Call → Operation
  | myAdd .. | myAddInt .. => .add
  | myDel .. | myDelInt .. => .del
  | myMul .. | myMulInt .. => .mult
  | myDiv .. | myDivInt .. => .div
  | myMod .. | myModInt .. => .mod
  | myEquals .. | myEqualsString .. => .equals
  | myLess .. | myLessInt .. => .less
  | myLessEqual .. | myLessEqualInt .. => .lessEqual
  | myGreaterEqual .. | myGreaterEqualInt .. => .greaterEqual
  | myAnd .. => .and

/-- The first source operand; a literal is the next object. -/
def lVar (w : World) : Call → Ref
  | myAdd _ b _ | myAddInt _ b _ | myDel _ b _ | myDelInt _ b _ | myMul _ b _ | myMulInt _ b _
  | myDiv _ b _ | myDivInt _ b _ | myMod _ b _ | myModInt _ b _ | myEquals _ b _
  | myEqualsString _ b _ | myLess _ b _ | myLessEqual _ b _ | myLessEqualInt _ b _
  | myGreaterEqual _ b _ | myAnd _ b _ => w.eval b
  | myLessInt .. | myGreaterEqualInt .. => .made w.next

def rVar (w : World) : Call → Ref
  | myAdd _ _ c | myDel _ _ c | myMul _ _ c | myDiv _ _ c | myMod _ _ c | myEquals _ _ c
  | myLess _ _ c | myLessInt _ _ c | myLessEqual _ _ c | myGreaterEqual _ _ c
  | myGreaterEqualInt _ _ c | myAnd _ _ c => w.eval c
  | myAddInt .. | myDelInt .. | myMulInt .. | myDivInt .. | myModInt .. | myEqualsString ..
  | myLessEqualInt .. => .made w.next

/-- The value of the destination. -/
def outcome (w : World) : Call → Outcome
  | myAdd a _ _ | myAddInt a _ _ | myDel a _ _ | myDelInt a _ _ | myMul a _ _ | myMulInt a _ _
  | myDiv a _ _ | myDivInt a _ _ | myMod a _ _ | myModInt a _ _ => .int (w.int a).val
  | myEquals a _ _ | myEqualsString a _ _ | myLess a _ _ | myLessInt a _ _ | myLessEqual a _ _
  | myLessEqualInt a _ _ | myGreaterEqual a _ _ | myGreaterEqualInt a _ _ | myAnd a _ _ =>
    .bool (w.boolean a).val

/-- The record that a call which takes `u` to `v` should make. -/
def branch (c : Call) (u v : World) : Branch :=
  ⟨some (c.outcome v), some c.operation, some (c.lVar u), some (c.rVar u), none⟩

/-- The divisor is not zero. -/
def Defined (w : World) : Call → Prop
  | myDiv _ _ c | myMod _ _ c => (w.int c).val ≠ 0
  | myDivInt _ _ c | myModInt _ _ c => c ≠ 0
  | _ => True

/-- Both operands are variables. -/
def operandsAreVariables : Call → Bool
  | myAdd .. | myDel .. | myMul .. | myDiv .. | myMod .. | myEquals .. | myLess ..
  | myLessEqual .. | myGreaterEqual .. | myAnd .. => true
  | _ => false

def dest : Call → Arg
  | myAdd a _ _ | myAddInt a _ _ | myDel a _ _ | myDelInt a _ _ | myMul a _ _ | myMulInt a _ _
  | myDiv a _ _ | myDivInt a _ _ | myMod a _ _ | myModInt a _ _ | myEquals a _ _
  | myEqualsString a _ _ | myLess a _ _ | myLessInt a _ _ | myLessEqual a _ _
  | myLessEqualInt a _ _ | myGreaterEqual a _ _ | myGreaterEqualInt a _ _ | myAnd a _ _ => a

end Call

/-- No branch was made or added. -/
structure Silent (u v : World) : Prop where
  sets : v.sets = u.sets
  made : v.made = u.made
  taintSet : v.taintSet.isSome

theorem Silent.trans (h : Silent u v) (k : Silent v w) : Silent u w :=
  ⟨k.sets.trans h.sets, k.made.trans h.made, k.taintSet⟩

theorem silent_taint (h : Silent u w) (t : Bool) (r : Ref) :
    Silent u (if t then w.taint r else w) := by
  cases t with
  | false => exact h
  | true => exact ⟨h.sets, h.made, by simpa [World.taint] using h.taintSet⟩

theorem silent_newInt (k : Int32) (w : World) :
    Silent w ((w.grown .myInt).setInt (.made w.next) ⟨k, ""⟩) := ⟨rfl, rfl, rfl⟩

theorem silent_newString (s : String) (w : World) :
    Silent w ((w.grown .myString).setString (.made w.next) ⟨s, 0, ""⟩) := ⟨rfl, rfl, rfl⟩

/-- The branch `b` was made and added to `x` at the end. -/
structure Appends (x : ℕ) (b : Branch) (u v : World) : Prop where
  members : members v x = members u x ++ [u.made.length]
  made : v.made = u.made ++ [b]
  taintSet : v.taintSet.isSome

theorem appends_noted (h : Silent u v) (b : Branch) : Appends x b u (noted x b v) where
  members := by
    rw [Effects.members, noted_sets_self, Effects.members, h.sets, h.made]
    rfl
  made := by
    change v.made ++ [b] = u.made ++ [b]
    rw [h.made]
  taintSet := h.taintSet

theorem Appends.after_silent {b : Branch} (h : Silent u v) (k : Appends x b v w) :
    Appends x b u w where
  members := by rw [k.members, Effects.members, Effects.members, h.sets, h.made]
  made := by rw [k.made, h.made]
  taintSet := k.taintSet

/-- The world after the value was computed and before `taintSet` changes. -/
def put (op : Op) (a b c : Arg) (w : World) : World :=
  w.setInt (w.eval a) { w.int a with val := op.eval (w.int b).val (w.int c).val }

theorem exec_compute {op : Op} {a b c : Arg} (h : ¬ Throws op (w.int c).val) :
    exec (I.compute op a b c) w = (.ok (), put op a b c w) := by
  have hif : exec (ifM (test fun w => Throws op (w.int c).val) (throw .arithmetic) : Prog Unit) w =
      (.ok (), w) := by
    rw [exec_ifM_test, if_neg (by simpa using h)]
  unfold I.compute
  rw [exec_bind_ok hif, exec_modify]
  rfl

/-- What is left of an operation once the value and the taint are there. -/
theorem arith_runs {op : Op} {a b c : Arg} (hw : w.taintSet.isSome)
    (h : ¬ Throws op (w.int c).val) :
    ∃ v, Silent w v ∧ v.fields = w.fields ∧ ∀ o set,
      exec (I.arith op o a b c (I.propagate a b c) set) w =
        exec (match set with
          | .absent => pure ()
          | .given set => I.record set fun w =>
            ⟨some (.int (w.int a).val), some o, some (w.eval b), some (w.eval c), none⟩) v := by
  let p := put op a b c w
  have hput : Silent w p := ⟨rfl, rfl, hw⟩
  refine ⟨if p.tainted (p.eval b) || p.tainted (p.eval c) then p.taint (p.eval a) else p,
    silent_taint hput _ _, ?_, fun o set => ?_⟩
  · split_ifs <;> rfl
  · unfold I.arith
    exact (exec_bind_ok (exec_compute h)).trans
      (exec_bind_ok (exec_propagate hput.taintSet a b c))

theorem arith_silent {op : Op} {o : Operation} {a b c : Arg} (hw : w.taintSet.isSome)
    (h : ¬ Throws op (w.int c).val) :
    ∃ v, exec (I.arith op o a b c (I.propagate a b c) .absent) w = (.ok (), v) ∧ Silent w v := by
  obtain ⟨v, hv, -, hrun⟩ := arith_runs (a := a) (b := b) hw h
  exact ⟨v, hrun o .absent, hv⟩

theorem arith_appends {op : Op} {o : Operation} {a b c : Arg} (hw : w.taintSet.isSome)
    (h : ¬ Throws op (w.int c).val) :
    ∃ v, exec (I.arith op o a b c (I.propagate a b c) (.given (some x))) w = (.ok (), v) ∧
      Appends x ⟨some (.int (v.int a).val), some o, some (w.eval b), some (w.eval c), none⟩
        w v := by
  obtain ⟨v, hv, hf, hrun⟩ := arith_runs (a := a) (b := b) hw h
  refine ⟨_, (hrun o _).trans (exec_record x _ v), ?_⟩
  have hnoted := appends_noted (x := x) hv
    ⟨some (.int (v.int a).val), some o, some (v.eval b), some (v.eval c), none⟩
  rw [eval_congr hf b, eval_congr hf c] at hnoted ⊢
  exact hnoted

/-- A test whose flags are those of a conjunction, or none. -/
theorem decideBool_appends {o : Operation} {a b c : Arg} {val : World → Bool} {flags : Prog Unit}
    (hflags : ∀ w : World, w.taintSet.isSome →
      ∃ v, exec flags w = (.ok (), v) ∧ Silent w v ∧ v.fields = w.fields)
    (hw : w.taintSet.isSome) :
    ∃ v, exec (I.decideBool o a b c val flags (.given (some x))) w = (.ok (), v) ∧
      Appends x ⟨some (.bool (v.boolean a).val), some o, some (w.eval b), some (w.eval c), none⟩
        w v := by
  let p := w.setBool (w.eval a) { w.boolean a with val := val w }
  obtain ⟨v, hv, hs, hf⟩ := hflags p hw
  have hsilent : Silent w v := ⟨hs.sets, hs.made, hs.taintSet⟩
  have hrun : exec (I.decideBool o a b c val flags (.given (some x))) w = (.ok (), noted x
      ⟨some (.bool (v.boolean a).val), some o, some (v.eval b), some (v.eval c), none⟩ v) := by
    unfold I.decideBool
    rw [exec_bind_ok (exec_modify _ w)]
    refine (exec_bind_ok hv).trans ?_
    exact exec_record x _ v
  have hfields : v.fields = w.fields := hf
  refine ⟨_, hrun, ?_⟩
  have hnoted := appends_noted (x := x) hsilent
    ⟨some (.bool (v.boolean a).val), some o, some (v.eval b), some (v.eval c), none⟩
  rw [eval_congr hfields b, eval_congr hfields c] at hnoted ⊢
  exact hnoted

theorem noFlags (w : World) (hw : w.taintSet.isSome) :
    ∃ v, exec (pure () : Prog Unit) w = (.ok (), v) ∧ Silent w v ∧ v.fields = w.fields :=
  ⟨w, rfl, ⟨rfl, rfl, hw⟩, rfl⟩

theorem andFlags (a b c : Arg) (w : World) (hw : w.taintSet.isSome) :
    ∃ v, exec (I.propagate a b c) w = (.ok (), v) ∧ Silent w v ∧ v.fields = w.fields := by
  refine ⟨_, exec_propagate hw a b c, silent_taint ⟨rfl, rfl, hw⟩ _ _, ?_⟩
  split_ifs <;> rfl

theorem myEquals_appends {a b c : Arg} (hw : w.taintSet.isSome) :
    ∃ v, exec (I.myEquals a b c (.given (some x))) w = (.ok (), v) ∧
      Appends x
        ⟨some (.bool (v.boolean a).val), some .equals, some (w.eval b), some (w.eval c), none⟩
        w v := decideBool_appends noFlags hw

/-- The overloads with a literal first make an object of it. -/
theorem appends_newInt {p : Ref → Prog Unit} {k : Int32} {f : World → Branch}
    (h : ∃ v, exec (p (.made w.next)) ((w.grown .myInt).setInt (.made w.next) ⟨k, ""⟩) =
        (.ok (), v) ∧
      Appends x (f v) ((w.grown .myInt).setInt (.made w.next) ⟨k, ""⟩) v) :
    ∃ v, exec (MyInt.new k >>= p) w = (.ok (), v) ∧ Appends x (f v) w v := by
  obtain ⟨v, hv, ha⟩ := h
  exact ⟨v, (exec_bind_ok (exec_newInt k "" w)).trans hv, ha.after_silent (silent_newInt k w)⟩

theorem silent_after_newInt {p : Ref → Prog Unit} {k : Int32}
    (h : ∃ v, exec (p (.made w.next)) ((w.grown .myInt).setInt (.made w.next) ⟨k, ""⟩) =
        (.ok (), v) ∧
      Silent ((w.grown .myInt).setInt (.made w.next) ⟨k, ""⟩) v) :
    ∃ v, exec (MyInt.new k >>= p) w = (.ok (), v) ∧ Silent w v := by
  obtain ⟨v, hv, hs⟩ := h
  exact ⟨v, (exec_bind_ok (exec_newInt k "" w)).trans hv, (silent_newInt k w).trans hs⟩

theorem not_throws_literal {op : Op} {k : Int32} (h : ¬ Throws op k) :
    ¬ Throws op
      (((w.grown .myInt).setInt (.made w.next) ⟨k, ""⟩).int (.ref (.made w.next))).val := by
  have hval :
      (((w.grown .myInt).setInt (.made w.next) ⟨k, ""⟩).int (.ref (.made w.next))).val = k := by
    simp [World.int, World.eval, World.setInt]
  rwa [hval]

namespace Call

theorem run_appends {c : Call} (hw : w.taintSet.isSome) (hd : c.Defined w)
    (hc : c.forwards = false) :
    ∃ v, exec (c.run (some x)) w = (.ok (), v) ∧ Appends x (c.branch w v) w v := by
  cases c with
  | myAdd a b c => exact arith_appends hw id
  | myDel a b c => exact arith_appends hw id
  | myMul a b c => exact arith_appends hw id
  | myDiv a b c => exact arith_appends hw hd
  | myMod a b c => exact arith_appends hw hd
  | myAddInt a b c =>
    exact appends_newInt (arith_appends rfl (not_throws_literal id))
  | myDelInt a b c =>
    exact appends_newInt (arith_appends rfl (not_throws_literal id))
  | myMulInt a b c =>
    exact appends_newInt (arith_appends rfl (not_throws_literal id))
  | myEquals a b c | myLess a b c | myLessEqual a b c | myGreaterEqual a b c =>
    exact decideBool_appends noFlags hw
  | myAnd a b c => exact decideBool_appends (andFlags a b c) hw
  | myLessInt a b c | myGreaterEqualInt a b c =>
    exact appends_newInt (decideBool_appends noFlags rfl)
  | myEqualsString a b c =>
    obtain ⟨v, hv, ha⟩ := myEquals_appends (x := x) (a := a) (b := b) (c := .ref (.made w.next))
      (w := (w.grown .myString).setString (.made w.next) ⟨c, 0, ""⟩) rfl
    exact ⟨v, (exec_bind_ok (exec_newString c w)).trans hv, ha.after_silent (silent_newString c w)⟩
  | myDivInt | myModInt | myLessEqualInt => cases hc

theorem run_silent {c : Call} (hd : c.Defined w) (hc : c.forwards = true) :
    ∃ v, exec (c.run (some x)) w = (.ok (), v) ∧ Silent w v := by
  cases c with
  | myDivInt a b c =>
    exact silent_after_newInt (arith_silent rfl (not_throws_literal hd))
  | myModInt a b c =>
    exact silent_after_newInt (arith_silent rfl (not_throws_literal hd))
  | myLessEqualInt a b c => exact silent_after_newInt ⟨_, rfl, ⟨rfl, rfl, rfl⟩⟩
  | _ => cases hc

theorem run_ends {c : Call} (hw : w.taintSet.isSome) (hd : c.Defined w) :
    ∃ v, exec (c.run (some x)) w = (.ok (), v) ∧
      ((c.forwards = true ∧ Silent w v) ∨ (c.forwards = false ∧ Appends x (c.branch w v) w v)) := by
  cases hc : c.forwards with
  | true =>
    obtain ⟨v, hv, hs⟩ := run_silent (x := x) hd hc
    exact ⟨v, hv, .inl ⟨rfl, hs⟩⟩
  | false =>
    obtain ⟨v, hv, ha⟩ := run_appends (x := x) hw hd hc
    exact ⟨v, hv, .inr ⟨rfl, ha⟩⟩

end Call

def runAll (x : ℕ) (calls : List Call) : Prog Unit := calls.forM fun c => c.run (some x)

/-- No divisor is zero when its call comes. -/
def Defined (x : ℕ) : World → List Call → Prop
  | _, [] => True
  | w, c :: cs => c.Defined w ∧ Defined x (exec (c.run (some x)) w).2 cs

/-- The records that the calls should make, in their order. -/
def branches (x : ℕ) : World → List Call → List Branch
  | _, [] => []
  | w, c :: cs =>
    let v := (exec (c.run (some x)) w).2
    c.branch w v :: branches x v cs

/-- The set `x` has gained the branches `bs`, at the end and in this order. -/
def Gains (x : ℕ) (u v : World) (bs : List Branch) : Prop :=
  ∃ ks, members v x = members u x ++ ks ∧ ks.map (v.made[·]?) = bs.map some

/-- What a sequence leaves: as many branches as calls do not go on to another overload,
and the right ones if all do not. -/
theorem runAll_ends (calls : List Call) (hw : w.taintSet.isSome) (hd : Defined x w calls) :
    ∃ v ks, exec (runAll x calls) w = (.ok (), v) ∧ members v x = members w x ++ ks ∧
      w.made <+: v.made ∧ ks.length = (calls.filter fun c => !c.forwards).length ∧
      ((∀ c ∈ calls, c.forwards = false) →
        ks.map (v.made[·]?) = (branches x w calls).map some) := by
  induction calls generalizing w with
  | nil => exact ⟨w, [], rfl, (List.append_nil _).symm, List.prefix_refl _, rfl, fun _ => rfl⟩
  | cons c calls ih =>
    obtain ⟨hc, hrest⟩ := hd
    obtain ⟨v, hv, hends⟩ := Call.run_ends (x := x) hw hc
    rw [hv] at hrest
    obtain hs | ha := hends
    · obtain ⟨hforwards, hs⟩ := hs
      obtain ⟨u, ks, hu, hmem, hmade, hlen, -⟩ := ih hs.taintSet hrest
      refine ⟨u, ks, (exec_bind_ok hv).trans hu, ?_, hs.made ▸ hmade, ?_, fun hall => ?_⟩
      · rw [hmem, members, members, hs.sets]
      · rw [hlen, List.filter_cons_of_neg (by simp [hforwards])]
      · rw [hall c List.mem_cons_self] at hforwards
        cases hforwards
    · obtain ⟨hforwards, ha⟩ := ha
      obtain ⟨u, ks, hu, hmem, hmade, hlen, hbranches⟩ := ih ha.taintSet hrest
      have hprefix : w.made <+: v.made := ⟨[_], ha.made.symm⟩
      refine ⟨u, w.made.length :: ks, (exec_bind_ok hv).trans hu, ?_, hprefix.trans hmade, ?_,
        fun hall => ?_⟩
      · rw [hmem, ha.members, List.append_assoc, List.singleton_append]
      · rw [List.filter_cons_of_pos (by simp [hforwards]), List.length_cons, List.length_cons, hlen]
      · have hrest' := hbranches fun d hd => hall d (List.mem_cons_of_mem _ hd)
        have hlt : w.made.length < v.made.length := by
          rw [ha.made, List.length_append, List.length_singleton]
          omega
        have hget : v.made[w.made.length]? = some (c.branch w v) := by
          rw [ha.made, List.getElem?_concat_length]
        have hkept : u.made[w.made.length]? = some (c.branch w v) := by
          rw [← hget, List.getElem?_eq_getElem hlt]
          exact List.prefix_iff_getElem?.mp hmade _ hlt
        rw [List.map_cons, hkept, hrest', branches, hv, List.map_cons]

theorem length_branches (x : ℕ) (w : World) (calls : List Call) :
    (branches x w calls).length = calls.length := by
  induction calls generalizing w with
  | nil => rfl
  | cons c calls ih => rw [branches, List.length_cons, List.length_cons, ih]

/-- A call that goes on to another overload leaves the set one branch short. -/
theorem forwards_of_gains {calls : List Call} (hw : w.taintSet.isSome) (hd : Defined x w calls)
    (hv : exec (runAll x calls) w = (.ok (), v)) (h : Gains x w v (branches x w calls)) :
    ∀ c ∈ calls, c.forwards = false := by
  obtain ⟨v', ks, hv', hmem, -, hlen, -⟩ := runAll_ends calls hw hd
  obtain ⟨ks', hmem', hmap⟩ := h
  obtain rfl : v = v' := congrArg Prod.snd (hv.symm.trans hv')
  obtain rfl : ks = ks' := List.append_cancel_left (hmem.symm.trans hmem')
  have hks : ks.length = calls.length := by
    have hlength := congrArg List.length hmap
    rwa [List.length_map, List.length_map, length_branches] at hlength
  intro c hc
  have hfilter := List.length_filter_eq_length_iff.mp (hlen.symm.trans hks) c hc
  simpa using hfilter

/-- Every call records what it should exactly if none of the overloads is called that go
on to the one without a set. -/
theorem gains_iff (w : World) (x : ℕ) (calls : List Call) (hw : w.taintSet.isSome)
    (hd : Defined x w calls) :
    (∃ v, exec (runAll x calls) w = (.ok (), v) ∧ Gains x w v (branches x w calls)) ↔
      ∀ c ∈ calls, c.forwards = false := by
  constructor
  · intro ⟨v, hv, hgains⟩
    exact forwards_of_gains hw hd hv hgains
  · intro hall
    obtain ⟨v, ks, hv, hmem, -, -, hbranches⟩ := runAll_ends calls hw hd
    exact ⟨v, hv, ks, hmem, hbranches hall⟩

theorem start_taintSet_isSome : Runs.start.taintSet.isSome := by
  rw [Runs.start_taintSet]
  rfl

/-- The first operations of the block for `usr2_ai1_VoidReply` below -163. -/
theorem gains_iff_myMul_myModInt :
    (∃ v, exec (runAll 0 [.myMul (.var 1) (.var 2) (.var 3), .myModInt (.var 2) (.var 1) 14999])
        Runs.start = (.ok (), v) ∧ Gains 0 Runs.start v
          (branches 0 Runs.start
            [.myMul (.var 1) (.var 2) (.var 3), .myModInt (.var 2) (.var 1) 14999])) ↔
      ∀ c ∈ [Call.myMul (.var 1) (.var 2) (.var 3), .myModInt (.var 2) (.var 1) 14999],
        c.forwards = false :=
  gains_iff Runs.start 0 _ start_taintSet_isSome
    ⟨trivial, (by decide : (14999 : Int32) ≠ 0), trivial⟩

theorem not_gains_myModInt :
    ¬ ∃ v, exec (runAll 0 [.myModInt (.var 1) (.var 2) 72]) Runs.start = (.ok (), v) ∧
      Gains 0 Runs.start v (branches 0 Runs.start [.myModInt (.var 1) (.var 2) 72]) := by
  intro ⟨v, hv, hgains⟩
  have hd : Defined 0 Runs.start [.myModInt (.var 1) (.var 2) 72] :=
    ⟨(by decide : (72 : Int32) ≠ 0), trivial⟩
  have hall := forwards_of_gains start_taintSet_isSome hd hv hgains
  cases hall _ List.mem_cons_self

end EcaEngines.Overloads
