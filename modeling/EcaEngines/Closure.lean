import EcaEngines.DataFlow
import EcaEngines.Overloads

/-!
# Taint and the flow of values

`taintSet` after a sequence of arithmetic calls and assignments, against the objects whose
value comes from an object that was in it before. `I.myDel` without a set looks up a name
instead of its first operand, so it is the one call that does not pass all on.
-/
namespace EcaEngines.Closure
open Imperative Recording Effects Operations DataFlow
open BoundedInt (Op)
open Instrumented (Throws)

variable {u v w : World} {keep minuend : Bool}

/-- A call, by the types of its arguments, with the set it is given if any. -/
inductive Call where
  | vars (op : Op) (a b c : Ref) (set : Option ℕ)
  | intRight (op : Op) (a b : Ref) (c : Int32) (set : Option ℕ)
  | intLeft (op : Op) (a : Ref) (b : Int32) (c : Ref)
  | intBoth (op : Op) (a : Ref) (b c : Int32)
  | assign (b : Ref) (name : String) (set : Option ℕ)
deriving DecidableEq

def setArg : Option ℕ → SetArg
  | none => .absent
  | some x => .given (some x)

/-- The overload for each operation. -/
def vars (a b c : Arg) (set : SetArg) : Op → Prog Unit
  | .add => I.myAdd a b c set
  | .sub => I.myDel a b c set
  | .mul => I.myMul a b c set
  | .div => I.myDiv a b c set
  | .mod => I.myMod a b c set

def intRight (a b : Arg) (c : Int32) (set : SetArg) : Op → Prog Unit
  | .add => I.myAddInt a b c set
  | .sub => I.myDelInt a b c set
  | .mul => I.myMulInt a b c set
  | .div => I.myDivInt a b c set
  | .mod => I.myModInt a b c set

def intLeft (a : Arg) (b : Int32) (c : Arg) : Op → Prog Unit
  | .add => I.myAddIntVar a b c
  | .sub => I.myDelIntVar a b c
  | .mul => I.myMulIntVar a b c
  | .div => I.myDivIntVar a b c
  | .mod => I.myModIntVar a b c

def intBoth (a : Arg) (b c : Int32) : Op → Prog Unit
  | .add => I.myAddIntInt a b c
  | .sub => I.myDelIntInt a b c
  | .mul => I.myMulIntInt a b c
  | .div => I.myDivIntInt a b c
  | .mod => I.myModIntInt a b c

namespace Call

/-- An assignment leaves a new object. -/
def run : Call → Prog Unit
  | .vars op a b c set => Closure.vars (.ref a) (.ref b) (.ref c) (setArg set) op
  | .intRight op a b c set => Closure.intRight (.ref a) (.ref b) c (setArg set) op
  | .intLeft op a b c => Closure.intLeft (.ref a) b (.ref c) op
  | .intBoth op a b c => Closure.intBoth (.ref a) b c op
  | .assign b name set => do
    let _ ← I.myAssignInt (.ref b) name (setArg set)

/-- The number of objects that the call makes. -/
def objects : Call → ℕ
  | .vars .. => 0
  | .intRight .. | .intLeft .. | .assign .. => 1
  | .intBoth .. => 2

/-- The divisor is not zero. The object of a first literal is made before. -/
def Defined (w : World) : Call → Prop
  | .vars op _ _ c _ => ¬ Throws op (w.ints c).val
  | .intRight op _ _ c _ | .intBoth op _ _ c => ¬ Throws op c
  | .intLeft op _ b c => ¬ Throws op (if c = .made w.next then b else (w.ints c).val)
  | .assign .. => True

end Call

/-- From where a call computes `a`. Without `minuend`, the first operand of an `I.myDel`
without a set does not count. -/
def link (minuend : Bool) (op : Op) (a b c : Ref) (set : Option ℕ) : Link Ref :=
  ⟨a, if minuend = false ∧ op = .sub ∧ set = none then [c] else [b, c]⟩

/-- The links of a call before which `n` objects were made. A literal is an object that is
computed from nothing. -/
def Call.links (minuend : Bool) (n : ℕ) : Call → List (Link Ref)
  | .vars op a b c set => [link minuend op a b c set]
  | .intRight op a b _ set => [⟨.made n, []⟩, link minuend op a b (.made n) set]
  | .intLeft op a _ c => [⟨.made n, []⟩, link minuend op a (.made n) c none]
  | .intBoth op a _ _ =>
    [⟨.made n, []⟩, ⟨.made (n + 1), []⟩, link minuend op a (.made n) (.made (n + 1)) none]
  | .assign b _ _ => [⟨.made n, [b]⟩]

def runAll (calls : List Call) : Prog Unit := calls.forM Call.run

/-- No divisor is zero when its call comes. -/
def Defined : World → List Call → Prop
  | _, [] => True
  | w, c :: cs => c.Defined w ∧ Defined (exec c.run w).2 cs

def links (minuend : Bool) : ℕ → List Call → List (Link Ref)
  | _, [] => []
  | n, c :: cs => c.links minuend n ++ links minuend (n + c.objects) cs

/-- `taintSet` has spread along the links, and `n` objects were made. -/
structure Carries (ls : List (Link Ref)) (n : ℕ) (u v : World) : Prop where
  taintSet : v.taintSet.isSome
  next : v.next = u.next + n
  tainted : Spreads ls (u.tainted · = true) (v.tainted · = true)

theorem Carries.refl (hw : w.taintSet.isSome) : Carries [] 0 w w :=
  ⟨hw, rfl, .refl _⟩

theorem Carries.trans {ls ks : List (Link Ref)} {n m : ℕ} (h : Carries ls n u v)
    (k : Carries ks m v w) : Carries (ls ++ ks) (n + m) u w where
  taintSet := k.taintSet
  next := by rw [k.next, h.next, Nat.add_assoc]
  tainted := h.tainted.trans k.tainted

theorem carries_newInt (k : Int32) (name : String) (w : World) :
    Carries [⟨.made w.next, []⟩] 1 w ((w.grown .myInt).setInt (.made w.next) ⟨k, name⟩) :=
  ⟨rfl, rfl, spreads_nil _ _⟩

/-- An object is marked if one of the sources is. -/
theorem carries_taint {a : Ref} {sources : List Ref} {n : ℕ} (hv : v.taintSet.isSome)
    (hn : v.next = u.next + n) (hs : v.tainted = u.tainted) :
    Carries [⟨a, sources⟩] n u (if sources.any u.tainted then v.taint a else v) := by
  cases hany : sources.any u.tainted with
  | false =>
    rw [if_neg Bool.false_ne_true]
    refine ⟨hv, hn, ?_⟩
    rw [hs]
    exact spreads_of_forall_not (List.any_eq_false.mp hany)
  | true =>
    have htainted (r : Ref) : (v.taint a).tainted r = true ↔ u.tainted r = true ∨ r = a := by
      rw [tainted_taint _ _ hv, hs, Bool.or_eq_true, decide_eq_true_eq]
    rw [if_pos rfl]
    refine ⟨by simpa [World.taint] using hv, hn, fun r => (htainted r).trans ?_⟩
    exact spreads_of_exists (l := ⟨a, sources⟩) (List.any_eq_true.mp hany) r

theorem carries_noted {ls : List (Link Ref)} {n x : ℕ} {b : Branch} (h : Carries ls n u v) :
    Carries ls n u (noted x b v) := ⟨h.taintSet, h.next, h.tainted⟩

theorem arith_carries {op : Op} {o : Operation} {a b c : Ref} {set : Option ℕ} {flags : Prog Unit}
    {sources : List Ref} (hw : w.taintSet.isSome) (hd : ¬ Throws op (w.ints c).val)
    (hflags : ∀ u : World, u.taintSet.isSome →
      exec flags u = (.ok (), if sources.any u.tainted then u.taint a else u)) :
    ∃ v, exec (I.arith op o (.ref a) (.ref b) (.ref c) flags (setArg set)) w = (.ok (), v) ∧
      Carries [⟨a, sources⟩] 0 w v := by
  let p := Overloads.put op (.ref a) (.ref b) (.ref c) w
  have hp : exec (I.compute op (.ref a) (.ref b) (.ref c)) w = (.ok (), p) :=
    Overloads.exec_compute hd
  have hq : Carries [⟨a, sources⟩] 0 w (if sources.any p.tainted then p.taint a else p) :=
    carries_taint (u := w) (v := p) hw rfl rfl
  unfold I.arith
  rw [exec_bind_ok hp, exec_bind_ok (hflags p hw)]
  cases set with
  | none => exact ⟨_, exec_pure _ _, hq⟩
  | some x => exact ⟨_, exec_record x _ _, carries_noted hq⟩

theorem propagate_any {a b c : Ref} (hw : w.taintSet.isSome) :
    exec (I.propagate (.ref a) (.ref b) (.ref c)) w =
      (.ok (), if [b, c].any w.tainted then w.taint a else w) := by
  rw [exec_propagate hw]
  simp only [List.any_cons, List.any_nil, Bool.or_false]
  rfl

theorem containsName_any {a c : Ref} (hw : w.taintSet.isSome) :
    exec (I.taintIf (.ref a) I.containsName (I.contains (.ref c))) w =
      (.ok (), if [c].any w.tainted then w.taint a else w) := by
  rw [exec_taintIf (exec_containsName hw) (exec_contains hw (.ref c))]
  simp only [List.any_cons, List.any_nil, Bool.or_false, Bool.false_or]
  rfl

theorem vars_carries {op : Op} {a b c : Ref} (set : Option ℕ) (hw : w.taintSet.isSome)
    (hd : ¬ Throws op (w.ints c).val) :
    ∃ v, exec (vars (.ref a) (.ref b) (.ref c) (setArg set) op) w = (.ok (), v) ∧
      Carries [link false op a b c set] 0 w v := by
  have both : ∀ o, ∃ v, exec (I.arith op o (.ref a) (.ref b) (.ref c)
      (I.propagate (.ref a) (.ref b) (.ref c)) (setArg set)) w = (.ok (), v) ∧
        Carries [⟨a, [b, c]⟩] 0 w v :=
    fun o => arith_carries hw hd fun u hu => propagate_any hu
  cases op with
  | add => exact both .add
  | mul => exact both .mult
  | div => exact both .div
  | mod => exact both .mod
  | sub =>
    cases set with
    | none =>
      have hplain : ∃ v, exec (I.arith .sub .del (.ref a) (.ref b) (.ref c)
          (I.taintIf (.ref a) I.containsName (I.contains (.ref c))) (setArg none)) w =
            (.ok (), v) ∧ Carries [⟨a, [c]⟩] 0 w v :=
        arith_carries hw hd fun u hu => containsName_any hu
      exact hplain
    | some x => exact both .del

/-- A literal is made into an object before the rest of the call. -/
theorem carries_after_newInt {p : Ref → Prog Unit} {k : Int32} {ls : List (Link Ref)} {n : ℕ}
    (h : ∃ v, exec (p (.made w.next)) ((w.grown .myInt).setInt (.made w.next) ⟨k, ""⟩) =
        (.ok (), v) ∧
      Carries ls n ((w.grown .myInt).setInt (.made w.next) ⟨k, ""⟩) v) :
    ∃ v, exec (MyInt.new k >>= p) w = (.ok (), v) ∧
      Carries (⟨.made w.next, []⟩ :: ls) (1 + n) w v := by
  obtain ⟨v, hv, hc⟩ := h
  exact ⟨v, (exec_bind_ok (exec_newInt k "" w)).trans hv, (carries_newInt k "" w).trans hc⟩

theorem ints_newInt (k : Int32) (w : World) (r : Ref) :
    (((w.grown .myInt).setInt (.made w.next) ⟨k, ""⟩).ints r).val =
      if r = .made w.next then k else (w.ints r).val := by
  change (Function.update w.ints (.made w.next) _ r).val = _
  rw [Function.update_apply]
  split_ifs <;> rfl

theorem intRight_carries {op : Op} {a b : Ref} {c : Int32} {set : Option ℕ} (hd : ¬ Throws op c) :
    ∃ v, exec (intRight (.ref a) (.ref b) c (setArg set) op) w = (.ok (), v) ∧
      Carries [⟨.made w.next, []⟩, link false op a b (.made w.next) set] (1 + 0) w v := by
  have hd' : ¬ Throws op
      (((w.grown .myInt).setInt (.made w.next) ⟨c, ""⟩).ints (.made w.next)).val := by
    rw [ints_newInt, if_pos rfl]
    exact hd
  cases op with
  | add | sub | mul => exact carries_after_newInt (vars_carries set rfl hd')
  -- Both overloads go on to the one without a set, which spreads as much.
  | div | mod => exact carries_after_newInt (vars_carries none rfl hd')

theorem intLeft_carries {op : Op} {a c : Ref} {b : Int32}
    (hd : ¬ Throws op (if c = .made w.next then b else (w.ints c).val)) :
    ∃ v, exec (intLeft (.ref a) b (.ref c) op) w = (.ok (), v) ∧
      Carries [⟨.made w.next, []⟩, link false op a (.made w.next) c none] (1 + 0) w v := by
  rw [← ints_newInt] at hd
  cases op with
  | add | sub | mul | div | mod => exact carries_after_newInt (vars_carries none rfl hd)

theorem intBoth_carries {op : Op} {a : Ref} {b c : Int32} (hd : ¬ Throws op c) :
    ∃ v, exec (intBoth (.ref a) b c op) w = (.ok (), v) ∧
      Carries [⟨.made w.next, []⟩, ⟨.made (w.next + 1), []⟩,
        link false op a (.made w.next) (.made (w.next + 1)) none] (1 + (1 + 0)) w v := by
  let u := (w.grown .myInt).setInt (.made w.next) ⟨b, ""⟩
  have hd' : ¬ Throws op
      (((u.grown .myInt).setInt (.made u.next) ⟨c, ""⟩).ints (.made u.next)).val := by
    rw [ints_newInt, if_pos rfl]
    exact hd
  cases op with
  | add | sub | mul | div | mod =>
    exact carries_after_newInt (carries_after_newInt (vars_carries none rfl hd'))

theorem assign_carries {b : Ref} {name : String} {set : Option ℕ} :
    ∃ v, exec (Call.assign b name set).run w = (.ok (), v) ∧
      Carries [⟨.made w.next, [b]⟩] 1 w v := by
  let p := (w.grown .myInt).setInt (.made w.next) ⟨(w.int (.ref b)).val, name⟩
  have hif : exec (ifM (I.contains (.ref b)) (I.addTaintedVar (.ref (.made w.next)))) p =
      (.ok (), if [b].any w.tainted then p.taint (.made w.next) else p) := by
    have hb : exec (I.contains (.ref b)) p = (.ok (w.tainted b), p) := exec_contains rfl (.ref b)
    rw [List.any_cons, List.any_nil, Bool.or_false]
    cases ht : w.tainted b with
    | true =>
      rw [if_pos rfl]
      exact exec_ifM_of_true (hb.trans (by rw [ht]))
    | false =>
      rw [if_neg Bool.false_ne_true]
      exact exec_ifM_of_false (hb.trans (by rw [ht]))
  have hc : Carries [⟨.made w.next, [b]⟩] 1 w
      (if [b].any w.tainted then p.taint (.made w.next) else p) :=
    carries_taint rfl rfl rfl
  have hassign : ∀ set, exec (I.myAssignInt (.ref b) name set) w = exec (do
      I.recordAssign .intAssign (.made w.next) (fun u => .int (u.ints (.made w.next)).val) set
      pure (.made w.next)) (if [b].any w.tainted then p.taint (.made w.next) else p) := by
    intro set
    have hrest := exec_bind_ok (k := fun _ => do
      I.recordAssign .intAssign (.made w.next) (fun u => .int (u.ints (.made w.next)).val) set
      pure (Ref.made w.next)) hif
    unfold I.myAssignInt
    rw [exec_bind_ok (exec_get w), exec_bind_ok (exec_newInt _ name w)]
    exact hrest
  cases set with
  | none => exact ⟨_, exec_bind_ok (hassign .absent), hc⟩
  | some x => exact ⟨_, exec_bind_ok (hassign (.given (some x))), carries_noted hc⟩

namespace Call

theorem run_carries {c : Call} (hw : w.taintSet.isSome) (hd : c.Defined w) :
    ∃ v, exec c.run w = (.ok (), v) ∧ Carries (c.links false w.next) c.objects w v := by
  cases c with
  | vars op a b c set => exact vars_carries set hw hd
  | intRight op a b c set => exact intRight_carries hd
  | intLeft op a b c => exact intLeft_carries hd
  | intBoth op a b c => exact intBoth_carries hd
  | assign b name set => exact assign_carries

end Call

theorem runAll_carries (calls : List Call) (hw : w.taintSet.isSome) (hd : Defined w calls) :
    ∃ v n, exec (runAll calls) w = (.ok (), v) ∧ Carries (links false w.next calls) n w v := by
  induction calls generalizing w with
  | nil => exact ⟨w, 0, rfl, .refl hw⟩
  | cons c calls ih =>
    obtain ⟨hc, hrest⟩ := hd
    obtain ⟨v, hv, hcarries⟩ := Call.run_carries hw hc
    rw [hv] at hrest
    obtain ⟨u, n, hu, hcarries'⟩ := ih hcarries.taintSet hrest
    rw [hcarries.next] at hcarries'
    exact ⟨u, _, (exec_bind_ok hv).trans hu, hcarries.trans hcarries'⟩

def World.withTaintSet (w : World) (t : Finset Ref) : World := { w with taintSet := some t }

/-- All that the calls compute from `t`, through any chain, is in `taintSet` at the end. -/
def Closed (keep : Bool) (w : World) (t : Finset Ref) (calls : List Call) (v : World) : Prop :=
  ∀ s ∈ t, ∀ r, Flows keep (links true w.next calls) s r → v.tainted r = true

/-- Taint is closed under the flow exactly if what comes from `t` also comes from `t` by a
chain that never goes from the first operand of an `I.myDel` without a set to its
destination. Here `keep` says whether a value that has been overwritten counts. -/
theorem closed_iff (keep : Bool) (w : World) (t : Finset Ref) (calls : List Call)
    (hd : Defined (World.withTaintSet w t) calls) :
    (∃ v, exec (runAll calls) (World.withTaintSet w t) = (.ok (), v) ∧ Closed keep w t calls v) ↔
      ∀ s ∈ t, ∀ r, Flows keep (links true w.next calls) s r →
        ∃ s' ∈ t, Flows true (links false w.next calls) s' r := by
  obtain ⟨v, n, hv, hcarries⟩ := runAll_carries calls (w := World.withTaintSet w t) rfl hd
  have htainted : ∀ r, v.tainted r = true ↔
      ∃ s ∈ t, Flows true (links false w.next calls) s r := by
    intro r
    have hmem : ∀ s, (World.withTaintSet w t).tainted s = true ↔ s ∈ t :=
      fun s => decide_eq_true_iff
    refine (hcarries.tainted r).trans ?_
    simp only [hmem]
    rfl
  constructor
  · intro ⟨v', hv', hclosed⟩ s hs r hr
    obtain rfl : v' = v := congrArg Prod.snd (hv'.symm.trans hv)
    exact (htainted r).mp (hclosed s hs r hr)
  · intro h
    exact ⟨v, hv, fun s hs r hr => (htainted r).mpr (h s hs r hr)⟩

theorem closed_iff_myMod_myDel :
    let calls : List Call := [.intRight .mod (.var 1) (.var 2) 5 none,
      .intRight .sub (.var 3) (.var 1) 7 (some 0)]
    (∃ v, exec (runAll calls) (World.withTaintSet Runs.start {.var 2}) = (.ok (), v) ∧
      Closed false Runs.start {.var 2} calls v) ↔
      ∀ s ∈ ({.var 2} : Finset Ref), ∀ r, Flows false (links true Runs.start.next calls) s r →
        ∃ s' ∈ ({.var 2} : Finset Ref), Flows true (links false Runs.start.next calls) s' r := by
  have hd : Defined (World.withTaintSet Runs.start {.var 2})
      [.intRight .mod (.var 1) (.var 2) 5 none, .intRight .sub (.var 3) (.var 1) 7 (some 0)] :=
    ⟨(by decide : (5 : Int32) ≠ 0), id, trivial⟩
  exact closed_iff false Runs.start {.var 2} _ hd

/-- The difference of a tainted object and a literal is lost. -/
theorem not_closed_myDel : ¬ ∃ v,
    exec (runAll [.intRight .sub (.var 1) (.var 2) 5 none])
      (World.withTaintSet Runs.start {.var 2}) = (.ok (), v) ∧
    Closed false Runs.start {.var 2} [.intRight .sub (.var 1) (.var 2) 5 none] v := by
  intro ⟨v, hv, hclosed⟩
  have hrest := hclosed (.var 2) (Finset.mem_singleton_self _) (.var 1)
    ⟨.var 2, .inl ⟨rfl, .inr nofun⟩, .var 1, .inr ⟨rfl, List.mem_cons_self⟩, rfl⟩
  obtain rfl := congrArg Prod.snd hv
  revert hrest
  decide +kernel

end EcaEngines.Closure
