import EcaEngines.Effects
import EcaEngines.DirectFinal

/-!
# The operations of the recording runtime, one by one

What each call of class `I` that the engine makes leaves behind, and from it what
a condition of the engine does: it records into its set, gives that set two new
children, and answers what it computes from the variables and `cf`.
-/
namespace EcaEngines.Operations
open Imperative Recording Effects DirectFinal
open BoundedInt (Op)
open Instrumented (Throws)

variable {u v w : World} {x : ℕ}

/-- `v` was written into the boolean register `a`, which is tainted now if it was
or `t` says so. -/
structure Decided (x a : ℕ) (b t : Bool) (u v : World) : Prop where
  quiet : Quiet x u v
  val : (v.bools (.bool a)).val = b
  bools : ∀ n, n ≠ a → v.bools (.bool n) = u.bools (.bool n)
  taintedVar : ∀ n, v.tainted (.var n) = u.tainted (.var n)
  tainted : ∀ n, v.tainted (.bool n) = (u.tainted (.bool n) || (t && decide (n = a)))

/-- What comes before may change anything but the registers. -/
theorem Decided.of_quiet {a : ℕ} {b t : Bool} (h : Quiet x u v)
    (hb : ∀ n, v.bools (.bool n) = u.bools (.bool n))
    (ht : v.tainted = u.tainted) (k : Decided x a b t v w) : Decided x a b t u w where
  quiet := h.trans k.quiet
  val := k.val
  bools n hn := (k.bools n hn).trans (hb n)
  taintedVar n := by rw [k.taintedVar, ht]
  tainted n := by rw [k.tainted, ht]

/-- A record adds nothing to what a comparison does. -/
theorem Decided.noted {a : ℕ} {b t : Bool} {br : Branch} (h : Decided x a b t u v)
    (hb : Shown br) : Decided x a b t u (noted x br v) :=
  ⟨h.quiet.trans (quiet_noted hb), h.val, h.bools, h.taintedVar, h.tainted⟩

theorem Decided.taint {a : ℕ} {b : Bool} (h : Decided x a b false u v) (hv : v.taintSet.isSome)
    (t : Bool) : Decided x a b t u (if t then v.taint (.bool a) else v) := by
  cases t with
  | false => exact h
  | true =>
    refine ⟨h.quiet.trans (quiet_taint hv (fun s hs => hs.ne_bool a) (by simp)), h.val, h.bools,
      fun n => ?_, fun n => ?_⟩
    · rw [if_pos rfl, tainted_taint _ _ hv, h.taintedVar]
      simp
    · rw [if_pos rfl, tainted_taint _ _ hv, h.tainted]
      simp

theorem decided_setBool (a : ℕ) (b : Bool) (w : World) :
    Decided x a b false w (w.setBool (.bool a) { w.bools (.bool a) with val := b }) where
  quiet := quiet_setBool a _
  val := by simp [World.setBool]
  bools n hn := by simp [World.setBool, hn]
  taintedVar _ := rfl
  tainted n := by rw [Bool.false_and, Bool.or_false]; rfl

/-- The world after the write of a comparison. -/
def written (a : ℕ) (val : World → Bool) (w : World) : World :=
  w.setBool (.bool a) { w.bools (.bool a) with val := val w }

theorem written_eval (a : ℕ) (val : World → Bool) (w : World) (b : Arg) :
    (written a val w).eval b = w.eval b := eval_congr rfl b

theorem decided_written (a : ℕ) (val : World → Bool) (w : World) :
    Decided x a (val w) false w (written a val w) := decided_setBool a (val w) w

theorem exec_decideBool {o : Operation} {a : ℕ} {b c : Arg} {val : World → Bool}
    {flags : Prog Unit} (h : exec flags (written a val w) = (.ok (), v)) :
    exec (I.decideBool o (.bool a) b c val flags (.given (some x))) w =
      (.ok (), noted x ⟨some (.bool (v.bools (.bool a)).val), some o, some (v.eval b),
        some (v.eval c), none⟩ v) := by
  have hw : exec (modify fun w => w.setBool (w.eval (.bool a))
      { w.boolean (.bool a) with val := val w } : Prog Unit) w = (.ok (), written a val w) := rfl
  unfold I.decideBool
  rw [exec_bind_ok hw, exec_bind_ok h]
  rfl

/-- A test with literal operands, and so with a new object for each. -/
theorem decided_newInt {a : ℕ} {b t : Bool} (k : Int32)
    (h : Decided x a b t ((w.grown .myInt).setInt (.made w.next) ⟨k, ""⟩) v) :
    Decided x a b t w v :=
  .of_quiet (quiet_newInt k "") (fun _ => rfl) rfl h

theorem decided_newString {a : ℕ} {b t : Bool} (s : MyString)
    (h : Decided x a b t ((w.grown .myString).setString (.made w.next) s) v) :
    Decided x a b t w v :=
  .of_quiet (quiet_newString s) (fun _ => rfl) rfl h

theorem decideBool_decided {o : Operation} {a : ℕ} {b c : Arg} {val : World → Bool} :
    ∃ v, exec (I.decideBool o (.bool a) b c val (pure ()) (.given (some x))) w = (.ok (), v) ∧
      Decided x a (val w) false w v :=
  ⟨_, exec_decideBool (exec_pure _ _), (decided_setBool a (val w) w).noted ⟨rfl, rfl, rfl⟩⟩

theorem myEquals_decided {a : ℕ} {b c : Arg} :
    ∃ v, exec (I.myEquals (.bool a) b c (.given (some x))) w = (.ok (), v) ∧
      Decided x a ((w.string b).val == (w.string c).val) false w v :=
  decideBool_decided

theorem myLess_decided {a : ℕ} {b c : Arg} :
    ∃ v, exec (I.myLess (.bool a) b c (.given (some x))) w = (.ok (), v) ∧
      Decided x a ((w.int b).val < (w.int c).val) false w v :=
  decideBool_decided

theorem myGreaterEqual_decided {a : ℕ} {b c : Arg} :
    ∃ v, exec (I.myGreaterEqual (.bool a) b c (.given (some x))) w = (.ok (), v) ∧
      Decided x a ((w.int b).val ≥ (w.int c).val) false w v :=
  decideBool_decided

theorem myEqualsString_decided {a : ℕ} {b : Arg} (hb : Owned w (w.eval b)) (word : String) :
    ∃ v, exec (I.myEqualsString (.bool a) b word (.given (some x))) w = (.ok (), v) ∧
      Decided x a ((w.string b).val == word) false w v := by
  let u := (w.grown .myString).setString (.made w.next) ⟨word, 0, ""⟩
  have hl : (u.string b).val = (w.string b).val :=
    (quiet_newString (x := x) _).notes.objects.strings _ hb
  have hr : (u.string (.ref (.made w.next))).val = word := by
    simp [u, World.string, World.eval, World.setString]
  obtain ⟨v, hv, hd⟩ :=
    myEquals_decided (w := u) (x := x) (a := a) (b := b) (c := .ref (.made w.next))
  rw [hl, hr] at hd
  exact ⟨v, (exec_bind_ok (exec_newString word w)).trans hv, decided_newString _ hd⟩

/-- The literal is the first operand. -/
theorem myLessInt_decided {a : ℕ} {c : Arg} (hc : Owned w (w.eval c)) (k : Int32) :
    ∃ v, exec (I.myLessInt (.bool a) k c (.given (some x))) w = (.ok (), v) ∧
      Decided x a (k < (w.int c).val) false w v := by
  let u := (w.grown .myInt).setInt (.made w.next) ⟨k, ""⟩
  have hr : u.int c = w.int c := (quiet_newInt (x := x) k "").notes.objects.ints _ hc
  have hl : (u.int (.ref (.made w.next))).val = k := by
    simp [u, World.int, World.eval, World.setInt]
  obtain ⟨v, hv, hd⟩ :=
    myLess_decided (w := u) (x := x) (a := a) (b := .ref (.made w.next)) (c := c)
  rw [hl, hr] at hd
  exact ⟨v, (exec_bind_ok (exec_newInt k "" w)).trans hv, decided_newInt _ hd⟩

theorem myGreaterEqualInt_decided {a : ℕ} {c : Arg} (hc : Owned w (w.eval c)) (k : Int32) :
    ∃ v, exec (I.myGreaterEqualInt (.bool a) k c (.given (some x))) w = (.ok (), v) ∧
      Decided x a (k ≥ (w.int c).val) false w v := by
  let u := (w.grown .myInt).setInt (.made w.next) ⟨k, ""⟩
  have hr : u.int c = w.int c := (quiet_newInt (x := x) k "").notes.objects.ints _ hc
  have hl : (u.int (.ref (.made w.next))).val = k := by
    simp [u, World.int, World.eval, World.setInt]
  obtain ⟨v, hv, hd⟩ :=
    myGreaterEqual_decided (w := u) (x := x) (a := a) (b := .ref (.made w.next)) (c := c)
  rw [hl, hr] at hd
  exact ⟨v, (exec_bind_ok (exec_newInt k "" w)).trans hv, decided_newInt _ hd⟩

/-- This one makes no record, whatever set it is given. -/
theorem myLessEqualInt_decided {a : ℕ} {b : Arg} (hb : Owned w (w.eval b)) (k : Int32)
    (set : SetArg) :
    ∃ v, exec (I.myLessEqualInt (.bool a) b k set) w = (.ok (), v) ∧
      Decided x a ((w.int b).val ≤ k) false w v := by
  let u := (w.grown .myInt).setInt (.made w.next) ⟨k, ""⟩
  have hl : u.int b = w.int b := (quiet_newInt (x := x) k "").notes.objects.ints _ hb
  have hr : (u.int (.ref (.made w.next))).val = k := by
    simp [u, World.int, World.eval, World.setInt]
  have hd := decided_written (x := x) a
    (fun w' => (w'.int b).val ≤ (w'.int (.ref (.made w.next))).val) u
  rw [hl, hr] at hd
  exact ⟨_, exec_bind_ok (exec_newInt k "" w), decided_newInt k hd⟩

theorem exec_contains (h : w.taintSet.isSome) (r : Arg) :
    exec (I.contains r) w = (.ok (w.tainted (w.eval r)), w) := by
  obtain ⟨t, ht⟩ := Option.isSome_iff_exists.mp h
  unfold I.contains World.tainted
  rw [exec_bind_ok (exec_get w), ht]
  rfl

/-- No member of `taintSet` is a name. -/
theorem exec_containsName (h : w.taintSet.isSome) : exec I.containsName w = (.ok false, w) := by
  obtain ⟨t, ht⟩ := Option.isSome_iff_exists.mp h
  unfold I.containsName
  rw [exec_bind_ok (exec_get w), ht]
  rfl

theorem exec_taintIf {a : Arg} {p q : Prog Bool} {b c : Bool} (hp : exec p w = (.ok b, w))
    (hq : exec q w = (.ok c, w)) : exec (I.taintIf a p q) w =
      (.ok (), if b || c then w.taint (w.eval a) else w) := by
  have h : exec (do
      let b ← p
      if b then pure true else q) w = (.ok (b || c), w) := by
    rw [exec_bind_ok hp]
    cases b with
    | true => rfl
    | false => exact hq
  unfold I.taintIf
  cases hbc : b || c <;> rw [hbc] at h
  · exact exec_ifM_of_false h
  · exact exec_ifM_of_true h

theorem exec_propagate (h : w.taintSet.isSome) (a b c : Arg) : exec (I.propagate a b c) w =
    (.ok (), if w.tainted (w.eval b) || w.tainted (w.eval c) then w.taint (w.eval a) else w) :=
  exec_taintIf (exec_contains h b) (exec_contains h c)

/-- A new branch was added to `x`. -/
def Added (x : ℕ) (u v : World) : Prop :=
  ∃ m ∈ entries u v, At x u m ∧ u.made.length ≤ m.branch ∧ m.branch < v.made.length

/-- What a recorded conjunction leaves: the `Branch`, made and added. -/
structure Recorded (x : ℕ) (b : Branch) (u v : World) : Prop where
  made : b ∈ recorded u v
  added : Added x u v

theorem Decided.recorded {a : ℕ} {b t : Bool} {br : Branch} (h : Decided x a b t u v) :
    Recorded x br u (Effects.noted x br v) where
  made := by
    have hmem : br ∈ Effects.recorded v (Effects.noted x br v) := by
      simp [Effects.recorded, Effects.noted]
    exact recorded_mono h.quiet.notes.objects.made (List.prefix_refl _) hmem
  added := by
    obtain ⟨ms, hms, -⟩ := h.quiet.notes.moments
    have hentries : entries u (Effects.noted x br v) =
        ms ++ [⟨v.made.length, x, v.sets, v.latest⟩] := by
      simp only [entries, Effects.noted, hms, List.append_assoc, List.drop_left]
    refine ⟨⟨v.made.length, x, v.sets, v.latest⟩, ?_, ⟨rfl, h.quiet.notes.links,
      h.quiet.notes.latest⟩, h.quiet.notes.objects.made_length, ?_⟩
    · rw [hentries]
      exact List.mem_append_right _ (List.mem_singleton_self _)
    · simp [Effects.noted]

theorem myAnd_decided (hw : Valid w) (a : ℕ) (b c : Arg) :
    ∃ v, exec (I.myAnd (.bool a) b c (.given (some x))) w = (.ok (), v) ∧
      Decided x a ((w.boolean b).val && (w.boolean c).val)
        (w.tainted (w.eval b) || w.tainted (w.eval c)) w v ∧
      Recorded x ⟨some (.bool ((w.boolean b).val && (w.boolean c).val)), some .and,
        some (w.eval b), some (w.eval c), none⟩ w v := by
  let val : World → Bool := fun w => (w.boolean b).val && (w.boolean c).val
  have hd := (decided_written (x := x) a val w).taint hw.taintSet
    (w.tainted (w.eval b) || w.tainted (w.eval c))
  have hp : exec (I.propagate (.bool a) b c) (written a val w) = (.ok (),
      if w.tainted (w.eval b) || w.tainted (w.eval c) then (written a val w).taint (.bool a)
      else written a val w) := by
    rw [exec_propagate (w := written a val w) hw.taintSet, written_eval, written_eval]
    rfl
  have he := exec_decideBool (x := x) (o := .and) (b := b) (c := c) hp
  rw [hd.val, eval_congr hd.quiet.fields b, eval_congr hd.quiet.fields c] at he
  exact ⟨_, he, hd.noted ⟨rfl, rfl, rfl⟩, hd.recorded⟩

/-- Either order of the operands gives the same value and the same taint. -/
theorem andCf_decided (hw : Valid w) (a b : ℕ) (cfFirst : Bool) :
    ∃ v, exec (andCf (.bool a) (.bool b) cfFirst (some x)) w = (.ok (), v) ∧
      Decided x a ((w.bools (.bool b)).val && (w.boolean (.field .cf)).val)
        (w.tainted (.bool b) || w.tainted (w.fields .cf)) w v ∧ ∃ br, Recorded x br w v := by
  cases cfFirst with
  | true =>
    obtain ⟨v, he, hd, hr⟩ := myAnd_decided (x := x) hw a (.field .cf) (.bool b)
    rw [Bool.and_comm, Bool.or_comm] at hd
    exact ⟨v, he, hd, _, hr⟩
  | false =>
    obtain ⟨v, he, hd, hr⟩ := myAnd_decided (x := x) hw a (.bool b) (.field .cf)
    exact ⟨v, he, hd, _, hr⟩

/-- `i` was written into the integer register `a`, which is tainted now if it was or
`t` says so. -/
structure Computed (x a : ℕ) (i : Int32) (t : Bool) (u v : World) : Prop where
  quiet : Quiet x u v
  val : (v.ints (.var a)).val = i
  ints : ∀ n, n ≠ a → v.ints (.var n) = u.ints (.var n)
  tainted : ∀ n, v.tainted (.bool n) = u.tainted (.bool n)
  taintedVar : ∀ n, v.tainted (.var n) = (u.tainted (.var n) || (t && decide (n = a)))

/-- The world after the write of an operation. -/
def stored (a : ℕ) (i : Int32) (w : World) : World :=
  w.setInt (.var a) { w.ints (.var a) with val := i }

theorem computed_stored (a : ℕ) (i : Int32) (t : Bool) (hw : w.taintSet.isSome) :
    Computed x a i t w (if t then (stored a i w).taint (.var a) else stored a i w) := by
  have hq : Quiet x w (stored a i w) := quiet_setInt a _
  have hval : ((stored a i w).ints (.var a)).val = i := by simp [stored, World.setInt]
  have hints (n : ℕ) (hn : n ≠ a) : (stored a i w).ints (.var n) = w.ints (.var n) := by
    simp [stored, World.setInt, hn]
  cases t with
  | false => exact ⟨hq, hval, hints, fun _ => rfl, fun _ => by simp; rfl⟩
  | true =>
    have ht (r : Ref) : ((stored a i w).taint (.var a)).tainted r =
        (w.tainted r || decide (r = .var a)) := tainted_taint _ r hw
    refine ⟨hq.trans (quiet_taint hw (fun s hs => hs.ne_var a) (by simp)), hval, hints,
      fun n => ?_, fun n => ?_⟩
    · simp [ht]
    · simp [ht]

theorem Computed.noted {a : ℕ} {i : Int32} {t : Bool} {br : Branch} (h : Computed x a i t u v)
    (hb : Shown br) : Computed x a i t u (noted x br v) :=
  ⟨h.quiet.trans (quiet_noted hb), h.val, h.ints, h.tainted, h.taintedVar⟩

/-- What comes before may make an object. -/
theorem Computed.of_quiet {a : ℕ} {i : Int32} {t : Bool} (h : Quiet x u v)
    (hi : ∀ n, v.ints (.var n) = u.ints (.var n)) (ht : v.tainted = u.tainted)
    (k : Computed x a i t v w) : Computed x a i t u w where
  quiet := h.trans k.quiet
  val := k.val
  ints n hn := (k.ints n hn).trans (hi n)
  tainted n := by rw [k.tainted, ht]
  taintedVar n := by rw [k.taintedVar, ht]

/-- A set variable that is either absent or refers to `x`. -/
def Into (x : ℕ) (set : SetArg) : Prop := set = .absent ∨ set = .given (some x)

theorem into_absent : Into x .absent := .inl rfl

theorem into_given : Into x (.given (some x)) := .inr rfl

theorem arith_computed {op : Op} {o : Operation} {a : ℕ} {b c : Arg} {flags : Prog Unit}
    {set : SetArg} {t : Bool} (hw : w.taintSet.isSome) (hset : Into x set)
    (hc : ¬ Throws op (w.int c).val)
    (hflags : exec flags (stored a (op.eval (w.int b).val (w.int c).val) w) = (.ok (),
      let v := stored a (op.eval (w.int b).val (w.int c).val) w
      if t then v.taint (.var a) else v)) :
    ∃ v, exec (I.arith op o (.var a) b c flags set) w = (.ok (), v) ∧
      Computed x a (op.eval (w.int b).val (w.int c).val) t w v := by
  have hd := computed_stored (x := x) a (op.eval (w.int b).val (w.int c).val) t hw
  have hcompute : exec (I.compute op (.var a) b c) w =
      (.ok (), stored a (op.eval (w.int b).val (w.int c).val) w) := by
    unfold I.compute
    rw [exec_bind_ok (exec_ifM_of_false (by rw [exec_test, decide_eq_false hc]))]
    rfl
  unfold I.arith
  rw [exec_bind_ok hcompute, exec_bind_ok hflags]
  rcases hset with rfl | rfl
  · exact ⟨_, rfl, hd⟩
  · exact ⟨_, rfl, hd.noted ⟨rfl, rfl, rfl⟩⟩

/-- Every operation but the plain `I.myDel` looks up both operands. -/
theorem propagate_computed {op : Op} {o : Operation} {a : ℕ} {b c : Arg} {set : SetArg}
    (hw : w.taintSet.isSome) (hset : Into x set) (hc : ¬ Throws op (w.int c).val) :
    ∃ v, exec (I.arith op o (.var a) b c (I.propagate (.var a) b c) set) w = (.ok (), v) ∧
      Computed x a (op.eval (w.int b).val (w.int c).val)
        (w.tainted (w.eval b) || w.tainted (w.eval c)) w v := by
  refine arith_computed hw hset hc ?_
  rw [exec_propagate (w := stored a _ w) hw, eval_congr (v := stored a _ w) (u := w) rfl b,
    eval_congr (v := stored a _ w) (u := w) rfl c]
  rfl

/-- The plain `I.myDel` looks up the second operand only. -/
theorem plain_myDel_computed {a : ℕ} {b c : Arg} (hw : w.taintSet.isSome) :
    ∃ v, exec (I.myDel (.var a) b c) w = (.ok (), v) ∧
      Computed x a (Op.sub.eval (w.int b).val (w.int c).val) (w.tainted (w.eval c)) w v := by
  refine arith_computed hw (.inl rfl) id ?_
  have hname := exec_containsName
    (w := stored a (Op.sub.eval (w.int b).val (w.int c).val) w) hw
  refine (exec_taintIf hname (exec_contains (w := stored a _ w) hw c)).trans ?_
  rw [Bool.false_or, eval_congr (v := stored a _ w) (u := w) rfl c]
  rfl

/-- No integer variable is tainted. -/
structure Untainted (w : World) : Prop where
  var : ∀ n, w.tainted (.var n) = false
  a422009172 : w.tainted (w.fields .a422009172) = false
  a2108127495 : w.tainted (w.fields .a2108127495) = false
  a1522448132 : w.tainted (w.fields .a1522448132) = false

/-- What the engine calculates with: registers and the integer fields. -/
inductive Operand : Arg → Prop
  | var (n : ℕ) : Operand (.var n)
  | a422009172 : Operand (.field .a422009172)
  | a2108127495 : Operand (.field .a2108127495)
  | a1522448132 : Operand (.field .a1522448132)

theorem Operand.ne_next {b : Arg} (hb : Operand b) (hw : Valid w) : w.eval b ≠ .made w.next := by
  cases hb with
  | var n => exact nofun
  | _ => exact (hw.fields _).ne_next

theorem Operand.untainted {b : Arg} (hb : Operand b) (hw : Untainted w) :
    w.tainted (w.eval b) = false := by
  cases hb with
  | var n => exact hw.var n
  | a422009172 => exact hw.a422009172
  | a2108127495 => exact hw.a2108127495
  | a1522448132 => exact hw.a1522448132

/-- The operation writes `f` into the register `a`, records into `x` if at all, and
taints nothing as long as no integer is tainted. -/
def Computes (x : ℕ) (p : Prog Unit) (a : ℕ) (f : World → Int32) : Prop :=
  ∀ w, Valid w → ∃ v t, exec p w = (.ok (), v) ∧ Computed x a (f w) t w v ∧
    (Untainted w → t = false)

section
variable {a : ℕ} {b c : Arg} {set : SetArg} {k : Int32}

theorem computes_propagate {op : Op} {o : Operation} (hb : Operand b) (hc : Operand c)
    (hset : Into x set) (hop : ∀ k, ¬ Throws op k) :
    Computes x (I.arith op o (.var a) b c (I.propagate (.var a) b c) set) a
      fun w => op.eval (w.int b).val (w.int c).val := by
  intro w hw
  obtain ⟨v, hv, hd⟩ := propagate_computed (o := o) hw.taintSet hset (hop (w.int c).val)
  exact ⟨v, _, hv, hd, fun hu => by rw [hb.untainted hu, hc.untainted hu, Bool.or_false]⟩

theorem computes_myMul (hb : Operand b) (hc : Operand c) (hset : Into x set) :
    Computes x (I.myMul (.var a) b c set) a
      fun w => Op.mul.eval (w.int b).val (w.int c).val :=
  computes_propagate hb hc hset fun _ => id

/-- A literal operand is a new object, which is not tainted. -/
theorem computes_literal {op : Op} {p : Ref → Prog Unit} (hb : Operand b)
    (hp : ∀ w r, w.taintSet.isSome → (w.int (.ref r)).val = k → ∃ v t, exec (p r) w = (.ok (), v) ∧
      Computed x a (op.eval (w.int b).val k) t w v ∧
        (t = true → w.tainted (w.eval b) = true ∨ w.tainted r = true)) :
    Computes x (do
      let c ← MyInt.new k
      p c) a fun w => op.eval (w.int b).val k := by
  intro w hw
  let u := (w.grown .myInt).setInt (.made w.next) ⟨k, ""⟩
  have hl : u.int b = w.int b := Function.update_of_ne (hb.ne_next hw) _ _
  have hr : (u.int (.ref (.made w.next))).val = k := by
    simp [u, World.int, World.eval, World.setInt]
  obtain ⟨v, t, hv, hd, ht⟩ := hp u (.made w.next) rfl hr
  rw [hl] at hd
  refine ⟨v, t, (exec_bind_ok (exec_newInt k "" w)).trans hv,
    .of_quiet (quiet_newInt k "") (fun _ => rfl) rfl hd, fun hu => ?_⟩
  have hb' : u.tainted (u.eval b) = false := by
    rw [eval_congr (v := u) (u := w) rfl b]
    exact hb.untainted (w := w) hu
  have hr' : u.tainted (.made w.next) = false := hw.tainted_next
  cases t with
  | false => rfl
  | true => rcases ht rfl with h | h <;> simp_all

theorem computes_literal_propagate {op : Op} {o : Operation} (hb : Operand b) (hset : Into x set)
    (hop : ¬ Throws op k) :
    Computes x (do
      let c ← MyInt.new k
      I.arith op o (.var a) b (.ref c) (I.propagate (.var a) b (.ref c)) set) a
      fun w => op.eval (w.int b).val k :=
  computes_literal hb fun w r hw hk => by
    obtain ⟨v, hv, hd⟩ := propagate_computed (o := o) (a := a) (b := b) (c := .ref r) hw hset
      (hk ▸ hop)
    rw [hk] at hd
    exact ⟨v, _, hv, hd, fun ht => Bool.or_eq_true _ _ ▸ ht⟩

theorem computes_myAddInt (hb : Operand b) (hset : Into x set) :
    Computes x (I.myAddInt (.var a) b k set) a fun w => Op.add.eval (w.int b).val k :=
  computes_literal_propagate hb hset id

theorem computes_myMulInt (hb : Operand b) (hset : Into x set) :
    Computes x (I.myMulInt (.var a) b k set) a fun w => Op.mul.eval (w.int b).val k :=
  computes_literal_propagate hb hset id

theorem computes_myDivInt (hb : Operand b) (hk : k ≠ 0) :
    Computes x (I.myDivInt (.var a) b k set) a fun w => Op.div.eval (w.int b).val k :=
  computes_literal_propagate hb (.inl rfl) hk

theorem computes_myModInt (hb : Operand b) (hk : k ≠ 0) :
    Computes x (I.myModInt (.var a) b k set) a fun w => Op.mod.eval (w.int b).val k :=
  computes_literal_propagate hb (.inl rfl) hk

theorem computes_myDelInt (hb : Operand b) (hset : Into x set) :
    Computes x (I.myDelInt (.var a) b k set) a fun w => Op.sub.eval (w.int b).val k := by
  rcases hset with rfl | rfl
  · refine computes_literal hb fun w r hw hk => ?_
    obtain ⟨v, hv, hd⟩ := plain_myDel_computed (x := x) (a := a) (b := b) (c := .ref r) hw
    rw [hk] at hd
    exact ⟨v, _, hv, hd, .inr⟩
  · exact computes_literal_propagate hb (.inr rfl) id

end

/-- `x` has become `s`, and there may be new sets without members. -/
structure Regrown (x : ℕ) (s : BranchSet) (u v : World) : Prop where
  rest : v = { u with sets := v.sets, nextSet := v.nextSet }
  nextSet : u.nextSet ≤ v.nextSet
  self : v.sets x = s
  others : ∀ y < u.nextSet, y ≠ x → v.sets y = u.sets y
  fresh : ∀ y, u.nextSet ≤ y → y < v.nextSet → v.sets y = .new
  beyond : ∀ y, v.nextSet ≤ y → v.sets y = u.sets y

theorem Regrown.trans {s t : BranchSet} (hx : x < u.nextSet) (h : Regrown x s u v)
    (k : Regrown x t v w) : Regrown x t u w where
  rest := by rw [k.rest, h.rest]
  nextSet := h.nextSet.trans k.nextSet
  self := k.self
  others y hy hne := by
    have hy' : y < v.nextSet := hy.trans_le h.nextSet
    rw [k.others y hy' hne, h.others y hy hne]
  fresh y hy hlt := by
    by_cases hv : y < v.nextSet
    · have hne : y ≠ x := by omega
      rw [k.others y hv hne, h.fresh y hy hv]
    · exact k.fresh y (by omega) hlt
  beyond y hy := by
    have hle := k.nextSet
    rw [k.beyond y hy, h.beyond y (by omega)]

theorem make_regrown (hx : x < w.nextSet) :
    ∃ v, exec BranchSet.make w = (.ok w.nextSet, v) ∧ v.nextSet = w.nextSet + 1 ∧
      Regrown x (w.sets x) w v := by
  refine ⟨_, rfl, rfl, rfl, Nat.le_succ _, Function.update_of_ne (by omega) _ _,
    fun y hy _ => Function.update_of_ne (by omega) _ _, fun y hy hlt => ?_, fun y hy => ?_⟩
  · have hy' : y = w.nextSet := Nat.le_antisymm (Nat.le_of_lt_succ hlt) hy
    subst hy'
    exact Function.update_self _ _ _
  · have hne : y ≠ w.nextSet := Nat.ne_of_gt hy
    exact Function.update_of_ne hne _ _

theorem setSet_regrown (hx : x < w.nextSet) (s : BranchSet) : Regrown x s w (w.setSet x s) where
  rest := rfl
  nextSet := le_refl _
  self := Function.update_self _ _ _
  others _ _ hne := Function.update_of_ne hne _ _
  fresh _ hy hlt := absurd hlt (Nat.not_lt.mpr hy)
  beyond y hy := by
    have hne : y ≠ x := Nat.ne_of_gt (hx.trans_le hy)
    exact Function.update_of_ne hne _ _

/-- `addLeftSet` and `addRightSet`, with the member they are about as a parameter:
where it is null it gets a new set first. -/
theorem attach_regrown (side : BranchSet → Option ℕ) (put : ℕ → BranchSet → BranchSet)
    (hx : x < w.nextSet) (hput : ∀ s t b, put s (put t b) = put s b) (s : ℕ) :
    ∃ v, exec (do
        ifM (test fun w => (side (w.sets x)).isNone) do
          let t ← BranchSet.make
          modify fun w => w.setSet x (put t (w.sets x))
        modify fun w => w.setSet x (put s (w.sets x)) : Prog Unit) w = (.ok (), v) ∧
      Regrown x (put s (w.sets x)) w v := by
  let fill : Prog Unit := do
    let t ← BranchSet.make
    modify fun w => w.setSet x (put t (w.sets x))
  have hif := exec_ifM_test (fun w => (side (w.sets x)).isNone) fill w
  cases hn : (side (w.sets x)).isNone <;> simp only [hn] at hif
  · exact ⟨_, exec_bind_ok hif, setSet_regrown hx _⟩
  · obtain ⟨v, hv, -, hr⟩ := make_regrown hx
    have hfill : exec fill w = (.ok (), v.setSet x (put w.nextSet (v.sets x))) := exec_bind_ok hv
    have hx' : x < v.nextSet := hx.trans_le hr.nextSet
    have h₁ := hr.trans hx (setSet_regrown hx' (put w.nextSet (v.sets x)))
    have h₂ := h₁.trans hx
      (setSet_regrown (w := v.setSet x _) hx' (put s (put w.nextSet (v.sets x))))
    rw [hput, hr.self] at h₂
    refine ⟨_, (exec_bind_ok (hif.trans hfill)).trans ?_, h₂⟩
    rw [exec_modify, h₁.self, hput, hr.self]

theorem addLeftSet_regrown (hx : x < w.nextSet) (s : ℕ) :
    ∃ v, exec (BranchSet.addLeftSet (some x) s) w = (.ok (), v) ∧
      Regrown x { w.sets x with leftSet := some s } w v :=
  attach_regrown BranchSet.leftSet (fun s b => { b with leftSet := some s }) hx
    (fun _ _ _ => rfl) s

theorem addRightSet_regrown (hx : x < w.nextSet) (s : ℕ) :
    ∃ v, exec (BranchSet.addRightSet (some x) s) w = (.ok (), v) ∧
      Regrown x { w.sets x with rightSet := some s } w v :=
  attach_regrown BranchSet.rightSet (fun s b => { b with rightSet := some s }) hx
    (fun _ _ _ => rfl) s

/-- `x` was decided: it has two new children, and nothing else about sets, records
and registers has changed. -/
structure Split (x : ℕ) (b : Bool) (l r : ℕ) (u v : World) : Prop where
  objects : Extends u v
  valid : Valid u → Valid v
  fields : v.fields = u.fields
  bools : v.bools = u.bools
  taintSet : v.taintSet = u.taintSet
  made : v.made = u.made
  moments : v.moments = u.moments
  out : v.out = u.out
  decisions : v.decisions = u.decisions ++ [b]
  latest : v.latest = Function.update u.latest x (some b)
  self : v.sets x = ⟨(u.sets x).branches, some l, some r⟩
  left : u.nextSet ≤ l
  order : l < r
  right : r < v.nextSet
  others : ∀ y < u.nextSet, y ≠ x → v.sets y = u.sets y
  fresh : ∀ y, u.nextSet ≤ y → y < v.nextSet → v.sets y = .new
  beyond : ∀ y, v.nextSet ≤ y → v.sets y = u.sets y

/-- The children that `I.myIf` hangs in, before it goes on with `k`. -/
theorem children_regrown (hx : x < w.nextSet) : ∃ l r v, (∀ k : Prog Bool, exec (do
      let l ← BranchSet.make
      BranchSet.addLeftSet (some x) l
      let r ← BranchSet.make
      BranchSet.addRightSet (some x) r
      k) w = exec k v) ∧
    Regrown x ⟨(w.sets x).branches, some l, some r⟩ w v ∧
    w.nextSet ≤ l ∧ l < r ∧ r < v.nextSet := by
  obtain ⟨w₁, h₁, hn₁, hr₁⟩ := make_regrown hx
  obtain ⟨w₂, h₂, hr₂⟩ := addLeftSet_regrown (hx.trans_le hr₁.nextSet) w.nextSet
  have hr := hr₁.trans hx hr₂
  obtain ⟨w₃, h₃, hn₃, hr₃⟩ := make_regrown (hx.trans_le hr.nextSet)
  have hr' := hr.trans hx hr₃
  obtain ⟨w₄, h₄, hr₄⟩ := addRightSet_regrown (hx.trans_le hr'.nextSet) w₂.nextSet
  have h := hr'.trans hx hr₄
  rw [hr₃.self, hr₂.self, hr₁.self] at h
  refine ⟨_, _, w₄, fun k => ?_, h, le_refl _, ?_, ?_⟩
  · rw [exec_bind_ok h₁, exec_bind_ok h₂, exec_bind_ok h₃, exec_bind_ok h₄]
  · have hle := hr₂.nextSet
    omega
  · have hle := hr₄.nextSet
    omega

/-- One more decision on the input string. -/
def deepened (a : Ref) (w : World) : World :=
  w.setString a { w.strings a with depth := (w.strings a).depth + 1 }

theorem extends_deepened (a : Ref) (w : World) : Extends w (deepened a w) where
  next := le_refl _
  ints _ _ := rfl
  bools _ _ := rfl
  strings r _ := by
    by_cases h : r = a
    · subst h
      simp [deepened, World.setString]
    · simp [deepened, World.setString, h]
  tainted _ _ := rfl
  made := List.prefix_refl _
  var := rfl

/-- What `I.myIf` does once the children are there. -/
def settled (x : ℕ) (b : Bool) (input : Ref) (w : World) : World :=
  let u := { w with latest := Function.update w.latest x (some b) }
  if b then deepened input u else u

theorem extends_settled (x : ℕ) (b : Bool) (input : Ref) (w : World) :
    Extends w (settled x b input w) := by
  have hu : Extends w { w with latest := Function.update w.latest x (some b) } :=
    ⟨le_refl _, fun _ _ => rfl, fun _ _ => rfl, fun _ _ => rfl, fun _ _ => rfl,
      List.prefix_refl _, rfl⟩
  cases b with
  | false => exact hu
  | true => exact hu.trans (extends_deepened input _)

theorem settled_rest (x : ℕ) (b : Bool) (input : Ref) (w : World) :
    settled x b input w = { w with
      strings := (settled x b input w).strings
      latest := Function.update w.latest x (some b) } := by
  cases b <;> rfl

theorem exec_myIf_end {a input : Arg} {b : Bool} (hb : (w.boolean a).val = b) :
    exec (do
      let x ← BranchSet.deref (some x)
      modify fun w => { w with latest := Function.update w.latest x (some (w.boolean a).val) }
      ifM (test fun w => (w.boolean a).val) do
        modify fun w => w.setString (w.eval input)
          { w.string input with depth := (w.string input).depth + 1 }
      test fun w => (w.boolean a).val : Prog Bool) w =
        (.ok b, settled x b (w.eval input) w) := by
  let u : World := { w with latest := Function.update w.latest x (some b) }
  have hu : (u.boolean a).val = b := by cases a <;> exact hb
  have hif := exec_ifM_test (fun w => (w.boolean a).val) (modify fun w => w.setString (w.eval input)
    { w.string input with depth := (w.string input).depth + 1 } : Prog Unit) u
  refine (exec_bind_ok (exec_pure x w)).trans ?_
  rw [exec_bind_ok (exec_modify _ w), hb]
  cases b <;> simp only [hu] at hif
  · rw [exec_bind_ok hif, exec_test, hu]
    rfl
  · have hd : ((deepened (u.eval input) u).boolean a).val = true := by cases a <;> exact hb
    have heval : u.eval input = w.eval input := by cases input <;> rfl
    refine (exec_bind_ok hif).trans ?_
    rw [exec_test, ← heval]
    exact Prod.ext (congrArg Except.ok hd) rfl

theorem myIf_split (hx : x < w.nextSet) (a input : Arg) :
    ∃ l r v, exec (I.myIf a input (some x)) w = (.ok (w.boolean a).val, v) ∧
      Split x (w.boolean a).val l r w v := by
  obtain ⟨b, hb⟩ : ∃ b, (w.boolean a).val = b := ⟨_, rfl⟩
  obtain ⟨l, r, w₁, h₁, hr, hl, hlr, hrn⟩ :=
    children_regrown (w := { w with decisions := w.decisions ++ [b] }) hx
  have hb' : (w₁.boolean a).val = b := by
    rw [hr.rest, ← hb]
    cases a <;> rfl
  have he : exec (I.myIf a input (some x)) w = (.ok b, settled x b (w₁.eval input) w₁) := by
    unfold I.myIf
    rw [exec_bind_ok (exec_modify _ w), hb, h₁, exec_myIf_end hb']
  have hw₁ : Extends w w₁ := by
    rw [hr.rest]
    exact ⟨le_refl _, fun _ _ => rfl, fun _ _ => rfl, fun _ _ => rfl, fun _ _ => rfl,
      List.prefix_refl _, rfl⟩
  have hobjects := hw₁.trans (extends_settled x b (w₁.eval input) w₁)
  have hrest := settled_rest x b (w₁.eval input) w₁
  generalize settled x b (w₁.eval input) w₁ = v at he hobjects hrest
  have hv : v = { w with
      strings := v.strings
      sets := w₁.sets
      nextSet := w₁.nextSet
      decisions := w.decisions ++ [b]
      latest := Function.update w.latest x (some b) } := by
    rw [hrest, hr.rest]
  rw [hb]
  refine ⟨l, r, v, he, hobjects, ?_, ?_, ?_, ?_, ?_, ?_, ?_, ?_, ?_, ?_, hl, hlr, ?_, ?_, ?_, ?_⟩
  all_goals rw [hv]
  · exact fun h => ⟨h.fields, h.taintSet, h.members⟩
  · exact hr.self
  · exact hrn
  · exact hr.others
  · exact hr.fresh
  · exact hr.beyond

end EcaEngines.Operations
