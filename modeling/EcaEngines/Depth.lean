import EcaEngines.Loops

/-!
# The depth of an input

`I.myIf` counts the decisions that are true on its input, and nothing else changes the
depth of an object.
-/
namespace EcaEngines.Depth
open Imperative Recording Effects Operations Conditions Trees Simulation Regions DirectFinal Loops
open BranchSet (getLeftSet getRightSet make deref addBranch addLeftSet addRightSet)
open BoundedInt (Op)
open Original (Throwable Vars noTransition)
open Transitions (Transition)
open Instrumented (Throws)

variable {u v w : World} {r : Ref}

/-- No decision was taken, and no string object that existed has changed. -/
structure Still (u v : World) : Prop where
  next : u.next ≤ v.next
  decisions : v.decisions = u.decisions
  strings : ∀ r, Owned u r → v.strings r = u.strings r

theorem Still.refl (w : World) : Still w w := ⟨le_refl _, rfl, fun _ _ => rfl⟩

theorem Still.trans (h : Still u v) (k : Still v w) : Still u w where
  next := h.next.trans k.next
  decisions := k.decisions.trans h.decisions
  strings r hr := (k.strings r (hr.mono h.next)).trans (h.strings r hr)

/-- The object `r` is deeper by the number of true decisions. -/
structure Deepened (r : Ref) (u v : World) : Prop where
  next : u.next ≤ v.next
  others : ∀ s, Owned u s → s ≠ r → v.strings s = u.strings s
  depth : Owned u r → ∃ ds, v.decisions = u.decisions ++ ds ∧
    (v.strings r).depth = (u.strings r).depth + Int32.ofNat (ds.count true)

theorem Still.deepened (h : Still u v) (r : Ref) : Deepened r u v where
  next := h.next
  others s hs _ := h.strings s hs
  depth hr := ⟨[], by rw [h.decisions, List.append_nil], by
    rw [h.strings r hr, List.count_nil]
    exact (Int32.add_zero _).symm⟩

theorem Deepened.trans (h : Deepened r u v) (k : Deepened r v w) : Deepened r u w where
  next := h.next.trans k.next
  others s hs hne := (k.others s (hs.mono h.next) hne).trans (h.others s hs hne)
  depth hr := by
    obtain ⟨ds, hds, hd⟩ := h.depth hr
    obtain ⟨es, hes, he⟩ := k.depth (hr.mono h.next)
    refine ⟨ds ++ es, by rw [hes, hds, List.append_assoc], ?_⟩
    rw [he, hd, List.count_append, Int32.ofNat_add, Int32.add_assoc]

/-- A null pointer may stop `I.myIf` halfway. -/
abbrev Stops (e : Throwable) : Prop := e = .nullPointer

abbrev Stills {α : Type} (p : Prog α) : Prop := Moves Still Stops p

abbrev Deepens {α : Type} (r : Ref) (p : Prog α) : Prop := Moves (Deepened r) Stops p

section
variable {α β : Type} {p : Prog α} {k : α → Prog β} {c : Prog Bool} {q : Prog Unit}

theorem stills_bind (hp : Stills p) (hk : ∀ a, Stills (k a)) : Stills (p >>= k) :=
  hp.bind Still.trans hk

theorem stills_pure (a : α) : Stills (pure a : Prog α) :=
  moves_of_exec (fun _ => rfl) Still.refl

theorem stills_throw (e : Throwable) : Stills (throw e : Prog α) :=
  moves_of_exec (fun _ => rfl) Still.refl

theorem stills_get : Stills (get : Prog World) := moves_of_exec (fun _ => rfl) Still.refl

theorem stills_test (b : World → Bool) : Stills (test b : Prog Bool) :=
  moves_of_exec (fun _ => rfl) Still.refl

theorem stills_modify {f : World → World} (h : ∀ w, Still w (f w)) :
    Stills (modify f : Prog PUnit) := moves_of_exec (fun _ => rfl) h

theorem stills_ifM (hc : Stills c) (hq : Stills q) : Stills (ifM c q) :=
  Moves.ifM Still.refl Still.trans hc hq

theorem Deepens.bind (hp : Deepens r p) (hk : ∀ a, Deepens r (k a)) : Deepens r (p >>= k) :=
  Moves.bind Deepened.trans hp hk

theorem deepens_of_stills (h : Stills p) : Deepens r p := h.mono fun _ _ hs => hs.deepened r

theorem Deepens.ifM (hc : Deepens r c) (hq : Deepens r q) : Deepens r (ifM c q) :=
  Moves.ifM (fun s => (Still.refl s).deepened r) Deepened.trans hc hq

end

theorem still_of_rest (hn : u.next ≤ v.next) (hd : v.decisions = u.decisions)
    (hs : v.strings = u.strings) : Still u v := ⟨hn, hd, fun _ _ => by rw [hs]⟩

theorem still_newString (s : MyString) (w : World) :
    Still w ((w.grown .myString).setString (.made w.next) s) :=
  ⟨Nat.le_succ _, rfl, fun _ hr => Function.update_of_ne hr.ne_next _ _⟩

theorem still_taint (r : Ref) (w : World) : Still w (w.taint r) :=
  still_of_rest (le_refl _) rfl rfl

theorem stills_newInt (val : Int32) (name : String) : Stills (MyInt.new val name) :=
  moves_of_exec (fun _ => rfl) fun _ => still_of_rest (Nat.le_succ _) rfl rfl

theorem stills_newBool2 (val : Bool) (name : String) : Stills (MyBool.new2 val name) :=
  moves_of_exec (fun _ => rfl) fun _ => still_of_rest (Nat.le_succ _) rfl rfl

theorem stills_newString (val : String) : Stills (MyString.new val) :=
  moves_of_exec (fun _ => rfl) (still_newString _)

theorem stills_newBool3 (val : Bool) (name : Option String) (br : Bool) :
    Stills (MyBool.new3 val name br) := by
  intro w r v h _
  cases br <;> obtain rfl := congrArg Prod.snd h <;> exact still_of_rest (Nat.le_succ _) rfl rfl

theorem stills_newString2 (val : String) (branch : Bool) : Stills (MyString.new2 val branch) := by
  intro w r v h _
  cases branch <;> obtain rfl := congrArg Prod.snd h
  · exact still_newString _ w
  · exact (still_newString _ w).trans (still_taint _ _)

theorem stills_newBranch (br : World → Branch) : Stills (Branch.new br) :=
  moves_of_exec (fun _ => rfl) fun _ => still_of_rest (le_refl _) rfl rfl

theorem stills_make : Stills make :=
  moves_of_exec (fun _ => rfl) fun _ => still_of_rest (le_refl _) rfl rfl

theorem stills_deref (set : SetVar) : Stills (deref set) := by
  cases set with
  | none => exact stills_throw _
  | some x => exact stills_pure x

theorem stills_getLeftSet (set : SetVar) : Stills (getLeftSet set) :=
  stills_bind (stills_deref set) fun _ => stills_bind stills_get fun _ => stills_pure _

theorem stills_getRightSet (set : SetVar) : Stills (getRightSet set) :=
  stills_bind (stills_deref set) fun _ => stills_bind stills_get fun _ => stills_pure _

theorem stills_addBranch (set : SetVar) (br : ℕ) : Stills (addBranch set br) :=
  stills_bind (stills_deref set) fun _ =>
    stills_modify fun _ => still_of_rest (le_refl _) rfl rfl

theorem stills_record (set : SetVar) (br : World → Branch) : Stills (I.record set br) :=
  stills_bind (stills_newBranch br) (stills_addBranch set)

theorem stills_contains (a : Arg) : Stills (I.contains a) := by
  refine stills_bind stills_get fun w => ?_
  cases w.taintSet with
  | none => exact stills_throw _
  | some t => exact stills_pure _

theorem stills_containsName : Stills I.containsName := by
  refine stills_bind stills_get fun w => ?_
  cases w.taintSet with
  | none => exact stills_throw _
  | some t => exact stills_pure _

theorem stills_addTaintedVar (a : Arg) : Stills (I.addTaintedVar a) :=
  stills_modify fun _ => still_taint _ _

theorem stills_taintIf (a : Arg) {p q : Prog Bool} (hp : Stills p) (hq : Stills q) :
    Stills (I.taintIf a p q) := by
  refine stills_ifM (stills_bind hp fun b => ?_) (stills_addTaintedVar a)
  cases b with
  | true => exact stills_pure true
  | false => exact hq

theorem stills_propagate (a b c : Arg) : Stills (I.propagate a b c) :=
  stills_taintIf a (stills_contains b) (stills_contains c)

theorem stills_recorded (set : SetArg) (br : World → Branch) :
    Stills (match set with
      | .absent => pure ()
      | .given set => I.record set br) := by
  cases set with
  | absent => exact stills_pure ()
  | given set => exact stills_record set br

theorem stills_arith (op : Op) (o : Operation) (a b c : Arg) {flags : Prog Unit} (set : SetArg)
    (hflags : Stills flags) : Stills (I.arith op o a b c flags set) := by
  have hcompute : Stills (I.compute op a b c) :=
    stills_bind (stills_ifM (stills_test _) (stills_throw _)) fun _ =>
      stills_modify fun _ => still_of_rest (le_refl _) rfl rfl
  exact stills_bind hcompute fun _ => stills_bind hflags fun _ => stills_recorded set _

theorem stills_decideBool (o : Operation) (a b c : Arg) (val : World → Bool) {flags : Prog Unit}
    (set : SetArg) (hflags : Stills flags) : Stills (I.decideBool o a b c val flags set) :=
  stills_bind (stills_modify fun _ => still_of_rest (le_refl _) rfl rfl) fun _ =>
    stills_bind hflags fun _ => stills_recorded set _

theorem stills_myAnd (a b c : Arg) (set : SetArg) : Stills (I.myAnd a b c set) :=
  stills_decideBool _ _ _ _ _ _ (stills_propagate a b c)

theorem stills_myDel (a b c : Arg) (set : SetArg) : Stills (I.myDel a b c set) := by
  refine stills_arith _ _ _ _ _ _ ?_
  cases set with
  | absent => exact stills_taintIf a stills_containsName (stills_contains c)
  | given set => exact stills_propagate a b c

theorem stills_myMul (a b c : Arg) (set : SetArg) : Stills (I.myMul a b c set) :=
  stills_arith _ _ _ _ _ _ (stills_propagate a b c)

theorem stills_myAddInt (a b : Arg) (c : Int32) (set : SetArg) : Stills (I.myAddInt a b c set) :=
  stills_bind (stills_newInt c "") fun _ => stills_arith _ _ _ _ _ _ (stills_propagate _ _ _)

theorem stills_myDelInt (a b : Arg) (c : Int32) (set : SetArg) : Stills (I.myDelInt a b c set) :=
  stills_bind (stills_newInt c "") fun _ => stills_myDel _ _ _ _

theorem stills_myMulInt (a b : Arg) (c : Int32) (set : SetArg) : Stills (I.myMulInt a b c set) :=
  stills_bind (stills_newInt c "") fun _ => stills_myMul _ _ _ _

theorem stills_myDivInt (a b : Arg) (c : Int32) (set : SetArg) : Stills (I.myDivInt a b c set) :=
  stills_bind (stills_newInt c "") fun _ => stills_arith _ _ _ _ _ _ (stills_propagate _ _ _)

theorem stills_myModInt (a b : Arg) (c : Int32) (set : SetArg) : Stills (I.myModInt a b c set) :=
  stills_bind (stills_newInt c "") fun _ => stills_arith _ _ _ _ _ _ (stills_propagate _ _ _)

theorem stills_myEqualsString (a b : Arg) (c : String) (set : SetArg) :
    Stills (I.myEqualsString a b c set) :=
  stills_bind (stills_newString c) fun _ => stills_decideBool _ _ _ _ _ _ (stills_pure ())

theorem stills_myLessInt (a : Arg) (b : Int32) (c : Arg) (set : SetArg) :
    Stills (I.myLessInt a b c set) :=
  stills_bind (stills_newInt b "") fun _ => stills_decideBool _ _ _ _ _ _ (stills_pure ())

theorem stills_myLessEqualInt (a b : Arg) (c : Int32) (set : SetArg) :
    Stills (I.myLessEqualInt a b c set) :=
  stills_bind (stills_newInt c "") fun _ => stills_decideBool _ _ _ _ _ _ (stills_pure ())

theorem stills_myGreaterEqualInt (a : Arg) (b : Int32) (c : Arg) (set : SetArg) :
    Stills (I.myGreaterEqualInt a b c set) :=
  stills_bind (stills_newInt b "") fun _ => stills_decideBool _ _ _ _ _ _ (stills_pure ())

theorem stills_recordAssign (o : Operation) (a : Ref) (out : World → Outcome) (set : SetArg) :
    Stills (I.recordAssign o a out set) := by
  cases set with
  | absent => exact stills_pure ()
  | given set => exact stills_record set _

theorem stills_myAssignBool (b : Arg) (set : SetArg) : Stills (I.myAssignBool b set) :=
  stills_bind (stills_contains b) fun _ => stills_bind stills_get fun _ =>
    stills_bind (stills_newBool3 _ _ _) fun _ => stills_bind (stills_recordAssign _ _ _ _) fun _ =>
    stills_pure _

theorem stills_myAssignInt (b : Arg) (name : String) (set : SetArg) :
    Stills (I.myAssignInt b name set) :=
  stills_bind stills_get fun _ => stills_bind (stills_newInt _ _) fun _ =>
    stills_bind (stills_ifM (stills_contains b) (stills_addTaintedVar _)) fun _ =>
    stills_bind (stills_recordAssign _ _ _ _) fun _ => stills_pure _

theorem stills_myAssignString (b : Arg) (set : SetArg) : Stills (I.myAssignString b set) :=
  stills_bind (stills_contains b) fun _ => stills_bind stills_get fun _ =>
    stills_bind (stills_newString2 _ _) fun _ => stills_bind (stills_recordAssign _ _ _ _) fun _ =>
    stills_pure _

theorem stills_myPrint (a : String) : Stills (I.myPrint a) :=
  stills_bind (stills_newString a) fun _ =>
    stills_modify fun _ => still_of_rest (le_refl _) rfl rfl

theorem stills_setField (f : Field) {e : Prog Ref} (he : Stills e) : Stills (setField f e) :=
  stills_bind he fun _ => stills_modify fun _ => still_of_rest (le_refl _) rfl rfl

theorem stills_setCf2 (b : Bool) (name : String) (set : SetArg) :
    Stills (setField .cf (do I.myAssignBool (.ref (← MyBool.new2 b name)) set)) :=
  stills_setField _ (stills_bind (stills_newBool2 b name) fun _ => stills_myAssignBool _ _)

theorem stills_setCf3 (b : Bool) (name : Option String) (br : Bool) (set : SetArg) :
    Stills (setField .cf (do I.myAssignBool (.ref (← MyBool.new3 b name br)) set)) :=
  stills_setField _ (stills_bind (stills_newBool3 b name br) fun _ => stills_myAssignBool _ _)

theorem stills_setString (val : String) (set : SetArg) :
    Stills (setField .a1745113960 (do I.myAssignString (.ref (← MyString.new val)) set)) :=
  stills_setField _ (stills_bind (stills_newString val) fun _ => stills_myAssignString _ _)

theorem stills_setString2 (val : String) (br : Bool) (set : SetArg) :
    Stills (setField .a1745113960 (do I.myAssignString (.ref (← MyString.new2 val br)) set)) :=
  stills_setField _ (stills_bind (stills_newString2 val br) fun _ => stills_myAssignString _ _)

theorem stills_setInt (f : Field) (b : Arg) (name : String) (set : SetArg) :
    Stills (setField f (I.myAssignInt b name set)) :=
  stills_setField f (stills_myAssignInt b name set)

/-- A block is a sequence of these. -/
theorem stills_block (set : SetVar) (t : Transition) : Stills (block set t) := by
  cases t <;> unfold block <;> with_reducible repeat' first
    | exact stills_getLeftSet _
    | exact stills_setCf2 _ _ _
    | exact stills_setCf3 _ _ _ _
    | exact stills_setString _ _
    | exact stills_setString2 _ _ _
    | exact stills_setInt _ _ _ _
    | exact stills_myMul _ _ _ _
    | exact stills_myAddInt _ _ _ _
    | exact stills_myDelInt _ _ _ _
    | exact stills_myMulInt _ _ _ _
    | exact stills_myDivInt _ _ _ _
    | exact stills_myModInt _ _ _ _
    | exact stills_myPrint _
    | refine stills_bind ?_ fun _ => ?_

theorem exec_addLeftSet (x l : ℕ) (w : World) :
    ∃ s n, exec (addLeftSet (some x) l) w = (.ok (), { w with sets := s, nextSet := n }) := by
  have hx : exec (deref (some x)) w = (.ok x, w) := rfl
  unfold addLeftSet
  rw [exec_bind_ok hx, exec_bind, exec_ifM_test]
  split_ifs <;> exact ⟨_, _, rfl⟩

theorem exec_addRightSet (x r : ℕ) (w : World) :
    ∃ s n, exec (addRightSet (some x) r) w = (.ok (), { w with sets := s, nextSet := n }) := by
  have hx : exec (deref (some x)) w = (.ok x, w) := rfl
  unfold addRightSet
  rw [exec_bind_ok hx, exec_bind, exec_ifM_test]
  split_ifs <;> exact ⟨_, _, rfl⟩

/-- Only the sets change before the input gets deeper. -/
theorem exec_myIf (x : ℕ) (a : Arg) (r : Ref) (w : World) :
    ∃ s n, exec (I.myIf a (.ref r) (some x)) w = (.ok (w.boolean a).val,
      settled x (w.boolean a).val r
        { w with decisions := w.decisions ++ [(w.boolean a).val], sets := s, nextSet := n }) := by
  let w₁ : World := { w with decisions := w.decisions ++ [(w.boolean a).val] }
  let w₂ : World := { w₁.setSet w.nextSet .new with nextSet := w.nextSet + 1 }
  have h₂ : exec make w₁ = (.ok w.nextSet, w₂) := rfl
  obtain ⟨s₃, n₃, h₃⟩ := exec_addLeftSet x w.nextSet w₂
  obtain ⟨s₅, n₅, h₅⟩ := exec_addRightSet x n₃
    { { w₂ with sets := s₃, nextSet := n₃ }.setSet n₃ .new with nextSet := n₃ + 1 }
  have h₄ : exec make { w₂ with sets := s₃, nextSet := n₃ } = (.ok n₃,
    { { w₂ with sets := s₃, nextSet := n₃ }.setSet n₃ .new with nextSet := n₃ + 1 }) := rfl
  refine ⟨s₅, n₅, ?_⟩
  unfold I.myIf
  rw [exec_bind_ok (exec_modify _ w), exec_bind_ok h₂, exec_bind_ok h₃, exec_bind_ok h₄,
    exec_bind_ok h₅]
  have hb : (({ w₁ with sets := s₅, nextSet := n₅ } : World).boolean a).val =
      (w.boolean a).val := by cases a <;> rfl
  exact exec_myIf_end hb

theorem deepened_settled (x : ℕ) (b : Bool) (r : Ref) (w : World) (s : ℕ → BranchSet) (n : ℕ) :
    Deepened r w (settled x b r
      { w with decisions := w.decisions ++ [b], sets := s, nextSet := n }) := by
  cases b with
  | false =>
    refine ⟨le_refl _, fun _ _ _ => rfl, fun _ => ⟨[false], rfl, ?_⟩⟩
    exact (Int32.add_zero _).symm
  | true =>
    refine ⟨le_refl _, fun s _ hne => Function.update_of_ne hne _ _, fun _ => ⟨[true], rfl, ?_⟩⟩
    change (Function.update w.strings r _ r).depth = _
    rw [Function.update_self]
    rfl

theorem deepens_myIf (a : Arg) (r : Ref) (set : SetVar) : Deepens r (I.myIf a (.ref r) set) := by
  intro w res v h hn
  cases set with
  | none =>
    obtain rfl : .error .nullPointer = res := congrArg Prod.fst h
    exact absurd rfl (hn _ rfl)
  | some x =>
    obtain ⟨s, n, he⟩ := exec_myIf x a r w
    obtain rfl := congrArg Prod.snd (he.symm.trans h)
    exact deepened_settled x _ r w s n

theorem stills_andCf (a b : Arg) (cfFirst : Bool) (set : SetVar) :
    Stills (andCf a b cfFirst set) := by
  cases cfFirst with
  | true => exact stills_myAnd a (.field .cf) b set
  | false => exact stills_myAnd a b (.field .cf) set

section
variable (r : Ref)

theorem deepens_equal (b : Arg) (word : String) (cfFirst : Bool) (set : SetVar) :
    Deepens r (equal b word cfFirst (.ref r) set) :=
  (deepens_of_stills (stills_myEqualsString _ _ _ _)).bind fun _ =>
    (deepens_of_stills (stills_andCf _ _ _ _)).bind fun _ => deepens_myIf _ r _

theorem deepens_between (lo hi : Int32) (c : Arg) (cfFirst : Bool) (set : SetVar) :
    Deepens r (between lo hi c cfFirst (.ref r) set) :=
  (deepens_of_stills (stills_myLessInt _ _ _ _)).bind fun _ =>
    (deepens_of_stills (stills_myGreaterEqualInt _ _ _ _)).bind fun _ =>
    (deepens_of_stills (stills_myAnd _ _ _ _)).bind fun _ =>
    (deepens_of_stills (stills_andCf _ _ _ _)).bind fun _ => deepens_myIf _ r _

theorem deepens_atMost (b : Arg) (c : Int32) (set : SetVar) :
    Deepens r (atMost b c (.ref r) set) :=
  (deepens_of_stills (stills_myLessEqualInt _ _ _ _)).bind fun _ =>
    (deepens_of_stills (stills_andCf _ _ _ _)).bind fun _ => deepens_myIf _ r _

theorem deepens_above (b : Int32) (c : Arg) (set : SetVar) :
    Deepens r (above b c (.ref r) set) :=
  (deepens_of_stills (stills_myLessInt _ _ _ _)).bind fun _ =>
    (deepens_of_stills (stills_andCf _ _ _ _)).bind fun _ => deepens_myIf _ r _

/-- The `if` of a transition. -/
theorem deepens_word (word : String) (cfFirst : Bool) (set : SetVar) (t : Transition) :
    Deepens r (ifM (equal (.ref r) word cfFirst (.ref r) set) (block set t)) :=
  (deepens_equal r _ _ _ _).ifM (deepens_of_stills (stills_block set t))

theorem deepens_left {α : Type} {set : SetVar} {k : SetVar → Prog α} (hk : ∀ s, Deepens r (k s)) :
    Deepens r (getLeftSet set >>= k) := (deepens_of_stills (stills_getLeftSet set)).bind hk

theorem deepens_right {α : Type} {set : SetVar} {k : SetVar → Prog α} (hk : ∀ s, Deepens r (k s)) :
    Deepens r (getRightSet set >>= k) := (deepens_of_stills (stills_getRightSet set)).bind hk

theorem deepens_calculateOutputm2 (set : SetVar) : Deepens r (calculateOutputm2 (.ref r) set) :=
  (deepens_word r _ _ _ _).bind fun _ => deepens_right r fun _ => deepens_word r _ _ _ _

theorem deepens_calculateOutputm4 (set : SetVar) : Deepens r (calculateOutputm4 (.ref r) set) :=
  (deepens_word r _ _ _ _).bind fun _ => deepens_right r fun _ =>
    (deepens_word r _ _ _ _).bind fun _ => deepens_right r fun _ => deepens_word r _ _ _ _

theorem deepens_calculateOutputm6 (set : SetVar) : Deepens r (calculateOutputm6 (.ref r) set) :=
  (deepens_of_stills stills_make).bind fun _ => (deepens_word r _ _ _ _).bind fun _ =>
    deepens_right r fun _ => deepens_word r _ _ _ _

theorem deepens_calculateOutputm7 (set : SetVar) : Deepens r (calculateOutputm7 (.ref r) set) :=
  (deepens_word r _ _ _ _).bind fun _ => deepens_right r fun _ => deepens_word r _ _ _ _

theorem deepens_low (set : SetVar) : Deepens r (low (.ref r) set) :=
  (deepens_atMost r _ _ _).ifM <| deepens_left r fun _ => (deepens_between r _ _ _ _ _).ifM <|
    deepens_left r fun _ => deepens_word r _ _ _ _

theorem deepens_middle (set currentSet : SetVar) : Deepens r (middle (.ref r) set currentSet) :=
  (deepens_between r _ _ _ _ _).ifM <| deepens_left r fun _ =>
    ((deepens_equal r _ _ _ _).ifM (deepens_left r fun _ => deepens_calculateOutputm2 r _)).bind
      fun _ => deepens_right r fun _ =>
    ((deepens_equal r _ _ _ _).ifM (deepens_left r fun _ => deepens_word r _ _ _ _)).bind
      fun _ => deepens_right r fun _ =>
    ((deepens_equal r _ _ _ _).ifM (deepens_left r fun _ => deepens_calculateOutputm4 r _)).bind
      fun _ => deepens_right r fun _ =>
    (deepens_equal r _ _ _ _).ifM (deepens_left r fun _ => deepens_word r _ _ _ _)

theorem deepens_check (set : SetVar) : Deepens r (check (.ref r) set) :=
  (deepens_myIf _ r _).ifM <| deepens_of_stills <|
    stills_bind (stills_newBranch _) fun _ => stills_bind (stills_addBranch _ _) fun _ =>
      stills_throw _

theorem deepens_upper (set : SetVar) : Deepens r (upper (.ref r) set) :=
  (deepens_between r _ _ _ _ _).ifM <| deepens_right r fun _ =>
    ((deepens_equal r _ _ _ _).ifM (deepens_left r fun _ => deepens_calculateOutputm6 r _)).bind
      fun _ => deepens_right r fun _ =>
    ((deepens_equal r _ _ _ _).ifM (deepens_left r fun _ => deepens_calculateOutputm7 r _)).bind
      fun _ => deepens_right r fun _ =>
    ((deepens_above r _ _ _).ifM (deepens_left r fun _ => (deepens_between r _ _ _ _ _).ifM
      (deepens_left r fun _ => deepens_word r _ _ _ _))).bind fun _ => deepens_right r fun _ =>
    deepens_check r _

theorem deepens_calculateOutput (set : SetVar) :
    Deepens r (DirectFinal.calculateOutput (.ref r) set) :=
  (deepens_of_stills (stills_setField _ (stills_newBool2 _ _))).bind fun _ =>
    (deepens_low r set).bind fun _ => deepens_right r fun _ =>
    (deepens_middle r _ _).bind fun _ => deepens_right r fun _ => deepens_upper r _

theorem deepens_compareAll (set : SetVar) : Deepens r (compareAll (.ref r) set) := by
  have hequals : ∀ a word, Deepens r (I.myEqualsString a (.ref r) word set) :=
    fun a word => deepens_of_stills (stills_myEqualsString a (.ref r) word set)
  have hand : ∀ a b c, Deepens r (I.myAnd a b c set) :=
    fun a b c => deepens_of_stills (stills_myAnd a b c set)
  exact (hequals _ _).bind fun _ => (hequals _ _).bind fun _ => (hequals _ _).bind fun _ =>
    (hequals _ _).bind fun _ => (hequals _ _).bind fun _ => (hand _ _ _).bind fun _ =>
    (hand _ _ _).bind fun _ => (hand _ _ _).bind fun _ => (hand _ _ _).bind fun _ =>
    deepens_myIf _ r _

theorem deepens_catching {p : Prog Unit} (hp : Deepens r p) : Deepens r (catching p) := by
  intro w res v h hn
  unfold catching at h
  rw [exec_tryCatch] at h
  rcases he : exec p w with ⟨e | _, t⟩ <;> rw [he] at h
  · cases e with
    | illegalArgument m =>
      obtain rfl := congrArg Prod.snd h
      exact hp w _ _ he fun e' heq => by cases heq; exact nofun
    | arithmetic | nullPointer =>
      obtain rfl := congrArg Prod.snd h
      obtain rfl := congrArg Prod.fst h
      exact hp w _ _ he hn
  · obtain rfl := congrArg Prod.snd h
    exact hp w _ _ he nofun

theorem deepens_process (phase : Phase) (set : SetVar) :
    Deepens r (process phase set (.ref r)) := by
  have hthrow : Deepens r (do
      let s1 ← getLeftSet set
      let br ← Branch.new fun _ => ⟨none, none, none, none, some noTransition⟩
      addBranch s1 br
      throw noTransition : Prog Unit) :=
    deepens_left r fun _ => deepens_of_stills <| stills_bind (stills_newBranch _) fun _ =>
      stills_bind (stills_addBranch _ _) fun _ => stills_throw _
  refine ((deepens_compareAll r set).ifM hthrow).bind fun _ => deepens_right r fun _ => ?_
  exact deepens_catching r (deepens_calculateOutput r _)

end

end EcaEngines.Depth
