import EcaEngines.TaskOne

/-!
# Taint in the programs of the first task

The flag of a scratch register is set by the operations and cleared by none, so
the flags of earlier results stay behind. One register tells whether anything is
flagged at all: every flag that an integer can have is also a flag of `var1`. This
invariant makes up for the overload of `I.myDel` that flags its third argument,
because its destination is always `var1`.
-/
namespace EcaEngines.Taint
open Imperative Reactive Instrumented Transitions Blocks Guards Engine TaskOne
open BoundedInt (Op)
open Original (Reply)

/-- The law of data-flow taint, for a recorded step: a flagged source flags the
destination, and a copy has the flag of its source. -/
def Lawful : Step → Prop
  | .arith _ b c a => b.flow = true ∨ c.flow = true → a.flow = true
  | .assign b a => a.flow = b.flow

/-- Whatever is flagged, `var1` is, and the steps taken so far were lawful. -/
structure Sound (w : World) : Prop where
  operand : ∀ r : IntRef, (w.int r).flow = true → (w.var 1).flow = true
  steps : ∀ s ∈ w.steps, Lawful s

/-- The invariant is about the operands and the record only. -/
theorem Sound.congr {w w' : World} (h : Sound w) (hint : ∀ r, w'.int r = w.int r)
    (hsteps : w'.steps ⊆ w.steps) : Sound w' := by
  have hvar : w'.var 1 = w.var 1 := hint (.var 1)
  refine ⟨fun r hr => ?_, fun s hs => h.steps s (hsteps hs)⟩
  rw [hvar]
  exact h.operand r (hint r ▸ hr)

theorem Sound.of_same {w w' : World} (h : Sound w) (hs : Same w w') : Sound w' :=
  h.congr hs.int (hs.steps ▸ List.Subset.refl _)

section
variable {w : World} {op : Op} {a : ℕ} {b c : IntRef} {r : MyInt → MyInt → MyInt → MyInt}

/-- What an operation must do to the flag of its destination. -/
theorem Sound.store (h : Sound w)
    (hnew : (r (w.var a) (w.int b) (w.int c)).flow = true → (w.var 1).flow = true ∨ a = 1)
    (hold : a = 1 → (w.var 1).flow = true → (r (w.var a) (w.int b) (w.int c)).flow = true)
    (hlaw : (w.int b).flow = true ∨ (w.int c).flow = true →
      (r (w.var a) (w.int b) (w.int c)).flow = true) : Sound (w.store op a b c r) := by
  have hkeep : (w.var 1).flow = true → ((w.store op a b c r).var 1).flow = true := by
    intro h₁
    by_cases ha : a = 1
    · subst ha
      rw [World.store_var_self]
      exact hold rfl h₁
    · rwa [World.store_var_ne (Ne.symm ha)]
  constructor
  · intro x hx
    by_cases hxa : x = .var a
    · subst hxa
      have hx' : (r (w.var a) (w.int b) (w.int c)).flow = true := by simpa [World.int] using hx
      rcases hnew hx' with h₁ | rfl
      · exact hkeep h₁
      · exact hx
    · refine hkeep (h.operand x ?_)
      cases x with
      | var n => simpa [World.int, World.store_var_ne (fun hn => hxa (congrArg _ hn))] using hx
      | _ => exact hx
  · intro s hs
    rw [World.store_steps, List.mem_append, List.mem_singleton] at hs
    rcases hs with hs | rfl
    · exact h.steps s hs
    · exact hlaw

/-- An operation without a boolean never takes a flag away. -/
theorem Sound.propagated (h : Sound w) : Sound (w.store op a b c (MyInt.propagated op)) := by
  refine h.store ?_ ?_ ?_
  · intro hx
    simp only [MyInt.propagated, Bool.or_eq_true] at hx
    rcases hx with hx | hx | hx
    · exact .inl (h.operand (.var a) hx)
    · exact .inl (h.operand b hx)
    · exact .inl (h.operand c hx)
  · rintro rfl hx
    simp [MyInt.propagated, hx]
  · intro hx
    rcases hx with hx | hx <;> simp [MyInt.propagated, hx]

/-- Flagging `var1` flags the one register that must be. -/
theorem Sound.flagged (h : Sound w) : Sound (w.store op 1 b c (MyInt.flagged op true)) :=
  h.store (fun _ => .inr rfl) (fun _ _ => rfl) fun _ => rfl

/-- An operation on `var1` that leaves its flag relies on the invariant. -/
theorem Sound.computed (h : Sound w) : Sound (w.store op 1 b c (MyInt.computed op)) := by
  refine h.store (fun hx => .inl hx) (fun _ hx => hx) ?_
  rintro (hx | hx)
  · exact h.operand b hx
  · exact h.operand c hx

theorem keeps_myAdd : Keeps Sound (I.myAdd a b c) := fun w h => by
  rw [I.exec_myAdd]
  exact h.propagated

theorem keeps_myAdd_flagged : Keeps Sound (I.myAdd 1 b c true) := fun w h => by
  rw [I.exec_myAdd_flagged]
  exact h.flagged

theorem keeps_myDel : Keeps Sound (I.myDel a b c) := fun w h => by
  rw [I.exec_myDel]
  exact h.propagated

theorem keeps_myDel_int (k : Int32) : Keeps Sound (I.myDel 1 b (.int k) true) := fun w h => by
  rw [I.exec_myDel_int]
  exact h.computed

theorem keeps_myMul : Keeps Sound (I.myMul a b c) := fun w h => by
  rw [I.exec_myMul]
  exact h.propagated

theorem keeps_myMul_flagged : Keeps Sound (I.myMul 1 b c true) := fun w h => by
  rw [I.exec_myMul_flagged]
  exact h.flagged

theorem keeps_myDiv {k : Int32} (hk : k ≠ 0) : Keeps Sound (I.myDiv a b (.int k)) := fun w h => by
  rw [I.exec_myDiv_int hk]
  exact h.propagated

theorem keeps_myMod {k : Int32} (hk : k ≠ 0) : Keeps Sound (I.myMod a b (.int k)) := fun w h => by
  rw [I.exec_myMod_int hk]
  exact h.propagated

theorem keeps_setCf (x : MyBool) : Keeps Sound (setCf x) :=
  keeps_modify fun _ h => h.congr (fun r => by cases r <;> rfl) (List.Subset.refl _)

theorem keeps_setA1745113960 (x : MyString) : Keeps Sound (setA1745113960 x) :=
  keeps_modify fun _ h => h.congr (fun r => by cases r <;> rfl) (List.Subset.refl _)

theorem keeps_myPrint (word : String) : Keeps Sound (I.myPrint word) :=
  keeps_modify fun _ h => h.congr (fun r => by cases r <;> rfl) (List.Subset.refl _)

/-- Storing a copy of a register, together with what follows. -/
theorem Sound.assign {n : ℕ} {w' : World} (h : Sound w)
    (hint : ∀ r, w'.int r = w.int r ∨ w'.int r = I.copyInt (w.var n)) (hvar : w'.var = w.var)
    (hsteps : w'.steps = w.steps ++ [.assign (w.var n) (I.copyInt (w.var n))]) : Sound w' := by
  constructor
  · intro r hr
    rw [hvar]
    rcases hint r with hw | hw <;> rw [hw] at hr
    · exact h.operand r hr
    · exact h.operand (.var n) hr
  · intro s hs
    rw [hsteps, List.mem_append, List.mem_singleton] at hs
    rcases hs with hs | rfl
    · exact h.steps s hs
    · rfl

section
variable {n : ℕ} {p : Prog Unit}

theorem keeps_assign_a422009172 (hp : Keeps Sound p) :
    Keeps Sound (I.myAssign (.var n) >>= fun x => setA422009172 x >>= fun _ => p) := fun w h => by
  rw [exec_bind_ok (I.exec_myAssign _), exec_bind_ok (exec_setA422009172 _ _)]
  refine hp _ (h.assign (fun r => ?_) rfl rfl)
  cases r with
  | a422009172 => exact .inr rfl
  | _ => exact .inl rfl

theorem keeps_assign_a2108127495 (hp : Keeps Sound p) :
    Keeps Sound (I.myAssign (.var n) >>= fun x => setA2108127495 x >>= fun _ => p) := fun w h => by
  rw [exec_bind_ok (I.exec_myAssign _), exec_bind_ok (exec_setA2108127495 _ _)]
  refine hp _ (h.assign (fun r => ?_) rfl rfl)
  cases r with
  | a2108127495 => exact .inr rfl
  | _ => exact .inl rfl

theorem keeps_assign_a1522448132 (hp : Keeps Sound p) :
    Keeps Sound (I.myAssign (.var n) >>= fun x => setA1522448132 x >>= fun _ => p) := fun w h => by
  rw [exec_bind_ok (I.exec_myAssign _), exec_bind_ok (exec_setA1522448132 _ _)]
  refine hp _ (h.assign (fun r => ?_) rfl rfl)
  cases r with
  | a1522448132 => exact .inr rfl
  | _ => exact .inl rfl

end

end

/-- Every statement of every block keeps the invariant. -/
theorem keeps_block (t : Transition) : Keeps Sound (block .copied t) := by
  -- up to the names of the operations, so that none is unfolded
  cases t <;> simp only [block] <;>
    repeat' with_reducible first
      | apply keeps_assign_a422009172
      | apply keeps_assign_a2108127495
      | apply keeps_assign_a1522448132
      | refine Keeps.bind ?_ fun _ => ?_
      | exact keeps_setCf _
      | exact keeps_setA1745113960 _
      | exact keeps_myAdd
      | exact keeps_myAdd_flagged
      | exact keeps_myDel
      | exact keeps_myDel_int _
      | exact keeps_myMul
      | exact keeps_myMul_flagged
      | exact keeps_myDiv (by decide)
      | exact keeps_myMod (by decide)
      | exact keeps_myPrint _

theorem sound_start : Sound Direct.start := by
  refine ⟨fun r hr => ?_, fun s hs => absurd hs List.not_mem_nil⟩
  cases r <;> cases hr

theorem Sound.cleared {w : World} (h : Sound w) : Sound (cleared w) :=
  h.congr (fun r => by cases r <;> rfl) (List.nil_subset _)

/-- One call, whatever it fires. -/
theorem Sound.call {engine : MyString → Prog Unit} {w : World} (he : Implements engine)
    (h : Sound w) (input : MyString) : Sound (call engine w input).2 := by
  have hstart : Sound (start (Engine.cleared w)) :=
    h.cleared.congr (fun r => by cases r <;> rfl) (List.Subset.refl _)
  rcases call_cases he w input with ⟨-, -, hs⟩ | ⟨t, w₁, -, -, h₁, h₂⟩
  · exact hstart.of_same hs
  · exact (keeps_block t w₁ (hstart.of_same h₁)).of_same h₂

/-- `reset()` clears flags and sets none. -/
theorem Sound.reset {w : World} (h : Sound w) : Sound (reset w) := by
  refine ⟨fun r hr => ?_, h.steps⟩
  cases r with
  | var n => exact h.operand (.var n) hr
  | _ => cases hr

theorem Sound.step {p : Program} {w : World} (hp : Implements p.calculateOutput) (h : Sound w)
    (c : Command) : Sound (p.step w c).2 := by
  cases c with
  | calculateOutput input => exact h.call hp input
  | reset => exact h.cleared.reset

/-- No integer operation of a run from program start loses taint. -/
theorem Direct_taint_lawful (cs : List Command) :
    ∀ e ∈ trace Direct.step Direct.start cs, ∀ s ∈ e.after.steps, Lawful s :=
  trace_forall (I := Sound)
    (fun _ c h => ⟨(h.step Direct_implements c).steps, h.step Direct_implements c⟩) sound_start cs

/-- In mode m6 a flag is set, and the operations that follow read it. -/
theorem Direct_taint_lawful_usr4_ni1_ne1 :
    ∃ e ∈ trace Direct.step Direct.start
        [.calculateOutput (.new "ai1_ce1"), .calculateOutput (.new "usr4_ni1_ne1")],
      ∃ op b c a, Step.arith op b c a ∈ e.after.steps ∧ b.flow = true ∧ a.flow = true := by
  have hflagged : ((trace Direct.step Direct.start
      [.calculateOutput (.new "ai1_ce1"), .calculateOutput (.new "usr4_ni1_ne1")]).any fun e =>
        e.after.steps.any fun
          | .arith _ b _ _ => b.flow
          | .assign _ _ => false) = true := by decide +kernel
  obtain ⟨e, he, hsteps⟩ := List.any_eq_true.mp hflagged
  obtain ⟨s, hs, hb⟩ := List.any_eq_true.mp hsteps
  cases s with
  | assign b a => cases hb
  | arith op b c a =>
    have hlaw := Direct_taint_lawful
      [.calculateOutput (.new "ai1_ce1"), .calculateOutput (.new "usr4_ni1_ne1")] e he _ hs
    exact ⟨e, he, op, b, c, a, hs, hb, hlaw (.inl hb)⟩

end EcaEngines.Taint
