import EcaEngines.TaskOne
import EcaEngines.Fuzzer

/-!
# The runs that the fuzzer stores

`main` of `instm183_LTL_CTLFuzzer`, with the class `Run`. Every iteration makes a new set
`branches`, and a `Run` refers to the set, so it sees the members added later on. What is
printed is left out.
-/
namespace EcaEngines.Fuzzing
open Imperative Reactive Instrumented Transitions Blocks Guards Engine
open Original (Throwable Vars noTransition)

/-- A set is given by the number of sets made before. -/
structure Run where
  exceptions : List Throwable
  inputs : List MyString
  branches : Option ℕ

def Run.new (inputs : List MyString) : Run := ⟨[], inputs, none⟩

structure Main where
  /-- The members of the set that `branches` refers to stand in here. -/
  world : World
  /-- What `branches` referred to before. -/
  sets : List (List ℕ)
  currentRun : Run
  runLst : List Run

/-- The members of a set. -/
def Main.members (s : Main) (x : ℕ) : Option (List ℕ) := (s.sets ++ [s.world.branches])[x]?

abbrev Prog := Imp Throwable Main

def lift {α : Type} (p : Instrumented.Prog α) : Prog α :=
  zoom Main.world (fun w s => { s with world := w }) p

def addException (e : Throwable) : Prog Unit := modify fun s =>
  { s with currentRun.exceptions := s.currentRun.exceptions ++ [e] }

/-- The body of the inner loop. -/
def process (input : MyString) : Prog Unit := do
  ifM (lift (Fuzzer.check input)) do
    addException noTransition
  tryCatch (do
    lift (Fuzzer.CalculateOutput input)
    modify fun s => { s with currentRun.branches := some s.sets.length }) fun e => match e with
      | .illegalArgument _ => addException e
      | e => throw e

/-- The body of the outer loop, with the inputs it has drawn. -/
def iteration (fuzzed_inputs : List MyString) : Prog Unit := do
  modify fun s =>
    { s with sets := s.sets ++ [s.world.branches], world := { s.world with branches := [] } }
  modify fun s => { s with world := reset s.world }
  modify fun s => { s with currentRun := .new fuzzed_inputs }
  fuzzed_inputs.forM process
  modify fun s => { s with runLst := s.runLst ++ [s.currentRun] }

/-- One iteration of `main`. -/
def step : System Main (List MyString) (Except Throwable Unit)
  | s, fuzzed_inputs => exec (iteration fuzzed_inputs) s

/-- The fields start as those of `instm183_LTL_CTLDirect`. -/
def start : Main := ⟨TaskOne.Direct.start, [], .new [], []⟩

/-- The number of the inputs that the engine rejects when it is called on each in turn. -/
def rejections (w : World) (inputs : List MyString) : ℕ :=
  (responses (call Fuzzer.CalculateOutput) (reset w) inputs).countP (·.rejected)

/-- As a later state `s` shows it, the run counts the rejected inputs of the iteration and refers
to the set of the branches created in it. -/
structure Complete (s : Main) (e : Entry Main (List MyString) (Except Throwable Unit))
    (run : Run) : Prop where
  exceptions : run.exceptions.length = rejections e.before.world e.input
  branches : ∃ x bs, run.branches = some x ∧ s.members x = some bs ∧
    ∀ k, k ∈ bs ↔ e.before.world.made.length ≤ k ∧ k < e.after.world.made.length

/-- An input is accepted in the mode in which `reset()` leaves the engine. -/
def Accepted (inputs : List MyString) : Prop :=
  ∃ i ∈ inputs, i.val ∈ ["ai1_ce1", "ai1_ce2", "usr4_ni1_ne1"]

/-- The branches from `a` on are in the set. -/
structure Full (a : ℕ) (w : World) : Prop where
  le : a ≤ w.made.length
  mem : ∀ k, k ∈ w.branches ↔ a ≤ k ∧ k < w.made.length

/-- They are but for the last, `k`. -/
structure Pending (a k : ℕ) (w : World) : Prop where
  le : a ≤ k
  last : w.made.length = k + 1
  mem : ∀ j, j ∈ w.branches ↔ a ≤ j ∧ j < k

section
variable {a k : ℕ}

theorem newBranch_pending (input : String) :
    Meets (χ := Throwable) (Full a) (newBranch input) fun k => Pending a k := by
  rintro w ⟨hle, hmem⟩
  exact ⟨_, _, rfl, hle, List.length_append, hmem⟩

theorem pending_record {p : Instrumented.Prog Unit} (h : ∀ w, ∃ w', exec p w = (.ok (), w') ∧
      w'.made.length = w.made.length ∧ w'.branches = w.branches) :
    Meets (Pending a k) p fun _ => Pending a k := by
  intro w hw
  obtain ⟨w', he, hlen, hbranches⟩ := h w
  exact ⟨(), w', he, hw.le, hlen.trans hw.last, hbranches ▸ hw.mem⟩

/-- A test adds conditions to branches only. -/
theorem test_pending (b : ℕ) (val : World → Bool) (cond : World → Condition) (br : Option ℕ) :
    Meets (Pending a k) (do
      I.decideBool b val
      match br with
      | none => pure ()
      | some br => I.record br cond) fun _ => Pending a k := by
  refine pending_record fun w => ?_
  cases br with
  | none => exact ⟨_, rfl, rfl, rfl⟩
  | some br => exact ⟨_, rfl, List.length_modify .., rfl⟩

theorem myLess_pending (b : ℕ) (c d : IntRef) (br : Option ℕ) :
    Meets (Pending a k) (I.myLess b c d br) fun _ => Pending a k := test_pending _ _ _ _

theorem myLessEqual_pending (b : ℕ) (c d : IntRef) (br : Option ℕ) :
    Meets (Pending a k) (I.myLessEqual b c d br) fun _ => Pending a k := test_pending _ _ _ _

theorem myGreaterEqual_pending (b : ℕ) (c d : IntRef) (br : Option ℕ) :
    Meets (Pending a k) (I.myGreaterEqual b c d br) fun _ => Pending a k := test_pending _ _ _ _

theorem myEquals_pending (b : ℕ) (c : StringRef) (d : String) (br : Option ℕ) :
    Meets (Pending a k) (I.myEquals b c d br) fun _ => Pending a k := test_pending _ _ _ _

theorem myAnd_pending (b : ℕ) (c d : BoolRef) (br : Option ℕ) :
    Meets (Pending a k) (I.myAnd b c d br) fun _ => Pending a k := test_pending _ _ _ _

theorem setDependentVariable_pending (br : ℕ) (b : BoolRef) :
    Meets (Pending a k) (setDependentVariable br b) fun _ => Pending a k :=
  pending_record fun _ => ⟨_, rfl, List.length_modify .., rfl⟩

theorem branchesAdd_full :
    Meets (χ := Throwable) (Pending a k) (branchesAdd k) fun _ => Full a := by
  rintro w ⟨hle, hlast, hmem⟩
  have hk : k ∉ w.branches := fun h => Nat.lt_irrefl k ((hmem k).mp h).2
  refine ⟨(), _, rfl, ?_, fun j => ?_⟩
  · change a ≤ w.made.length
    omega
  · change (j ∈ if k ∈ w.branches then w.branches else w.branches ++ [k]) ↔
      a ≤ j ∧ j < w.made.length
    rw [if_neg hk, List.mem_append, hmem, List.mem_singleton]
    omega

theorem myIf_full (b : BoolRef) : Meets (Full a) (I.myIf b) fun _ => Full a :=
  fun _ ⟨hle, hmem⟩ => ⟨_, _, rfl, hle, hmem⟩

theorem keeps_setCf (b : MyBool) : Keeps (Full a) (setCf b) := fun _ ⟨hle, hmem⟩ => ⟨hle, hmem⟩

theorem keeps_block (t : Transition) : Keeps (Full a) (block .copied t) := by
  rintro w ⟨hle, hmem⟩
  refine ⟨?_, fun k => ?_⟩
  · rwa [block_made]
  · rw [block_branches, block_made]
    exact hmem k

/-- A branch is added before the decision it is made for. -/
theorem keeps_site {input : String} {q : ℕ → Instrumented.Prog Bool}
    (h : ∀ k, Meets (Pending a k) (q k) fun _ => Full a) :
    Keeps (Full a) (newBranch input >>= q) :=
  ((newBranch_pending input).bind h).keeps

theorem keeps_check (input : MyString) : Keeps (Full a) (Fuzzer.check input) := by
  unfold Fuzzer.check
  refine keeps_site fun _ => ?_
  with_reducible repeat' first
    | refine (myEquals_pending _ _ _ _).bind fun _ => ?_
    | refine (myAnd_pending _ _ _ _).bind fun _ => ?_
    | exact branchesAdd_full.bind fun _ => myIf_full _

theorem keeps_CalculateOutput (input : MyString) :
    Keeps (Full a) (Fuzzer.CalculateOutput input) := by
  unfold Fuzzer.CalculateOutput Fuzzer.Text.CalculateOutput Fuzzer.Text.CalculateOutputm1
    Fuzzer.Text.CalculateOutputm2 Fuzzer.Text.CalculateOutputm3 Fuzzer.Text.CalculateOutputm4
    Fuzzer.Text.CalculateOutputm5 Fuzzer.Text.CalculateOutputm6 Fuzzer.Text.CalculateOutputm7
    Fuzzer.Text.CalculateOutputm8
  with_reducible repeat' first
    | exact keeps_setCf _
    | exact keeps_block _
    | exact keeps_throw _ _
    | refine (myEquals_pending _ _ _ _).bind fun _ => ?_
    | refine (myAnd_pending _ _ _ _).bind fun _ => ?_
    | refine (myLess_pending _ _ _ _).bind fun _ => ?_
    | refine (myLessEqual_pending _ _ _ _).bind fun _ => ?_
    | refine (myGreaterEqual_pending _ _ _ _).bind fun _ => ?_
    | refine (setDependentVariable_pending _ _).bind fun _ => ?_
    | exact branchesAdd_full.bind fun _ => myIf_full _
    | refine keeps_site fun _ => ?_
    | refine Keeps.ifM ?_ ?_
    | refine Keeps.bind ?_ fun _ => ?_

end

/-- The number of the inputs on which no transition fires. -/
def misses : Vars → List MyString → ℕ
  | _, [] => 0
  | v, i :: is => match fired v i.val with
    | none => misses v is + 1
    | some t => misses (t.fire v) is

/-- On some input a transition fires; before that nothing changes. -/
def Hits (v : Vars) (inputs : List MyString) : Prop := ∃ i ∈ inputs, (fired v i.val).isSome

section
variable {v : Vars} {i : MyString} {is : List MyString} {t : Transition}

theorem misses_of_none (h : fired v i.val = none) : misses v (i :: is) = misses v is + 1 := by
  rw [misses, h]

theorem misses_of_some (h : fired v i.val = some t) :
    misses v (i :: is) = misses (t.fire v) is := by
  rw [misses, h]

theorem hits_of_none (h : fired v i.val = none) : Hits v (i :: is) ↔ Hits v is := by
  unfold Hits
  simp [h]

theorem hits_of_some (h : fired v i.val = some t) : Hits v (i :: is) :=
  ⟨i, List.mem_cons_self, by rw [h]; rfl⟩

end

theorem countP_rejected {engine : MyString → Instrumented.Prog Unit} (h : Implements engine)
    (w : World) (is : List MyString) :
    (responses (call engine) w is).countP (·.rejected) = misses w.view is := by
  induction is generalizing w with
  | nil => rfl
  | cons i is ih =>
    rw [responses_cons, List.countP_cons, ih]
    rcases call_cases h w i with ⟨hf, hr, hs⟩ | ⟨t, w₁, hf, hr, h₁, h₂⟩
    · have hv : (call engine w i).2.view = w.view := hs.view
      rw [hr, hv, misses_of_none hf]
      rfl
    · have hv : (call engine w i).2.view = t.fire w.view := by
        rw [h₂.view, block_view, h₁.view]
        rfl
      rw [hr, hv, misses_of_some hf]
      rfl

theorem find_m4_isSome (i : String) :
    (find i .m4).isSome ↔ i ∈ ["ai1_ce1", "ai1_ce2", "usr4_ni1_ne1"] := by
  rw [Option.isSome_iff_exists]
  simp only [find_eq_some_iff, List.mem_cons, List.not_mem_nil, or_false]
  constructor
  · rintro ⟨t, hm, rfl⟩
    cases t <;> cases hm <;> simp [Transition.letter]
  · rintro (rfl | rfl | rfl)
    · exact ⟨.m4Ce1, rfl, rfl⟩
    · exact ⟨.m4Ce2, rfl, rfl⟩
    · exact ⟨.m4Ne1, rfl, rfl⟩

theorem hits_start (inputs : List MyString) : Hits Vars.start inputs ↔ Accepted inputs := by
  unfold Hits Accepted
  have h (i : String) : fired Vars.start i = find i .m4 := fired_of_guard Modes.inv_start.guard i
  simp only [h, find_m4_isSome]

/-- The inner loop with `rest` left, since it stood at `m`. -/
structure Filling (a : ℕ) (m : Main) (inputs rest : List MyString) (s : Main) : Prop where
  full : Full a s.world
  sets : s.sets = m.sets
  runLst : s.runLst = m.runLst
  exceptions : s.currentRun.exceptions.length + misses s.world.view rest =
    misses m.world.view inputs
  branches : (s.currentRun.branches = some m.sets.length ∧ Hits m.world.view inputs) ∨
    (s.currentRun.branches = none ∧ s.world.view = m.world.view ∧
      (Hits m.world.view rest ↔ Hits m.world.view inputs))

/-- The first `if` is never taken. -/
theorem exec_check (a : ℕ) (input : MyString) (s : Main) (hs : Full a s.world) :
    ∃ w, exec (ifM (lift (Fuzzer.check input)) (addException noTransition)) s =
      (.ok (), { s with world := w }) ∧ Full a w ∧ w.view = s.world.view := by
  obtain ⟨w, he, hsame⟩ := Fuzzer.check_tests input s.world
  have hfull := keeps_check (a := a) input s.world hs
  rw [he] at hfull
  refine ⟨w, exec_ifM_of_false ?_, hfull, hsame.view⟩
  unfold lift
  rw [exec_zoom, he]

/-- What is tried: the set is stored if the call returns. -/
theorem exec_try {s : Main} {input : MyString} {w : World} {r : Except Throwable Unit}
    (h : exec (Fuzzer.CalculateOutput input) s.world = (r, w)) :
    exec (do
        lift (Fuzzer.CalculateOutput input)
        modify fun s => { s with currentRun.branches := some s.sets.length } : Prog Unit) s =
      match r with
      | .ok _ => (.ok (), { s with
          world := w
          currentRun.branches := some s.sets.length })
      | .error e => (.error e, { s with world := w }) := by
  have hl : exec (lift (Fuzzer.CalculateOutput input)) s = (r, { s with world := w }) := by
    unfold lift
    rw [exec_zoom, h]
  cases r with
  | ok _ =>
    rw [exec_bind_ok hl]
    rfl
  | error e => exact exec_bind_error hl

section
variable {a : ℕ} {m s : Main} {inputs rest : List MyString} {i : MyString} {w : World}

/-- The call has thrown, and the handler has added the exception. -/
theorem Filling.rejected (h : Filling a m inputs (i :: rest) s)
    (hf : fired s.world.view i.val = none) (hfull : Full a w) (hv : w.view = s.world.view) :
    Filling a m inputs rest { s with
      world := w
      currentRun.exceptions := s.currentRun.exceptions ++ [noTransition] } := by
  have hex := h.exceptions
  rw [misses_of_none hf] at hex
  refine ⟨hfull, h.sets, h.runLst, ?_, ?_⟩
  · change (s.currentRun.exceptions ++ [noTransition]).length + misses w.view rest = _
    rw [hv, List.length_append, List.length_singleton]
    omega
  · rcases h.branches with hb | ⟨hn, hv', hh⟩
    · exact .inl hb
    · exact .inr ⟨hn, hv.trans hv', (hits_of_none (hv' ▸ hf)).symm.trans hh⟩

/-- The call has returned, and the set is stored. -/
theorem Filling.fired {t : Transition} (h : Filling a m inputs (i :: rest) s)
    (hf : Transitions.fired s.world.view i.val = some t) (hfull : Full a w)
    (hv : w.view = t.fire s.world.view) :
    Filling a m inputs rest { s with
      world := w
      currentRun.branches := some s.sets.length } := by
  have hex := h.exceptions
  rw [misses_of_some hf] at hex
  refine ⟨hfull, h.sets, h.runLst, hv ▸ hex, .inl ⟨?_, ?_⟩⟩
  · exact congrArg (fun x : List (List ℕ) => some x.length) h.sets
  · rcases h.branches with ⟨-, hh⟩ | ⟨-, hv', hh⟩
    · exact hh
    · exact hh.mp (hits_of_some (hv' ▸ hf))

theorem process_filling (h : Filling a m inputs (i :: rest) s) :
    Leads (process i) s (Filling a m inputs rest) := by
  obtain ⟨w, hcheck, hfull, hview⟩ := exec_check a i s h.full
  have hkept := keeps_CalculateOutput i w hfull
  have ho := Fuzzer.CalculateOutput_implements i w
  rw [hview] at ho
  refine Leads.seq hcheck ?_
  unfold Leads
  rw [exec_tryCatch]
  rcases he : exec (Fuzzer.CalculateOutput i) w with ⟨r, w'⟩
  rw [he] at ho hkept
  rw [exec_try (s := { s with world := w }) he]
  cases hf : Transitions.fired s.world.view i.val with
  | none =>
    rw [hf] at ho
    cases ho with
    | rejected hs => exact ⟨_, rfl, h.rejected hf hkept (hs.view.trans hview)⟩
  | some t =>
    rw [hf] at ho
    have hv : w'.view = t.fire s.world.view := hview ▸ (outcome_fired ho).2.2.1
    cases ho with
    | fired => exact ⟨_, rfl, h.fired hf hkept hv⟩

end

/-- What an iteration leaves behind. -/
structure Stored (m : Main) (inputs : List MyString) (m' : Main) : Prop where
  sets : m'.sets = m.sets ++ [m.world.branches]
  runLst : m'.runLst = m.runLst ++ [m'.currentRun]
  full : Full m.world.made.length m'.world
  exceptions : m'.currentRun.exceptions.length = rejections m.world inputs
  branches : (m'.currentRun.branches = some m'.sets.length ∧ Accepted inputs) ∨
    (m'.currentRun.branches = none ∧ ¬ Accepted inputs)

theorem iteration_stored (m : Main) (inputs : List MyString) :
    Leads (iteration inputs) m (Stored m inputs) := by
  have hfull : Full m.world.made.length (reset { m.world with branches := [] }) :=
    ⟨Nat.le_refl _, fun k => by
      change k ∈ [] ↔ m.world.made.length ≤ k ∧ k < m.world.made.length
      simp only [List.not_mem_nil, false_iff]
      omega⟩
  unfold iteration
  refine Leads.seq (exec_modify _ m) ?_
  refine Leads.seq (exec_modify _ _) ?_
  refine Leads.seq (exec_modify _ _) ?_
  set m₀ : Main := ⟨reset { m.world with branches := [] }, m.sets ++ [m.world.branches],
    .new inputs, m.runLst⟩ with hm₀
  have hview : m₀.world.view = Vars.start := rfl
  obtain ⟨s, hs, hfill⟩ := leads_forM
    (I := Filling m.world.made.length m₀ inputs) (fun _ _ _ h => process_filling h) inputs m₀
    ⟨hfull, rfl, rfl, Nat.zero_add _, .inr ⟨rfl, rfl, Iff.rfl⟩⟩
  refine Leads.seq hs ⟨_, exec_modify _ _, ?_⟩
  have hex := hfill.exceptions
  have hb := hfill.branches
  rw [hview] at hex hb
  refine ⟨hfill.sets, ?_, hfill.full, ?_, ?_⟩
  · change s.runLst ++ [s.currentRun] = m.runLst ++ [s.currentRun]
    rw [hfill.runLst]
  · change s.currentRun.exceptions.length = rejections m.world inputs
    rw [rejections, countP_rejected Fuzzer.CalculateOutput_implements]
    exact hex
  · change (s.currentRun.branches = some s.sets.length ∧ Accepted inputs) ∨
      (s.currentRun.branches = none ∧ ¬ Accepted inputs)
    rw [← hits_start, hfill.sets]
    rcases hb with ⟨hb, hh⟩ | ⟨hn, -, hh⟩
    · exact .inl ⟨hb, hh⟩
    · refine .inr ⟨hn, fun hi => ?_⟩
      obtain ⟨i, hi, -⟩ := hh.mpr hi
      exact List.not_mem_nil hi

theorem step_stored (m : Main) (inputs : List MyString) :
    (step m inputs).1 = .ok () ∧ Stored m inputs (step m inputs).2 := by
  obtain ⟨m', he, hs⟩ := iteration_stored m inputs
  have hstep : step m inputs = exec (iteration inputs) m := rfl
  rw [hstep, he]
  exact ⟨rfl, hs⟩

/-- A set that is no longer extended keeps its members. -/
theorem step_members (m : Main) (inputs : List MyString) {x : ℕ} {bs : List ℕ}
    (h : m.members x = some bs) : (step m inputs).2.members x = some bs := by
  have hs := (step_stored m inputs).2.sets
  unfold Main.members at h ⊢
  rw [← hs] at h
  have hx := (List.getElem?_eq_some_iff.mp h).1
  rw [List.getElem?_append_left hx, h]

theorem after_members (m : Main) (its : List (List MyString)) {x : ℕ} {bs : List ℕ}
    (h : m.members x = some bs) : (after step m its).members x = some bs :=
  after_invariant (I := fun s => s.members x = some bs) (fun s i => step_members s i) h its

/-- The record of an iteration, seen from the end of any number of later ones. -/
theorem complete_stored {m m' : Main} {inputs : List MyString} {r : Except Throwable Unit}
    (h : Stored m inputs m') (its : List (List MyString)) :
    Complete (after step m' its) ⟨m, inputs, r, m'⟩ m'.currentRun ↔ Accepted inputs := by
  constructor
  · rintro ⟨-, x, bs, hx, -⟩
    rcases h.branches with ⟨-, ha⟩ | ⟨hn, -⟩
    · exact ha
    · rw [hn] at hx
      cases hx
  · intro ha
    rcases h.branches with ⟨hb, -⟩ | ⟨-, hn⟩
    · have hmem : m'.members m'.sets.length = some m'.world.branches := List.getElem?_concat_length
      exact ⟨h.exceptions, _, _, hb, after_members m' its hmem, h.full.mem⟩
    · exact absurd ha hn

/-- Every iteration returns and appends its run, which is then seen from the state after the last
iteration. -/
theorem forall_runs {P : Main → Entry Main (List MyString) (Except Throwable Unit) → Run → Prop}
    (h : ∀ m inputs its, P (after step (step m inputs).2 its)
      ⟨m, inputs, (step m inputs).1, (step m inputs).2⟩ (step m inputs).2.currentRun)
    (m : Main) (its : List (List MyString)) :
    ∃ runs, (after step m its).runLst = m.runLst ++ runs ∧
      List.Forall₂ (P (after step m its)) (trace step m its) runs := by
  induction its generalizing m with
  | nil => exact ⟨[], (List.append_nil _).symm, .nil⟩
  | cons inputs its ih =>
    obtain ⟨runs, hlst, hruns⟩ := ih (step m inputs).2
    refine ⟨(step m inputs).2.currentRun :: runs, ?_, .cons (h m inputs its) hruns⟩
    rw [after_cons, hlst, (step_stored m inputs).2.runLst, List.append_assoc]
    rfl

/-- The iterations return, each appends a run to `runLst`, and the run is complete from then on
if an input of the iteration is accepted in the mode in which `reset()` leaves the engine. No
other run is. -/
theorem complete_iff (m : Main) (its : List (List MyString)) :
    (∀ e ∈ trace step m its, e.response = .ok ()) ∧
      ∃ runs, (after step m its).runLst = m.runLst ++ runs ∧
        List.Forall₂ (fun e run => Complete (after step m its) e run ↔ Accepted e.input)
          (trace step m its) runs := by
  have hreturns : ∀ e ∈ trace step m its, e.response = .ok () :=
    trace_forall (I := fun _ => True) (fun m inputs _ => ⟨(step_stored m inputs).1, trivial⟩)
      trivial its
  have hruns := forall_runs
    (P := fun s e run => Complete s e run ↔ Accepted e.input)
    (fun m inputs its => complete_stored (step_stored m inputs).2 its) m its
  exact ⟨hreturns, hruns⟩

/-- The fuzzer picked ten times a word that the mode of `reset()` rejects. -/
theorem not_complete_start :
    let inputs := List.replicate 10 (MyString.new "usr4_ai1_VoidReply")
    ¬ List.Forall₂ (Complete (after step start [inputs])) (trace step start [inputs])
      (after step start [inputs]).runLst := by
  intro inputs h
  have hnull : (after step start [inputs]).runLst.map Run.branches = [none] := by decide +kernel
  obtain ⟨run, rest, hrun, -, hlst⟩ := List.forall₂_cons_left_iff.mp h
  rw [hlst, List.map_cons] at hnull
  obtain ⟨x, bs, hx, -⟩ := hrun.branches
  rw [hx] at hnull
  cases hnull

end EcaEngines.Fuzzing
