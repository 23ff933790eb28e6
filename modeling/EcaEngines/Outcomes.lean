import EcaEngines.Described

/-!
# The outcomes that conditions refer to

A `Condition` refers to the register its test has written. The registers are shared by all
tests, so when the distances are computed a register holds the outcome of its last test.
-/
namespace EcaEngines.Outcomes
open Imperative Blocks Guards BranchDistance Described
open Calc (keptBool operation Recorded AllRecorded)
open Instrumented (World MyString MyInt MyBool Branch Condition Kept TypeEnum IntRef StringRef
  BoolRef)
open Original (Throwable noTransition)

/-- The state in which `main` starts. -/
def start : Watched := ⟨TaskOne.Direct.start, [], fun _ => 0, none, []⟩

/-- The outcome of every condition a comparison has recorded is that of the comparison. -/
def Compared (s : Watched) : Prop :=
  ∀ k ∈ s.world.branches, ∀ br, s.world.made[k]? = some br → ∀ cond ∈ br.condLst,
    cond.bTypeEnum ∈ [TypeEnum.myLess, .myLessEqual, .myGreaterEqual] →
      (keptBool s.world cond.boolOpA).val = operation s.world "" cond

/-- The outcome of every recorded condition is the value computed then. -/
def Preserved (s : Watched) : Prop :=
  ∀ call ∈ s.calls, ∀ k, call.br = some k →
    (keptBool s.world call.cond.boolOpA).val = call.outcome

/-- The conditions of a branch, if there is one. -/
def conditionsAt (made : List Branch) (k : ℕ) : List Condition :=
  (made[k]?.map (·.condLst)).getD []

theorem conditionsAt_concat (made : List Branch) (input : String) (k : ℕ) :
    conditionsAt (made ++ [⟨none, [], input⟩]) k = conditionsAt made k := by
  unfold conditionsAt
  rcases lt_trichotomy k made.length with hk | rfl | hk
  · rw [List.getElem?_append_left hk]
  · simp
  · rw [List.getElem?_eq_none (by simp; omega), List.getElem?_eq_none hk.le]

theorem conditionsAt_modify {made : List Branch} {k : ℕ} (hk : k < made.length)
    (f : Branch → Branch) (new : List Condition) (hf : ∀ b, (f b).condLst = b.condLst ++ new)
    (j : ℕ) : conditionsAt (made.modify k f) j =
      conditionsAt made j ++ if k = j then new else [] := by
  unfold conditionsAt
  rw [List.getElem?_modify]
  split_ifs with hj
  · subst hj
    simp [List.getElem?_eq_getElem hk, hf]
  · simp

/-- The branches have the recorded calls as conditions, and given calls are among them. -/
structure Sound (cs : List Call) (s : Watched) : Prop where
  logged : ∀ k, conditionsAt s.world.made k = (s.calls.filter (·.br = some k)).map (·.cond)
  recorded : ∀ c ∈ s.calls, Recorded c.cond
  has : ∀ c ∈ cs, c ∈ s.calls ∧ ∀ k, c.br = some k → k ∈ s.world.branches

/-- Moreover the branch `k` is made. -/
def SoundAt (cs : List Call) (k : ℕ) (s : Watched) : Prop := Sound cs s ∧ k < s.world.made.length

section
variable {cs : List Call} {k a : ℕ} {br : Option ℕ} {p : Prog Unit} {s t : Watched}

theorem sound_of_eq (h : Sound cs s)
    (hmade : ∀ k, conditionsAt t.world.made k = conditionsAt s.world.made k)
    (hcalls : t.calls = s.calls) (hbranches : ∀ k ∈ s.world.branches, k ∈ t.world.branches) :
    Sound cs t where
  logged k := by rw [hmade, hcalls, h.logged]
  recorded := hcalls ▸ h.recorded
  has c hc := ⟨hcalls ▸ (h.has c hc).1, fun k hk => hbranches k ((h.has c hc).2 k hk)⟩

theorem Sound.concat {c : Call} (h : Sound cs s) (hc : c ∈ s.calls)
    (hbranches : ∀ k, c.br = some k → k ∈ s.world.branches) : Sound (cs ++ [c]) s where
  logged := h.logged
  recorded := h.recorded
  has c' hc' := by
    rcases List.mem_append.mp hc' with hold | hnew
    · exact h.has c' hold
    · obtain rfl := List.mem_singleton.mp hnew
      exact ⟨hc, hbranches⟩

/-- A test adds to the branch what it adds to the record. -/
theorem keeps_tests (h : Tests p a br) (hbr : ∀ j, br = some j → j = k) :
    Keeps (SoundAt cs k) p := by
  rintro s ⟨⟨hlogged, hrec, hhas⟩, hk⟩
  obtain ⟨v, cond, w, he, -, hcond, -, hbranches, hw⟩ := h s
  rw [he]
  refine ⟨⟨fun j => ?_, fun c hc => ?_, fun c hc => ?_⟩, ?_⟩
  · have hnew : conditionsAt w.made j =
        conditionsAt s.world.made j ++ if br = some j then [cond] else [] := by
      cases br with
      | none => simp [hw]
      | some i =>
        obtain rfl := hbr i rfl
        have hmodify := conditionsAt_modify hk
          (fun b => { b with condLst := b.condLst ++ [cond] }) [cond] (fun _ => rfl) j
        simpa [hw] using hmodify
    simp only [hnew, hlogged, List.filter_append, List.map_append]
    split_ifs with hj <;> simp [hj]
  · rcases List.mem_append.mp hc with hc | hc
    · exact hrec c hc
    · exact List.mem_singleton.mp hc ▸ hcond
  · exact ⟨List.mem_append_left _ (hhas c hc).1, hbranches ▸ (hhas c hc).2⟩
  · cases br with
    | none => simpa [hw] using hk
    | some i => simpa [hw] using hk

/-- After its creation the branch has no condition, and no call is recorded in it. -/
theorem keeps_newBranch (input : String) {β : Type} {q : ℕ → Prog β}
    (h : ∀ k, Keeps (SoundAt cs k) (q k)) : Keeps (Sound cs) (newBranch input >>= q) := by
  intro s hs
  have hnew : exec (newBranch input) s =
      (.ok s.world.made.length, (exec (newBranch input) s).2) := rfl
  rw [exec_bind_ok hnew]
  refine (h _ (exec (newBranch input) s).2 ⟨sound_of_eq hs (fun k => ?_) rfl fun k hk => hk, ?_⟩).1
  · exact conditionsAt_concat s.world.made input k
  · change s.world.made.length < (s.world.made ++ [_]).length
    simp

theorem keeps_setDependentVariable (b : BoolRef) :
    Keeps (SoundAt cs k) (setDependentVariable k b) := by
  rintro s ⟨hs, hk⟩
  refine ⟨sound_of_eq hs (fun j => ?_) rfl fun j hj => hj, ?_⟩
  · have hmodify := conditionsAt_modify hk
      (fun b' => { b' with dependentVariable := some (s.world.keepBool b) }) []
      (fun _ => (List.append_nil _).symm) j
    rw [ite_self, List.append_nil] at hmodify
    exact hmodify
  · exact hk.trans_eq (List.length_modify ..).symm

theorem branchesAdd_subset (k : ℕ) (s : Watched) :
    ∀ j ∈ s.world.branches, j ∈ (exec (branchesAdd k) s).2.world.branches := by
  intro j hj
  change j ∈ if k ∈ s.world.branches then s.world.branches else s.world.branches ++ [k]
  split_ifs
  · exact hj
  · exact List.mem_append_left _ hj

theorem keeps_branchesAdd : Keeps (SoundAt cs k) (branchesAdd k) :=
  fun s ⟨hs, hk⟩ => ⟨sound_of_eq hs (fun _ => rfl) rfl (branchesAdd_subset k s), hk⟩

theorem keeps_myIf (b : BoolRef) : Keeps (SoundAt cs k) (I.myIf b) := by
  refine Keeps.bind (keeps_modify fun s ⟨hs, hk⟩ => ?_) fun _ => fun s ⟨hs, hk⟩ =>
    ⟨sound_of_eq hs (fun _ => rfl) rfl fun _ hj => hj, hk⟩
  cases s.added with
  | none => exact ⟨hs, hk⟩
  | some j => exact ⟨sound_of_eq hs (fun _ => rfl) rfl fun _ hj => hj, hk⟩

theorem keeps_setCf (b : MyBool) : Keeps (Sound cs) (setCf b) :=
  fun _ hs => sound_of_eq hs (fun _ => rfl) rfl fun _ hj => hj

theorem keeps_block (t : Transitions.Transition) : Keeps (Sound cs) (lift (block .copied t)) := by
  intro s hs
  rw [exec_lift]
  refine sound_of_eq hs (fun k => ?_) rfl fun j hj => ?_
  · rw [block_made]
  · rwa [block_branches]

theorem keeps_myEquals (b : StringRef) (c : String) :
    Keeps (SoundAt cs k) (I.myEquals a b c (some k)) :=
  keeps_tests (tests_myEquals a b c _) fun _ h => (Option.some.inj h).symm

theorem keeps_myLess (b c : IntRef) : Keeps (SoundAt cs k) (I.myLess a b c (some k)) :=
  keeps_tests (tests_myLess a b c _) fun _ h => (Option.some.inj h).symm

theorem keeps_myLessEqual (b c : IntRef) : Keeps (SoundAt cs k) (I.myLessEqual a b c (some k)) :=
  keeps_tests (tests_myLessEqual a b c _) fun _ h => (Option.some.inj h).symm

theorem keeps_myGreaterEqual (b c : IntRef) :
    Keeps (SoundAt cs k) (I.myGreaterEqual a b c (some k)) :=
  keeps_tests (tests_myGreaterEqual a b c _) fun _ h => (Option.some.inj h).symm

theorem keeps_myAnd (b c : BoolRef) : Keeps (SoundAt cs k) (I.myAnd a b c (some k)) :=
  keeps_tests (tests_myAnd a b c _) fun _ h => (Option.some.inj h).symm

theorem keeps_myAnd_unrecorded (b c : BoolRef) : Keeps (SoundAt cs k) (I.myAnd a b c) :=
  keeps_tests (tests_myAnd a b c _) nofun

theorem keeps_check (input : MyString) : Keeps (Sound cs) (check input) :=
  keeps_newBranch _ fun _ => (keeps_myEquals _ _).bind fun _ => (keeps_myEquals _ _).bind fun _ =>
    (keeps_myEquals _ _).bind fun _ => (keeps_myEquals _ _).bind fun _ =>
    (keeps_myEquals _ _).bind fun _ => (keeps_myAnd _ _).bind fun _ =>
    (keeps_myAnd _ _).bind fun _ => (keeps_myAnd _ _).bind fun _ => (keeps_myAnd _ _).bind fun _ =>
    keeps_branchesAdd.bind fun _ => keeps_myIf _

end

section
variable {s : Watched} {input : MyString}

/-- The check before the call never fails. -/
theorem exec_check (input : MyString) (s : Watched) :
    exec (check input) s = (.ok false, (exec (check input) s).2) ∧
      Same s.world (exec (check input) s).2.world := by
  obtain ⟨w, he, hs⟩ := Fuzzer.check_tests input s.world
  rw [check_runs input s] at he
  obtain ⟨hok, rfl⟩ := Prod.mk.injEq .. ▸ he
  exact ⟨Prod.ext hok rfl, hs⟩

theorem exec_process (input : MyString) (s : Watched) :
    exec (process input) s = exec (tryCatch (CalculateOutput input) fun e => match e with
      | .illegalArgument _ => pure ()
      | e => throw e) (exec (check input) s).2 :=
  exec_bind_ok (exec_ifM_of_false (exec_check input s).1)

/-- The exception for a rejected input is caught. -/
theorem process_returns (input : MyString) (s : Watched) :
    (exec (process input) s).1 = .ok () := by
  rw [exec_process, exec_tryCatch]
  generalize (exec (check input) s).2 = t
  have hout := Fuzzer.CalculateOutput_implements input t.world
  rw [CalculateOutput_runs input t] at hout
  rcases he : exec (CalculateOutput input) t with ⟨e | a, u⟩ <;> rw [he] at hout
  · cases hf : Transitions.fired t.world.view input.val <;> rw [hf] at hout <;> cases hout
    rfl

theorem exec_main (inputs : List MyString) (s : Watched) : exec (main inputs) s =
    exec (inputs.forM process) { s with world := Instrumented.reset s.world } := rfl

/-- The loop goes on after each input. -/
theorem exec_forM_cons (input : MyString) (inputs : List MyString) (s : Watched) :
    exec ((input :: inputs).forM process) s =
      exec (inputs.forM process) (exec (process input) s).2 := by
  have hi : exec (process input) s = (.ok (), (exec (process input) s).2) :=
    Prod.ext (process_returns input s) rfl
  exact exec_bind_ok hi

theorem main_returns (inputs : List MyString) (s : Watched) :
    (exec (main inputs) s).1 = .ok () := by
  rw [exec_main]
  generalize ({ s with world := Instrumented.reset s.world } : Watched) = t
  induction inputs generalizing t with
  | nil => rfl
  | cons i is ih =>
    rw [exec_forM_cons]
    exact ih _

/-- The comparison of the first region, recorded in a new branch. -/
def lowCall (s : Watched) : Call :=
  ⟨⟨.myLessEqual, .register 1, none, none, none, none, some (.object s.world.a2108127495),
    some (.object (.new (-164)))⟩, some s.world.made.length, s.world.a2108127495.val ≤ -164⟩

/-- The first comparison of the second region. It writes the same register. -/
def middleCall (s : Watched) : Call :=
  ⟨⟨.myLess, .register 1, none, none, none, none, some (.object (.new (-164))),
    some (.object s.world.a2108127495)⟩, some s.world.made.length,
    -164 < s.world.a2108127495.val⟩

/-- What a condition of the engine does: its value, the call it leaves in the record, and the
branch of that call. -/
structure Leaves (c : Prog Bool) (f : Bool → Int32 → Bool) (call : Watched → Call) : Prop where
  value : ∀ s, (exec c s).1 = .ok (f s.world.cf.val s.world.a2108127495.val)
  same : ∀ s, Same s.world (exec c s).2.world
  calls : ∀ s, call s ∈ (exec c s).2.calls
  branches : ∀ s, ∀ k, (call s).br = some k → k ∈ (exec c s).2.world.branches

/-- The world stays the same but for what tests write. -/
def SameAs (w : World) (s : Watched) : Prop := Same w s.world

theorem same_tests {w : World} {p : Prog Unit} {a : ℕ} {br : Option ℕ} (h : Tests p a br) :
    Keeps (SameAs w) p := by
  intro s hs
  obtain ⟨v, cond, w', he, -, -, hsame, -⟩ := h s
  rw [he]
  exact hs.trans hsame

theorem same_newBranch {w : World} (input : String) : Keeps (SameAs w) (newBranch input) :=
  fun _ hs => Same.trans hs rfl

theorem same_branchesAdd {w : World} (k : ℕ) : Keeps (SameAs w) (branchesAdd k) :=
  fun _ hs => Same.trans hs rfl

theorem same_myIf {w : World} (b : BoolRef) : Keeps (SameAs w) (I.myIf b) := by
  refine Keeps.bind (keeps_modify fun s hs => ?_) fun _ _ hs => Same.trans hs rfl
  cases s.added <;> exact hs

theorem mem_branchesAdd (branches : List ℕ) (k : ℕ) :
    k ∈ if k ∈ branches then branches else branches ++ [k] := by
  split_ifs with h
  · exact h
  · exact List.mem_append_right _ List.mem_cons_self

theorem leaves_low (input : String) : Leaves (do
    let br1 ← newBranch input
    I.myLessEqual 1 .a2108127495 (.int (-164)) br1
    I.myAnd 2 .cf (.bool 1)
    branchesAdd br1
    I.myIf (.bool 2)) (fun cf a => cf && a ≤ -164) lowCall where
  value _ := rfl
  same s := ((same_newBranch _).bind fun _ => (same_tests (tests_myLessEqual _ _ _ _)).bind fun _ =>
    (same_tests (tests_myAnd _ _ _ _)).bind fun _ => (same_branchesAdd _).bind fun _ =>
    same_myIf _) s (Same.refl _)
  calls s := by
    change lowCall s ∈ s.calls ++ [lowCall s] ++ [_]
    simp
  branches s k hk := by
    obtain rfl := Option.some.inj hk
    exact mem_branchesAdd s.world.branches s.world.made.length

theorem leaves_middle (input : String) : Leaves (do
    let br3 ← newBranch input
    I.myLess 1 (.int (-164)) .a2108127495 br3
    I.myGreaterEqual 2 (.int (-19)) .a2108127495 br3
    I.myAnd 3 (.bool 1) (.bool 2) br3
    I.myAnd 4 .cf (.bool 3) br3
    branchesAdd br3
    I.myIf (.bool 4)) (fun cf a => cf && (-164 < a && -19 ≥ a)) middleCall where
  value _ := rfl
  same s := ((same_newBranch _).bind fun _ => (same_tests (tests_myLess _ _ _ _)).bind fun _ =>
    (same_tests (tests_myGreaterEqual _ _ _ _)).bind fun _ =>
    (same_tests (tests_myAnd _ _ _ _)).bind fun _ =>
    (same_tests (tests_myAnd _ _ _ _)).bind fun _ => (same_branchesAdd _).bind fun _ =>
    same_myIf _) s (Same.refl _)
  calls s := by
    change middleCall s ∈ s.calls ++ [middleCall s] ++ [_] ++ [_] ++ [_]
    simp
  branches s k hk := by
    obtain rfl := Option.some.inj hk
    exact mem_branchesAdd s.world.branches s.world.made.length

/-- The tests of the first two regions stand at the beginning. -/
theorem CalculateOutput_eq (input : MyString) : ∃ low body middle body' rest,
    CalculateOutput input = (setCf (.new2 true "cf") >>= fun _ => ifM low body >>= fun _ =>
      ifM middle body' >>= fun _ => rest) ∧
    Leaves low (fun cf a => cf && a ≤ -164) lowCall ∧
    Leaves middle (fun cf a => cf && (-164 < a && -19 ≥ a)) middleCall ∧
    ∀ cs, Keeps (Sound cs) low ∧ Keeps (Sound cs) body ∧ Keeps (Sound cs) middle ∧
      Keeps (Sound cs) body' ∧ Keeps (Sound cs) rest := by
  refine ⟨_, _, _, _, _, rfl, leaves_low _, leaves_middle _, fun cs => ⟨?_, ?_, ?_, ?_, ?_⟩⟩
  all_goals
    try unfold CalculateOutputm1
    try unfold CalculateOutputm2 CalculateOutputm3 CalculateOutputm4 CalculateOutputm5
    try unfold CalculateOutputm6 CalculateOutputm7 CalculateOutputm8
    with_reducible repeat' first
      | exact keeps_block _
      | exact keeps_throw _ _
      | exact keeps_myEquals _ _
      | exact keeps_myAnd _ _
      | exact keeps_myAnd_unrecorded _ _
      | exact keeps_myLess _ _
      | exact keeps_myLessEqual _ _
      | exact keeps_myGreaterEqual _ _
      | exact keeps_setDependentVariable _
      | exact keeps_branchesAdd
      | exact keeps_myIf _
      | refine keeps_newBranch _ fun _ => ?_
      | refine Keeps.ifM ?_ ?_
      | refine Keeps.bind ?_ fun _ => ?_

theorem keeps_CalculateOutput {cs : List Call} (input : MyString) :
    Keeps (Sound cs) (CalculateOutput input) := by
  obtain ⟨low, body, middle, body', rest, he, -, -, hkeeps⟩ := CalculateOutput_eq input
  obtain ⟨hlow, hbody, hmiddle, hbody', hrest⟩ := hkeeps cs
  rw [he]
  exact (keeps_setCf _).bind fun _ => (hlow.ifM hbody).bind fun _ =>
    (hmiddle.ifM hbody').bind fun _ => hrest

theorem keeps_handled {cs : List Call} (input : MyString) :
    Keeps (Sound cs) (tryCatch (CalculateOutput input) fun e => match e with
      | .illegalArgument _ => pure ()
      | e => throw e) := by
  refine (keeps_CalculateOutput input).tryCatch fun e => ?_
  cases e with
  | illegalArgument => exact keeps_pure _ _
  | arithmetic | nullPointer => exact keeps_throw _ _

theorem keeps_process {cs : List Call} (input : MyString) : Keeps (Sound cs) (process input) :=
  ((keeps_check input).ifM (keeps_throw _ _)).bind fun _ => keeps_handled input

/-- Outside the first region both comparisons are made on the same object, and recorded. -/
theorem CalculateOutput_calls (input : MyString) (hs : Sound [] s)
    (ha : ¬ s.world.a2108127495.val ≤ -164) :
    ∃ u v, Sound [lowCall u, middleCall v] (exec (CalculateOutput input) s).2 ∧
      u.world.a2108127495 = v.world.a2108127495 := by
  obtain ⟨low, body, middle, body', rest, he, hlow, hmiddle, hkeeps⟩ := CalculateOutput_eq input
  have hset : exec (setCf (.new2 true "cf")) s = (.ok (), (exec (setCf (.new2 true "cf")) s).2) :=
    rfl
  generalize hu : (exec (setCf (.new2 true "cf")) s).2 = u at hset
  have hua : u.world.a2108127495 = s.world.a2108127495 := by
    rw [← hu]
    rfl
  have hfalse : exec low u = (.ok false, (exec low u).2) := by
    refine Prod.ext ((hlow.value u).trans ?_) rfl
    rw [hua, decide_eq_false ha, Bool.and_false]
  refine ⟨u, (exec low u).2, ?_, (hlow.same u).fields.2.1.symm⟩
  rw [he, exec_bind_ok hset, exec_bind_ok (exec_ifM_of_false hfalse)]
  have hsound : Sound [] u := hu ▸ keeps_setCf _ s hs
  have hlows : Sound [lowCall u] (exec low u).2 :=
    ((hkeeps []).1 u hsound).concat (hlow.calls u) (hlow.branches u)
  have hmid : Sound [lowCall u, middleCall (exec low u).2] (exec middle (exec low u).2).2 :=
    ((hkeeps [lowCall u]).2.2.1 _ hlows).concat (hmiddle.calls _) (hmiddle.branches _)
  obtain ⟨-, -, -, hbody', hrest⟩ := hkeeps [lowCall u, middleCall (exec low u).2]
  have hif (b : Bool) : Keeps (Sound [lowCall u, middleCall (exec low u).2])
      ((if b then body' else pure ()) >>= fun _ => rest) := by
    cases b with
    | true => exact hbody'.bind fun _ => hrest
    | false => exact (keeps_pure _ _).bind fun _ => hrest
  rcases hm : exec middle (exec low u).2 with ⟨e | b, v⟩ <;> rw [hm] at hmid
  · exact absurd ((hmiddle.value _).symm.trans (congrArg Prod.fst hm)) nofun
  · have hkept := hif b v hmid
    rw [exec_bind] at hkept
    rw [exec_bind, ifM, exec_bind_ok hm]
    exact hkept

theorem Sound.member {cs : List Call} {c : Call} {k : ℕ} (h : Sound cs s) (hc : c ∈ cs)
    (hk : c.br = some k) : k ∈ s.world.branches ∧
      ∃ br, s.world.made[k]? = some br ∧ c.cond ∈ br.condLst := by
  obtain ⟨hmem, hbranches⟩ := h.has c hc
  refine ⟨hbranches k hk, ?_⟩
  have hcond : c.cond ∈ conditionsAt s.world.made k := by
    rw [h.logged]
    exact List.mem_map_of_mem (List.mem_filter.mpr ⟨hmem, decide_eq_true hk⟩)
  unfold conditionsAt at hcond
  cases hbr : s.world.made[k]? with
  | none => simp [hbr] at hcond
  | some br => exact ⟨br, rfl, by simpa [hbr] using hcond⟩

/-- The two comparisons cannot both have the outcome that their register holds. -/
theorem not_compared {u v : Watched} (h : Sound [lowCall u, middleCall v] s)
    (ha : u.world.a2108127495 = v.world.a2108127495) : ¬ Compared s ∧ ¬ Preserved s := by
  have hnot : decide (-164 < v.world.a2108127495.val) =
      !decide (u.world.a2108127495.val ≤ -164) := by
    rw [Bool.eq_iff_iff, Bool.not_eq_true', decide_eq_true_iff, decide_eq_false_iff_not, ha,
      Int32.not_le]
  constructor
  · intro hcomp
    obtain ⟨hk, br, hbr, hcond⟩ := h.member List.mem_cons_self rfl
    obtain ⟨hk', br', hbr', hcond'⟩ :=
      h.member (List.mem_cons_of_mem _ List.mem_cons_self) rfl
    have hlow : (s.world.bool 1).val = decide (u.world.a2108127495.val ≤ -164) :=
      hcomp _ hk br hbr _ hcond (List.mem_cons_of_mem _ List.mem_cons_self)
    have hmiddle : (s.world.bool 1).val = decide (-164 < v.world.a2108127495.val) :=
      hcomp _ hk' br' hbr' _ hcond' List.mem_cons_self
    rw [hnot, ← hlow] at hmiddle
    exact absurd hmiddle (Bool.self_ne_not _)
  · intro hpres
    have hlow : (s.world.bool 1).val = decide (u.world.a2108127495.val ≤ -164) :=
      hpres _ (h.has _ List.mem_cons_self).1 _ rfl
    have hmiddle : (s.world.bool 1).val = decide (-164 < v.world.a2108127495.val) :=
      hpres _ (h.has _ (List.mem_cons_of_mem _ List.mem_cons_self)).1 _ rfl
    rw [hnot, ← hlow] at hmiddle
    exact absurd hmiddle (Bool.self_ne_not _)

/-- What the first input leaves stays. -/
theorem forM_sound (h : Sound [] s) (ha : ¬ s.world.a2108127495.val ≤ -164) (input : MyString)
    (inputs : List MyString) : ∃ u v,
      Sound [lowCall u, middleCall v] (exec ((input :: inputs).forM process) s).2 ∧
        u.world.a2108127495 = v.world.a2108127495 := by
  have hcheck : Sound [] (exec (check input) s).2 := keeps_check input s h
  have hca : ¬ (exec (check input) s).2.world.a2108127495.val ≤ -164 := by
    rwa [(exec_check input s).2.fields.2.1]
  obtain ⟨u, v, hsound, hobj⟩ := CalculateOutput_calls input hcheck hca
  refine ⟨u, v, ?_, hobj⟩
  have hprocess : Sound [lowCall u, middleCall v] (exec (process input) s).2 := by
    rw [exec_process, exec_tryCatch]
    rcases he : exec (CalculateOutput input) (exec (check input) s).2 with ⟨e | a, t⟩ <;>
      rw [he] at hsound
    · cases e <;> exact hsound
    · exact hsound
  rw [exec_forM_cons]
  exact Keeps.forM (fun i => keeps_process i) inputs _ hprocess

theorem start_sound :
    Sound [] ({ start with world := Instrumented.reset start.world } : Watched) where
  logged _ := rfl
  recorded _ hc := absurd hc List.not_mem_nil
  has _ hc := absurd hc List.not_mem_nil

/-- All conditions that `CalculateDistance` meets have the shape of recorded ones. -/
theorem main_recorded (inputs : List MyString) :
    AllRecorded (exec (main inputs) start).2.world := by
  have hsound : Sound [] (exec (main inputs) start).2 :=
    Keeps.forM (fun i => keeps_process i) inputs _ start_sound
  intro br hbr cond hcond
  obtain ⟨k, hk, rfl⟩ := List.mem_iff_getElem.mp hbr
  have hat : cond ∈ conditionsAt (exec (main inputs) start).2.world.made k := by
    unfold conditionsAt
    rwa [List.getElem?_eq_getElem hk]
  rw [hsound.logged, List.mem_map] at hat
  obtain ⟨c, hc, rfl⟩ := hat
  exact hsound.recorded c (List.mem_filter.mp hc).1

/-- So the computation of the distances, which follows the loop, ends for every input. -/
theorem main_distances (inputs : List MyString) (trace : String)
    (branches : List (Fin (exec (main inputs) start).2.world.made.length)) :
    ∃ map, Calc.CalculateDistance (exec (main inputs) start).2.world inputs branches trace =
      .ok map :=
  ⟨_, Calc.CalculateDistance_eq fun _ _ => main_recorded inputs _ (List.getElem_mem _)⟩

theorem not_compared_main (input : MyString) (inputs : List MyString) :
    ¬ Compared (exec (main (input :: inputs)) start).2 ∧
      ¬ Preserved (exec (main (input :: inputs)) start).2 := by
  rw [exec_main]
  obtain ⟨u, v, hsound, ha⟩ := forM_sound start_sound (by decide) input inputs
  exact not_compared hsound ha

/-- The loop ends, and after it the outcomes are those that occurred if and only if there was no
input. -/
theorem outcomes_iff (inputs : List MyString) :
    (exec (main inputs) start).1 = .ok () ∧
      (Compared (exec (main inputs) start).2 ↔ inputs = []) ∧
      (Preserved (exec (main inputs) start).2 ↔ inputs = []) := by
  refine ⟨main_returns inputs start, ?_⟩
  cases inputs with
  | nil =>
    have hnil (s : Watched) : exec (([] : List MyString).forM process) s = (.ok (), s) := rfl
    rw [exec_main, hnil]
    refine ⟨iff_of_true (fun k hk => ?_) rfl, iff_of_true (fun call hcall => ?_) rfl⟩
    · exact absurd hk List.not_mem_nil
    · exact absurd hcall List.not_mem_nil
  | cons i is =>
    obtain ⟨hcomp, hpres⟩ := not_compared_main i is
    exact ⟨iff_of_false hcomp (List.cons_ne_nil i is), iff_of_false hpres (List.cons_ne_nil i is)⟩

theorem not_preserved_one :
    ¬ (Compared (exec (main [.new2 "ai1_ce1" true]) start).2 ∧
      Preserved (exec (main [.new2 "ai1_ce1" true]) start).2) :=
  fun h => (not_compared_main _ _).1 h.1

end

end EcaEngines.Outcomes
