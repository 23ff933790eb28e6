import EcaEngines.BranchDistance
import EcaEngines.Calc

/-!
# Branches and the decisions they stand for

Before each decision the engine of the second task creates a branch, makes the tests, links
the branch to the variable decided on, and adds it. The rules below follow these steps, from
the creation of a branch to the decision.
-/
namespace EcaEngines.Described
open Imperative Dispatch Blocks BranchDistance
open Guards (Same)
open Calc (Recorded)
open Instrumented (World MyString MyBool Branch Condition Kept IntRef StringRef BoolRef)
open Original (Throwable noTransition)

/-- The branch refers to what is decided on, and it has the tests since it was created as its
conditions. The last of them has set what is decided on, which is `cf` if there is none. -/
structure Describes (dec : Decision) : Prop where
  dependentVariable : dec.branch.dependentVariable = some dec.d
  condLst : dec.branch.condLst = dec.calls.map (·.cond)
  last : match dec.d with
    | .register _ => dec.branch.condLst.getLast?.map (·.boolOpA) = some dec.d
    | .object _ => dec.branch.condLst = []

/-- The methods of the engine. -/
def method : Mode → MyString → Prog Unit
  | .m1 => CalculateOutputm1
  | .m2 => CalculateOutputm2
  | .m3 => CalculateOutputm3
  | .m4 => CalculateOutputm4
  | .m5 => CalculateOutputm5
  | .m6 => CalculateOutputm6
  | .m7 => CalculateOutputm7
  | .m8 => CalculateOutputm8

/-- The decisions of a run, on branches it adds. -/
def decisionsOf (p : Prog Unit) (s : Watched) : List Decision :=
  (exec p { s with added := none, decisions := [] }).2.decisions

/-- The program returns, without a decision. -/
def Steps {α : Type} (P : Watched → Prop) (p : Prog α) (Q : α → Watched → Prop) : Prop :=
  ∀ s, P s → ∃ a t, exec p s = (.ok a, t) ∧ t.decisions = s.decisions ∧ Q a t

/-- The program returns after one decision, which has `D`. -/
def Decides (P : Watched → Prop) (D : Decision → Prop) (p : Prog Bool) : Prop :=
  ∀ s, P s → ∃ b t dec, exec p s = (.ok b, t) ∧ t.decisions = s.decisions ++ [dec] ∧ D dec

/-- There are further decisions, all with `D`. -/
def Adds (D : Decision → Prop) (s t : Watched) : Prop :=
  ∃ new, t.decisions = s.decisions ++ new ∧ ∀ dec ∈ new, D dec

/-- Nothing may be thrown past. -/
abbrev Moved (D : Decision → Prop) {α : Type} (p : Prog α) : Prop :=
  Moves (Adds D) (fun _ => False) p

/-- There is a decision, and the first has `D`. -/
def Begins (D : Decision → Prop) {α : Type} (p : Prog α) : Prop :=
  ∀ s, ∃ dec new, (exec p s).2.decisions = s.decisions ++ dec :: new ∧ D dec

section
variable {α : Type} {P : Watched → Prop} {D D' : Decision → Prop} {s t u : Watched}

theorem Steps.decides {p : Prog α} {Q : α → Watched → Prop} {k : α → Prog Bool}
    (hp : Steps P p Q) (hk : ∀ a, Decides (Q a) D (k a)) : Decides P D (p >>= k) := by
  intro s hs
  obtain ⟨a, t, ht, hdec, hQ⟩ := hp s hs
  obtain ⟨b, u, dec, hu, hdec', hD⟩ := hk a t hQ
  exact ⟨b, u, dec, (exec_bind_ok ht).trans hu, hdec'.trans (by rw [hdec]), hD⟩

theorem Adds.refl (s : Watched) : Adds D s s := ⟨[], (List.append_nil _).symm, nofun⟩

theorem Adds.trans (h : Adds D s t) (k : Adds D t u) : Adds D s u := by
  obtain ⟨new, hnew, hD⟩ := h
  obtain ⟨new', hnew', hD'⟩ := k
  refine ⟨new ++ new', by rw [hnew', hnew, List.append_assoc], fun dec hdec => ?_⟩
  exact (List.mem_append.mp hdec).elim (hD dec) (hD' dec)

theorem Adds.mono (h : Adds D s t) (hD : ∀ dec, D dec → D' dec) : Adds D' s t := by
  obtain ⟨new, hnew, hnewD⟩ := h
  exact ⟨new, hnew, fun dec hdec => hD dec (hnewD dec hdec)⟩

theorem Decides.moved {c : Prog Bool} (h : Decides (fun _ => True) D c) : Moved D c := by
  intro s r t he _
  obtain ⟨b, t', dec, ht, hdec, hD⟩ := h s trivial
  obtain ⟨-, rfl⟩ := Prod.mk.injEq .. ▸ he.symm.trans ht
  exact ⟨[dec], hdec, fun dec' hdec' => List.mem_singleton.mp hdec' ▸ hD⟩

theorem Moved.bind {β : Type} {p : Prog α} {k : α → Prog β} (hp : Moved D p)
    (hk : ∀ a, Moved D (k a)) : Moved D (p >>= k) := Moves.bind Adds.trans hp hk

theorem Moved.ifM {c : Prog Bool} {p : Prog Unit} (hc : Moved D c) (hp : Moved D p) :
    Moved D (ifM c p) := Moves.ifM Adds.refl Adds.trans hc hp

theorem Moved.adds {p : Prog α} (h : Moved D p) (s : Watched) : Adds D s (exec p s).2 :=
  h s _ _ rfl fun _ _ => id

theorem Decides.begins {c : Prog Bool} (h : Decides (fun _ => True) D c) : Begins D c := by
  intro s
  obtain ⟨b, t, dec, ht, hdec, hD⟩ := h s trivial
  exact ⟨dec, [], by rw [ht, hdec], hD⟩

theorem Begins.bind {β : Type} {p : Prog α} {k : α → Prog β} (hp : Begins D p)
    (hk : ∀ a, Moved D' (k a)) : Begins D (p >>= k) := by
  intro s
  obtain ⟨dec, new, hdec, hD⟩ := hp s
  rw [exec_bind]
  rcases he : exec p s with ⟨e | a, t⟩ <;> rw [he] at hdec
  · exact ⟨dec, new, hdec, hD⟩
  · obtain ⟨new', hnew', -⟩ := (hk a).adds t
    refine ⟨dec, new ++ new', ?_, hD⟩
    change (exec (k a) t).2.decisions = _
    rw [hnew', hdec, List.append_assoc, List.cons_append]

theorem Begins.ifM {c : Prog Bool} {p : Prog Unit} (hc : Begins D c) (hp : Moved D' p) :
    Begins D (ifM c p) :=
  hc.bind fun b => by cases b with
    | true => exact hp
    | false => exact moves_of_exec (fun _ => rfl) Adds.refl

theorem moved_lift (p : Instrumented.Prog α) : Moved D (lift p) :=
  moves_of_exec (exec_lift p) fun _ => ⟨[], (List.append_nil _).symm, nofun⟩

end

/-- The branch `k` has the link `dep` and the calls since its creation. -/
structure Open (k : ℕ) (dep : Option (Kept MyBool)) (calls : List Call) (s : Watched) : Prop where
  made : ∃ input, s.world.made[k]? = some ⟨dep, calls.map (·.cond), input⟩
  calls : s.calls.drop (s.created k) = calls
  created : s.created k ≤ s.calls.length

/-- The last of its tests has set the register `a`, if there is any. -/
def Filled (k : ℕ) (dep : Option (Kept MyBool)) (a : Option ℕ) (s : Watched) : Prop :=
  ∃ calls, Open k dep calls s ∧ calls.getLast?.map (·.cond.boolOpA) = a.map .register

/-- The branch `k` refers to no variable. -/
def Unlinked (k : ℕ) (s : Watched) : Prop :=
  ∃ br, s.world.made[k]? = some br ∧ br.dependentVariable = none

/-- The program makes one test. It may be recorded in the branch `br`. -/
def Tests (p : Prog Unit) (a : ℕ) (br : Option ℕ) : Prop :=
  ∀ s, ∃ v cond w,
    exec p s = (.ok (), { s with world := w, calls := s.calls ++ [⟨cond, br, v⟩] }) ∧
    cond.boolOpA = .register a ∧ Recorded cond ∧ Same s.world w ∧
    w.branches = s.world.branches ∧
    w.made = match br with
      | none => s.world.made
      | some k => s.world.made.modify k fun b => { b with condLst := b.condLst ++ [cond] }

section
variable {p : Prog Unit} {a k : ℕ} {br x : Option ℕ} {dep : Option (Kept MyBool)}

theorem tests_myLess (a : ℕ) (b c : IntRef) (br : Option ℕ) : Tests (I.myLess a b c br) a br := by
  intro s
  cases br <;> cases b <;> cases c <;> exact ⟨_, _, _, rfl, rfl, .myLess, rfl, rfl, rfl⟩

theorem tests_myLessEqual (a : ℕ) (b c : IntRef) (br : Option ℕ) :
    Tests (I.myLessEqual a b c br) a br := by
  intro s
  cases br <;> cases b <;> cases c <;> exact ⟨_, _, _, rfl, rfl, .myLessEqual, rfl, rfl, rfl⟩

theorem tests_myGreaterEqual (a : ℕ) (b c : IntRef) (br : Option ℕ) :
    Tests (I.myGreaterEqual a b c br) a br := by
  intro s
  cases br <;> cases b <;> cases c <;> exact ⟨_, _, _, rfl, rfl, .myGreaterEqual, rfl, rfl, rfl⟩

theorem tests_myEquals (a : ℕ) (b : StringRef) (c : String) (br : Option ℕ) :
    Tests (I.myEquals a b c br) a br := by
  intro s
  cases br <;> cases b <;> exact ⟨_, _, _, rfl, rfl, .myEquals, rfl, rfl, rfl⟩

theorem tests_myAnd (a : ℕ) (b c : BoolRef) (br : Option ℕ) : Tests (I.myAnd a b c br) a br := by
  intro s
  cases br <;> cases b <;> cases c <;> exact ⟨_, _, _, rfl, rfl, .myAnd, rfl, rfl, rfl⟩

/-- A test recorded in the branch keeps it complete. -/
theorem Tests.filled (h : Tests p a (some k)) :
    Steps (Filled k dep x) p fun _ => Filled k dep (some a) := by
  rintro s ⟨calls, ⟨⟨input, hmade⟩, hcalls, hcreated⟩, -⟩
  obtain ⟨v, cond, w, he, hcond, -, -, -, hw⟩ := h s
  refine ⟨(), _, he, rfl, calls ++ [⟨cond, some k, v⟩], ⟨⟨input, ?_⟩, ?_, ?_⟩, ?_⟩
  · simp [hw, hmade]
  · simp only [List.drop_append_of_le_length hcreated, hcalls]
  · exact hcreated.trans (by simp)
  · simp [hcond]

theorem Tests.unlinked (h : Tests p a br) : Steps (Unlinked k) p fun _ => Unlinked k := by
  rintro s ⟨b, hmade, hdep⟩
  obtain ⟨v, cond, w, he, -, -, -, -, hw⟩ := h s
  refine ⟨(), _, he, rfl, ?_⟩
  cases br with
  | none => exact ⟨b, hw ▸ hmade, hdep⟩
  | some j =>
    refine ⟨_, by rw [hw, List.getElem?_modify, hmade]; rfl, ?_⟩
    split_ifs <;> exact hdep

theorem newBranch_filled (input : String) :
    Steps (fun _ => True) (newBranch input) fun k => Filled k none none := by
  intro s _
  refine ⟨s.world.made.length, _, rfl, rfl, [], ⟨⟨input, ?_⟩, ?_, ?_⟩, rfl⟩
  · exact List.getElem?_concat_length
  · simp
  · simp

theorem newBranch_unlinked (input : String) :
    Steps (fun _ => True) (newBranch input) Unlinked := by
  intro s _
  exact ⟨s.world.made.length, _, rfl, rfl, _, List.getElem?_concat_length, rfl⟩

theorem setDependentVariable_filled (a : ℕ) : Steps (Filled k none x)
    (setDependentVariable k (.bool a)) fun _ => Filled k (some (.register a)) x := by
  rintro s ⟨calls, ⟨⟨input, hmade⟩, hcalls, hcreated⟩, hlast⟩
  refine ⟨(), _, rfl, rfl, calls, ⟨⟨input, ?_⟩, hcalls, hcreated⟩, hlast⟩
  simp [Instrumented.setDependentVariable, hmade, World.keepBool]

theorem branchesAdd_filled : Steps (Filled k dep x) (branchesAdd k)
    fun _ s => s.added = some k ∧ Filled k dep x s := by
  rintro s ⟨calls, ⟨hmade, hcalls, hcreated⟩, hlast⟩
  exact ⟨(), _, rfl, rfl, rfl, calls, ⟨hmade, hcalls, hcreated⟩, hlast⟩

theorem branchesAdd_unlinked : Steps (Unlinked k) (branchesAdd k)
    fun _ s => s.added = some k ∧ Unlinked k s := by
  intro s h
  exact ⟨(), _, rfl, rfl, rfl, h⟩

/-- The decision is on the branch added before. -/
theorem exec_myIf {s : Watched} {br : Branch} (b : BoolRef) (hadded : s.added = some k)
    (hbr : s.world.made[k]? = some br) : ∃ t, exec (I.myIf b) s =
      (.ok (s.world.boolean b).val, t) ∧ t.decisions = s.decisions ++
        [⟨s.world.keepBool b, br, s.calls.drop (s.created k)⟩] := by
  unfold I.myIf
  rw [exec_bind_ok (exec_modify _ _)]
  simp only [hadded, hbr]
  exact ⟨_, rfl, rfl⟩

theorem myIf_filled : Decides (fun s => s.added = some k ∧ Filled k (some (.register a)) (some a) s)
    (fun dec => Describes dec ∧ dec.branch.dependentVariable.isSome) (I.myIf (.bool a)) := by
  rintro s ⟨hadded, calls, ⟨⟨input, hmade⟩, hcalls, -⟩, hlast⟩
  obtain ⟨t, ht, hdec⟩ := exec_myIf (.bool a) hadded hmade
  refine ⟨_, t, _, ht, hdec, ⟨rfl, by rw [hcalls], ?_⟩, rfl⟩
  simpa [World.keepBool] using hlast

/-- For the last decision the link is to the object of `cf`. -/
theorem setDependentVariable_cf : Steps (Filled k none x) (setDependentVariable k .cf)
    fun _ s => Filled k (some (.object s.world.cf)) x s := by
  rintro s ⟨calls, ⟨⟨input, hmade⟩, hcalls, hcreated⟩, hlast⟩
  refine ⟨(), _, rfl, rfl, calls, ⟨⟨input, ?_⟩, hcalls, hcreated⟩, hlast⟩
  simp [Instrumented.setDependentVariable, hmade, World.keepBool]

theorem branchesAdd_cf : Steps (fun s => Filled k (some (.object s.world.cf)) x s) (branchesAdd k)
    fun _ s => s.added = some k ∧ Filled k (some (.object s.world.cf)) x s := by
  rintro s ⟨calls, ⟨hmade, hcalls, hcreated⟩, hlast⟩
  exact ⟨(), _, rfl, rfl, rfl, calls, ⟨hmade, hcalls, hcreated⟩, hlast⟩

theorem myIf_cf : Decides
    (fun s => s.added = some k ∧ Filled k (some (.object s.world.cf)) none s)
    (fun dec => Describes dec ∧ dec.branch.dependentVariable.isSome) (I.myIf .cf) := by
  rintro s ⟨hadded, calls, ⟨⟨input, hmade⟩, hcalls, -⟩, hlast⟩
  obtain ⟨t, ht, hdec⟩ := exec_myIf .cf hadded hmade
  have hnil : calls = [] := by simpa using hlast
  exact ⟨_, t, _, ht, hdec, ⟨rfl, by rw [hcalls], by simp [World.keepBool, hnil]⟩, rfl⟩

theorem myIf_unlinked (b : BoolRef) : Decides (fun s => s.added = some k ∧ Unlinked k s)
    (fun dec => dec.branch.dependentVariable = none) (I.myIf b) := by
  rintro s ⟨hadded, br, hmade, hdep⟩
  obtain ⟨t, ht, hdec⟩ := exec_myIf b hadded hmade
  exact ⟨_, t, _, ht, hdec, hdep⟩

end

section
variable {input : MyString}

/-- The branch is linked and complete. -/
def Linked (dec : Decision) : Prop := Describes dec ∧ dec.branch.dependentVariable.isSome

/-- The branch refers to no variable. -/
def Neglected (dec : Decision) : Prop := dec.branch.dependentVariable = none

/-- The decisions of `CalculateOutputm1` to `CalculateOutputm4`. -/
theorem decides_linked (b c : BoolRef) (word : String) :
    Decides (fun _ => True) Linked (do
      let br ← newBranch input.val
      I.myEquals 1 (.object input) word br
      I.myAnd 2 b c br
      setDependentVariable br (.bool 2)
      branchesAdd br
      I.myIf (.bool 2)) :=
  (newBranch_filled _).decides fun _ =>
    (tests_myEquals _ _ _ _).filled.decides fun _ =>
    (tests_myAnd _ _ _ _).filled.decides fun _ =>
    (setDependentVariable_filled 2).decides fun _ =>
    branchesAdd_filled.decides fun _ => myIf_filled

theorem decides_equals (b c : BoolRef) (r : StringRef) (word : String) :
    Decides (fun _ => True) Neglected (do
      let br ← newBranch input.val
      I.myEquals 1 r word br
      I.myAnd 2 b c br
      branchesAdd br
      I.myIf (.bool 2)) :=
  (newBranch_unlinked _).decides fun _ =>
    (tests_myEquals _ _ _ _).unlinked.decides fun _ =>
    (tests_myAnd _ _ _ _).unlinked.decides fun _ =>
    branchesAdd_unlinked.decides fun _ => myIf_unlinked _

theorem decides_between (b c d e : BoolRef) (r r' u u' : IntRef) :
    Decides (fun _ => True) Neglected (do
      let br ← newBranch input.val
      I.myLess 1 r u br
      I.myGreaterEqual 2 r' u' br
      I.myAnd 3 b c br
      I.myAnd 4 d e br
      branchesAdd br
      I.myIf (.bool 4)) :=
  (newBranch_unlinked _).decides fun _ =>
    (tests_myLess _ _ _ _).unlinked.decides fun _ =>
    (tests_myGreaterEqual _ _ _ _).unlinked.decides fun _ =>
    (tests_myAnd _ _ _ _).unlinked.decides fun _ =>
    (tests_myAnd _ _ _ _).unlinked.decides fun _ =>
    branchesAdd_unlinked.decides fun _ => myIf_unlinked _

/-- The conjunction is not recorded. -/
theorem decides_atMost (b c : BoolRef) (r u : IntRef) :
    Decides (fun _ => True) Neglected (do
      let br ← newBranch input.val
      I.myLessEqual 1 r u br
      I.myAnd 2 b c
      branchesAdd br
      I.myIf (.bool 2)) :=
  (newBranch_unlinked _).decides fun _ =>
    (tests_myLessEqual _ _ _ _).unlinked.decides fun _ =>
    (tests_myAnd _ _ _ _).unlinked.decides fun _ =>
    branchesAdd_unlinked.decides fun _ => myIf_unlinked _

theorem decides_above (b c : BoolRef) (r u : IntRef) :
    Decides (fun _ => True) Neglected (do
      let br ← newBranch input.val
      I.myLess 1 r u br
      I.myAnd 2 b c br
      branchesAdd br
      I.myIf (.bool 2)) :=
  (newBranch_unlinked _).decides fun _ =>
    (tests_myLess _ _ _ _).unlinked.decides fun _ =>
    (tests_myAnd _ _ _ _).unlinked.decides fun _ =>
    branchesAdd_unlinked.decides fun _ => myIf_unlinked _

/-- The check that closes `CalculateOutput` needs no test. -/
theorem decides_cf : Decides (fun _ => True) Linked (do
    let br ← newBranch input.val
    setDependentVariable br .cf
    branchesAdd br
    I.myIf .cf) := by
  refine (newBranch_filled _).decides fun k => setDependentVariable_cf.decides fun _ => ?_
  refine branchesAdd_cf.decides fun _ => myIf_cf

theorem CalculateOutputm1_moved : Moved Linked (CalculateOutputm1 input) :=
  (decides_linked _ _ _).moved.ifM (moved_lift _)

theorem CalculateOutputm2_moved : Moved Linked (CalculateOutputm2 input) :=
  ((decides_linked _ _ _).moved.ifM (moved_lift _)).bind fun _ =>
    (decides_linked _ _ _).moved.ifM (moved_lift _)

theorem CalculateOutputm3_moved : Moved Linked (CalculateOutputm3 input) :=
  (decides_linked _ _ _).moved.ifM (moved_lift _)

theorem CalculateOutputm4_moved : Moved Linked (CalculateOutputm4 input) :=
  ((decides_linked _ _ _).moved.ifM (moved_lift _)).bind fun _ =>
    ((decides_linked _ _ _).moved.ifM (moved_lift _)).bind fun _ =>
      (decides_linked _ _ _).moved.ifM (moved_lift _)

theorem CalculateOutputm5_moved : Moved Neglected (CalculateOutputm5 input) :=
  (decides_equals _ _ _ _).moved.ifM (moved_lift _)

theorem CalculateOutputm6_moved : Moved Neglected (CalculateOutputm6 input) :=
  ((decides_equals _ _ _ _).moved.ifM (moved_lift _)).bind fun _ =>
    (decides_equals _ _ _ _).moved.ifM (moved_lift _)

theorem CalculateOutputm7_moved : Moved Neglected (CalculateOutputm7 input) :=
  ((decides_equals _ _ _ _).moved.ifM (moved_lift _)).bind fun _ =>
    (decides_equals _ _ _ _).moved.ifM (moved_lift _)

theorem CalculateOutputm8_moved : Moved Neglected (CalculateOutputm8 input) :=
  (decides_equals _ _ _ _).moved.ifM (moved_lift _)

/-- What the decisions of `CalculateOutput` are like. -/
def Sorted (dec : Decision) : Prop := Linked dec ∨ Neglected dec

theorem Sorted.describes_iff_isSome {dec : Decision} (h : Sorted dec) :
    Describes dec ↔ dec.branch.dependentVariable.isSome := by
  rcases h with ⟨hdes, hsome⟩ | hnone
  · exact iff_of_true hdes hsome
  · unfold Neglected at hnone
    refine iff_of_false (fun hdes => ?_) (by simp [hnone])
    exact absurd (hdes.dependentVariable.symm.trans hnone) nofun

theorem Neglected.not_describes {dec : Decision} (h : Neglected dec) : ¬ Describes dec :=
  fun hdes => absurd (hdes.dependentVariable.symm.trans h) nofun

theorem Moved.sorted_of_linked {α : Type} {p : Prog α} (h : Moved Linked p) : Moved Sorted p :=
  h.mono fun _ _ ha => ha.mono fun _ => .inl

theorem Moved.sorted_of_neglected {α : Type} {p : Prog α} (h : Moved Neglected p) :
    Moved Sorted p :=
  h.mono fun _ _ ha => ha.mono fun _ => .inr

/-- `CalculateOutput` starts with a decision on a branch that is not linked. Only the branch of
the decision at its end is, besides those of the methods. -/
theorem CalculateOutput_eq (input : MyString) : ∃ c body rest,
    CalculateOutput input = (setCf (.new2 true "cf") >>= fun _ => ifM c body >>= fun _ => rest) ∧
      Decides (fun _ => True) Neglected c ∧ Moved Sorted body ∧ Moved Sorted rest := by
  refine ⟨_, _, _, rfl, decides_atMost _ _ _ _, ?_, ?_⟩
  · exact (decides_between _ _ _ _ _ _ _ _).moved.sorted_of_neglected.ifM
      CalculateOutputm1_moved.sorted_of_linked
  refine Moved.bind ?_ fun _ => Moved.bind ?_ fun _ => Moved.bind ?_ fun _ => ?_
  · refine (decides_between _ _ _ _ _ _ _ _).moved.sorted_of_neglected.ifM ?_
    refine Moved.bind ?_ fun _ => Moved.bind ?_ fun _ => Moved.bind ?_ fun _ => ?_
    · exact (decides_equals _ _ _ _).moved.sorted_of_neglected.ifM
        CalculateOutputm2_moved.sorted_of_linked
    · exact (decides_equals _ _ _ _).moved.sorted_of_neglected.ifM
        CalculateOutputm3_moved.sorted_of_linked
    · exact (decides_equals _ _ _ _).moved.sorted_of_neglected.ifM
        CalculateOutputm4_moved.sorted_of_linked
    · exact ((decides_equals _ _ _ _).moved.ifM CalculateOutputm5_moved).sorted_of_neglected
  · refine (decides_between _ _ _ _ _ _ _ _).moved.sorted_of_neglected.ifM
      (Moved.bind ?_ fun _ => ?_)
    · exact ((decides_equals _ _ _ _).moved.ifM CalculateOutputm6_moved).sorted_of_neglected
    · exact ((decides_equals _ _ _ _).moved.ifM CalculateOutputm7_moved).sorted_of_neglected
  · exact ((decides_above _ _ _ _).moved.ifM
      ((decides_between _ _ _ _ _ _ _ _).moved.ifM CalculateOutputm8_moved)).sorted_of_neglected
  · exact decides_cf.moved.sorted_of_linked.ifM (moves_of_exec (fun _ => rfl) Adds.refl)

theorem CalculateOutput_moved : Moved Sorted (CalculateOutput input) := by
  obtain ⟨c, body, rest, he, hc, hbody, hrest⟩ := CalculateOutput_eq input
  rw [he]
  exact (moved_lift _).bind fun _ => (hc.moved.sorted_of_neglected.ifM hbody).bind fun _ => hrest

theorem CalculateOutput_begins (input : MyString) : Begins Neglected (CalculateOutput input) := by
  obtain ⟨c, body, rest, he, hc, hbody, hrest⟩ := CalculateOutput_eq input
  rw [he]
  intro s
  have hset : exec (setCf (.new2 true "cf")) s = (.ok (), (exec (setCf (.new2 true "cf")) s).2) :=
    rfl
  rw [exec_bind_ok hset]
  exact ((hc.begins.ifM hbody).bind fun _ => hrest) (exec (setCf (.new2 true "cf")) s).2

theorem decisionsOf_of_moved {D : Decision → Prop} {p : Prog Unit} (h : Moved D p) (s : Watched) :
    ∀ dec ∈ decisionsOf p s, D dec := by
  obtain ⟨new, hnew, hD⟩ := h.adds { s with added := none, decisions := [] }
  unfold decisionsOf
  rw [hnew]
  exact hD

theorem decisionsOf_of_begins {D : Decision → Prop} {p : Prog Unit} (h : Begins D p)
    (s : Watched) : ∃ dec ∈ decisionsOf p s, D dec := by
  obtain ⟨dec, new, hdec, hD⟩ := h { s with added := none, decisions := [] }
  refine ⟨dec, ?_, hD⟩
  unfold decisionsOf
  rw [hdec]
  exact List.mem_cons_self

/-- The methods whose branches are linked. -/
def linked : Mode → Bool
  | .m1 | .m2 | .m3 | .m4 => true
  | .m5 | .m6 | .m7 | .m8 => false

theorem method_moved {m : Mode} (hm : linked m = true) : Moved Linked (method m input) := by
  cases m with
  | m1 => exact CalculateOutputm1_moved
  | m2 => exact CalculateOutputm2_moved
  | m3 => exact CalculateOutputm3_moved
  | m4 => exact CalculateOutputm4_moved
  | m5 | m6 | m7 | m8 => cases hm

theorem method_begins {m : Mode} (hm : linked m = false) : Begins Neglected (method m input) := by
  have hsite (b c : BoolRef) (word : String) (t : Transitions.Transition) :=
    (@decides_equals input b c (.object input) word).begins.ifM
      (moved_lift (D := Neglected) (block .copied t))
  cases m with
  | m1 | m2 | m3 | m4 => cases hm
  | m5 => exact hsite _ _ _ _
  | m6 => exact (hsite _ _ _ _).bind fun _ => (decides_equals _ _ _ _).moved.ifM (moved_lift _)
  | m7 => exact (hsite _ _ _ _).bind fun _ => (decides_equals _ _ _ _).moved.ifM (moved_lift _)
  | m8 => exact hsite _ _ _ _

/-- A branch describes its decision in the first four methods only, and never all do in a run of
`CalculateOutput`. There a decision is described if and only if its branch refers to some
variable. -/
theorem describes_iff (m : Mode) (input : MyString) (s : Watched) :
    ((∀ dec ∈ decisionsOf (method m input) s, Describes dec) ↔ linked m = true) ∧
      (¬ ∀ dec ∈ decisionsOf (CalculateOutput input) s, Describes dec) ∧
      ∀ dec ∈ decisionsOf (CalculateOutput input) s,
        Describes dec ↔ dec.branch.dependentVariable.isSome := by
  refine ⟨⟨fun h => ?_, fun hm => ?_⟩, fun h => ?_, ?_⟩
  · by_contra hm
    obtain ⟨dec, hmem, hneg⟩ :=
      decisionsOf_of_begins (method_begins (Bool.eq_false_iff.mpr hm)) s
    exact hneg.not_describes (h dec hmem)
  · exact fun dec hdec => (decisionsOf_of_moved (method_moved hm) s dec hdec).1
  · obtain ⟨dec, hmem, hneg⟩ := decisionsOf_of_begins (CalculateOutput_begins input) s
    exact hneg.not_describes (h dec hmem)
  · exact fun dec hdec =>
      (decisionsOf_of_moved CalculateOutput_moved s dec hdec).describes_iff_isSome

end

/-- The first branch of a call is never linked. -/
theorem not_describes_start :
    ¬ ∀ (input : MyString) (s : Watched), ∀ dec ∈ decisionsOf (CalculateOutput input) s,
      Describes dec := by
  intro h
  obtain ⟨dec, hmem, hneg⟩ := decisionsOf_of_begins (CalculateOutput_begins (.new2 "ai1_ce1" true))
    ⟨TaskOne.Direct.start, [], fun _ => 0, none, []⟩
  exact hneg.not_describes (h _ _ dec hmem)

end EcaEngines.Described
