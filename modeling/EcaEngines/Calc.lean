import Mathlib.Order.Fin.Basic
import EcaEngines.LastMatch
import EcaEngines.TaskOne

/-!
# The distance of a trace from the recorded branches

The class `Calc` of `instm183_LTL_CTLBranchDistance`. The cases of its `switch` fall
through into each other, so each case is a definition that goes on to the next one. The
members of the set `branches` are objects made before, and the map has a place for each
of them. How a line is printed is a parameter, and `CalculateDistance` is the computation
without its lines.
-/
namespace EcaEngines.Calc
open Imperative Instrumented LastMatch
open Original (Throwable)

section
variable {m : Type → Type} [Monad m] [MonadExceptOf Throwable m] (println : String → m Unit)
  (w : World) (inputs : List MyString)

/-- An operand, as it is when it is read. -/
def keptInt : Kept MyInt → MyInt
  | .register n => w.var n
  | .object x => x

def keptBool : Kept MyBool → MyBool
  | .register n => w.bool n
  | .object x => x

def deref {α : Type} : Option α → m α
  | none => throw Throwable.nullPointer
  | some a => pure a

/-- How the `switch` is left: by `counter++; continue`, or towards `map.put(b, counter)`. -/
inductive Exit where
  | counted
  | put
deriving DecidableEq

def dependsOnInput (input : String) : Bool := inputs.any fun word => input == word.val

section
variable (trace input : String) (cond : Condition)

/-- `if (result.equals(cond.boolOpA))`, which compares the values, and what comes after. -/
def unlessEqual (result : Bool) (next : m Exit) : m Exit :=
  if result = (keptBool w cond.boolOpA).val then pure .counted else next

def caseMyLess : m Exit :=
  match cond.intOpB, cond.intOpC with
  | none, _ => do
    println "myLess intOpB null"
    pure .put
  | some _, none => do
    println "myLess intOpC null"
    pure .put
  | some b, some c => unlessEqual w cond ((keptInt w b).val < (keptInt w c).val) (pure .put)

/-- This case has no null check. -/
def caseMyGreaterEqual : m Exit := do
  let b ← deref cond.intOpB
  let c ← deref cond.intOpC
  unlessEqual w cond ((keptInt w b).val ≥ (keptInt w c).val) (caseMyLess println w cond)

def caseMyLessEqual : m Exit :=
  match cond.intOpB, cond.intOpC with
  | none, _ => do
    println "myLessEqual intOpB null"
    pure .put
  | some _, none => do
    println "myLessEqual intOpC null"
    pure .put
  | some b, some c =>
    unlessEqual w cond ((keptInt w b).val ≤ (keptInt w c).val) (caseMyGreaterEqual println w cond)

/-- The operands are compared, not conjoined. -/
def caseMyAnd : m Exit := do
  let b ← deref cond.boolOpB
  let c ← deref cond.boolOpC
  unlessEqual w cond ((keptBool w b).val == (keptBool w c).val) (caseMyLessEqual println w cond)

def caseMyEquals : m Exit :=
  if dependsOnInput inputs input then
    match cond.strOpB, cond.strOpC with
    | none, _ => do
      println "myEqual strOpB null"
      pure .put
    | some _, none => do
      println "myEqual strOpC null"
      pure .put
    | some _, some c => unlessEqual w cond (trace == c.val) (pure .put)
  else pure .counted

def switch : m Exit :=
  match cond.bTypeEnum with
  | .myEquals => caseMyEquals println w inputs trace input cond
  | .myAnd => caseMyAnd println w cond
  | .myLessEqual => caseMyLessEqual println w cond
  | .myGreaterEqual => caseMyGreaterEqual println w cond
  | .myLess => caseMyLess println w cond

end

/-- A `HashMap<Branch, Integer>`; branches are compared by identity. -/
abbrev BranchMap := Fin w.made.length → Option ℕ

/-- The loop over the conditions of the branch `b`. -/
def conditions (trace input : String) (b : Fin w.made.length) :
    List Condition → ℕ → BranchMap w → m (BranchMap w)
  | [], _, map => pure map
  | cond :: conds, counter, map => do
    match ← switch println w inputs trace input cond with
    | .counted => conditions trace input b conds (counter + 1) map
    | .put => conditions trace input b conds counter (Function.update map b (some counter))

/-- The loop over the branches, in some order. -/
def distances (trace : String) :
    List (Fin w.made.length) → BranchMap w → m (BranchMap w)
  | [], map => pure map
  | b :: branches, map => do
    let br := w.made[b]
    if br.input == trace then
      let map ← conditions println w inputs trace br.input b br.condLst 1 map
      distances trace branches map
    else
      distances trace branches map

/-- `CalculateDistance` with the lines it prints. -/
def CalculateDistanceWith (branches : List (Fin w.made.length)) (trace : String) :
    m (BranchMap w) := distances println w inputs trace branches fun _ => none

end

section
variable (w : World) (inputs : List MyString)

/-- No line is printed. -/
def silent (_line : String) : Except Throwable Unit := pure ()

def CalculateDistance (branches : List (Fin w.made.length)) (trace : String) :
    Except Throwable (BranchMap w) := CalculateDistanceWith silent w inputs branches trace

/-- One pair of operands is set, and it is that of the operation. -/
inductive Recorded : Condition → Prop
  | myEquals {a b c} : Recorded ⟨.myEquals, a, some b, some c, none, none, none, none⟩
  | myAnd {a b c} : Recorded ⟨.myAnd, a, none, none, some b, some c, none, none⟩
  | myLessEqual {a b c} : Recorded ⟨.myLessEqual, a, none, none, none, none, some b, some c⟩
  | myGreaterEqual {a b c} :
    Recorded ⟨.myGreaterEqual, a, none, none, none, none, some b, some c⟩
  | myLess {a b c} : Recorded ⟨.myLess, a, none, none, none, none, some b, some c⟩

/-- Every `Condition` of every `Branch` made so far is as recorded. -/
def AllRecorded (w : World) : Prop := ∀ br ∈ w.made, ∀ cond ∈ br.condLst, Recorded cond

section
variable (trace : String)

/-- What the operation of a condition gives; that of `myEquals` is about the trace. -/
def operation : Condition → Bool
  | ⟨.myEquals, _, _, some c, _, _, _, _⟩ => trace == c.val
  | ⟨.myAnd, _, _, _, some b, some c, _, _⟩ => (keptBool w b).val && (keptBool w c).val
  | ⟨.myLessEqual, _, _, _, _, _, some b, some c⟩ => (keptInt w b).val ≤ (keptInt w c).val
  | ⟨.myGreaterEqual, _, _, _, _, _, some b, some c⟩ => (keptInt w b).val ≥ (keptInt w c).val
  | ⟨.myLess, _, _, _, _, _, some b, some c⟩ => (keptInt w b).val < (keptInt w c).val
  | _ => false

/-- A condition that looks for a word agrees if the trace is no word. -/
def disagrees (cond : Condition) : Bool :=
  !(cond.bTypeEnum = .myEquals && !dependsOnInput inputs trace) &&
    operation w trace cond != (keptBool w cond.boolOpA).val

/-- A conjunction of two operands that are false. -/
def bothFalse : Condition → Bool
  | ⟨.myAnd, _, _, _, some b, some c, _, _⟩ => !(keptBool w b).val && !(keptBool w c).val
  | _ => false

/-- A disagreement of `<=`, of `>=`, or of `&&` on two operands that are false. -/
def overlooked (cond : Condition) : Bool :=
  disagrees w inputs trace cond &&
    (cond.bTypeEnum = .myLessEqual || cond.bTypeEnum = .myGreaterEqual || bothFalse w cond)

/-- An agreement of `&&` on two operands that are false. -/
def miscounted (cond : Condition) : Bool :=
  bothFalse w cond && !disagrees w inputs trace cond

/-- The disagreements that are not overlooked, and the agreements that are miscounted. -/
def reported (cond : Condition) : Bool :=
  disagrees w inputs trace cond && !overlooked w inputs trace cond ||
    miscounted w inputs trace cond

end

/-- A conjunction that falls into the case of `<=`, where it has no operand. -/
def warned (trace : String) (cond : Condition) : Bool :=
  cond.bTypeEnum = .myAnd && reported w inputs trace cond

/-- How often the null check of `<=` is reached without an operand. -/
def warnings (branches : List (Fin w.made.length)) (trace : String) : ℕ :=
  (branches.map fun b =>
    if w.made[b].input = trace then w.made[b].condLst.countP (warned w inputs trace) else 0).sum

end

section
variable {m : Type → Type} [Monad m] {w : World} {inputs : List MyString} {trace : String}
  {a : Kept MyBool} {b c : Kept MyInt} {cond : Condition} {result : Bool} {next : m Exit}

theorem unlessEqual_of_eq (h : result = (keptBool w cond.boolOpA).val) :
    unlessEqual w cond result next = pure .counted := if_pos h

theorem unlessEqual_of_ne (h : result ≠ (keptBool w cond.boolOpA).val) :
    unlessEqual w cond result next = next := if_neg h

theorem unlessEqual_put : unlessEqual w cond result (pure .put : m Exit) =
    pure (if result != (keptBool w cond.boolOpA).val then .put else .counted) := by
  by_cases heq : result = (keptBool w cond.boolOpA).val
  · rw [unlessEqual_of_eq heq, heq, bne_self_eq_false, if_neg Bool.false_ne_true]
  · rw [unlessEqual_of_ne heq, if_pos (bne_iff_ne.mpr heq)]

/-- A test whose negation comes next always counts. -/
theorem unlessEqual_not (h : next = unlessEqual w cond (!result) (pure .put)) :
    unlessEqual w cond result next = pure .counted := by
  by_cases heq : result = (keptBool w cond.boolOpA).val
  · exact unlessEqual_of_eq heq
  · rw [unlessEqual_of_ne heq, h]
    exact unlessEqual_of_eq (Bool.not_eq.mpr heq)

/-- Whether the operands of `&&` are equal is whether it is true, unless both are false. -/
theorem reported_myAnd {x y : Kept MyBool} :
    reported w inputs trace ⟨.myAnd, a, none, none, some x, some y, none, none⟩ =
      (((keptBool w x).val == (keptBool w y).val) != (keptBool w a).val) := by
  have hbool (x y a : Bool) : (((x && y) != a) && !(((x && y) != a) && (!x && !y)) ||
      (!x && !y) && !((x && y) != a)) = ((x == y) != a) := by
    cases x <;> cases y <;> cases a <;> rfl
  have h := hbool (keptBool w x).val (keptBool w y).val (keptBool w a).val
  simpa [reported, overlooked, miscounted, bothFalse, disagrees, operation] using h

variable [MonadExceptOf Throwable m] [LawfulMonad m] {println : String → m Unit}

/-- If `>=` disagrees then `<`, into which it falls, agrees. -/
theorem caseMyGreaterEqual_eq (hb : cond.intOpB = some b) (hc : cond.intOpC = some c) :
    caseMyGreaterEqual println w cond = pure .counted := by
  unfold caseMyGreaterEqual
  rw [hb, hc]
  simp only [deref, pure_bind]
  refine unlessEqual_not ?_
  unfold caseMyLess
  rw [hb, hc]
  have hnot : decide ((keptInt w b).val < (keptInt w c).val) =
      !decide ((keptInt w b).val ≥ (keptInt w c).val) := by
    rw [Bool.eq_iff_iff, Bool.not_eq_true', decide_eq_true_iff, decide_eq_false_iff_not, ge_iff_le,
      Int32.not_le]
  rw [← hnot]

theorem caseMyLessEqual_eq (hb : cond.intOpB = some b) (hc : cond.intOpC = some c) :
    caseMyLessEqual println w cond = pure .counted := by
  unfold caseMyLessEqual
  rw [hb, hc]
  by_cases heq : decide ((keptInt w b).val ≤ (keptInt w c).val) = (keptBool w cond.boolOpA).val
  · exact unlessEqual_of_eq heq
  · exact (unlessEqual_of_ne heq).trans (caseMyGreaterEqual_eq hb hc)

/-- Where `&&` falls into the next case, the null check there ends it, after a line. -/
theorem caseMyAnd_eq (cond : Condition) {x y : Kept MyBool} (hx : cond.boolOpB = some x)
    (hy : cond.boolOpC = some y) (hb : cond.intOpB = none) : caseMyAnd println w cond =
      unlessEqual w cond ((keptBool w x).val == (keptBool w y).val) (do
        println "myLessEqual intOpB null"
        pure .put) := by
  unfold caseMyAnd caseMyLessEqual
  rw [hx, hy, hb]
  simp only [deref, pure_bind]

/-- The line that the `switch` prints, if any. -/
def warn (println : String → m Unit) (w : World) (inputs : List MyString) (trace : String)
    (cond : Condition) : m Unit :=
  if warned w inputs trace cond then println "myLessEqual intOpB null" else pure ()

/-- The `switch` is left without a null dereference, and towards `map.put` at the reported
conditions only. It prints a line if such a condition is a conjunction. -/
theorem switch_eq (h : Recorded cond) : switch println w inputs trace trace cond = (do
    warn println w inputs trace cond
    pure (if reported w inputs trace cond then .put else .counted)) := by
  unfold switch warn
  cases h with
  | myEquals =>
    simp only [caseMyEquals]
    cases hin : dependsOnInput inputs trace with
    | true =>
      rw [if_pos rfl, unlessEqual_put]
      simp [warned, hin, reported, overlooked, miscounted, bothFalse, disagrees, operation]
    | false => simp [warned, hin, reported, overlooked, miscounted, bothFalse, disagrees]
  | @myAnd a x y =>
    simp only [warned, reported_myAnd, caseMyAnd_eq ⟨.myAnd, _, _, _, _, _, _, _⟩ rfl rfl rfl]
    by_cases heq : ((keptBool w x).val == (keptBool w y).val) = (keptBool w a).val
    · rw [unlessEqual_of_eq heq, heq, bne_self_eq_false]
      simp
    · rw [unlessEqual_of_ne heq, bne_iff_ne.mpr heq]
      simp
  | myLessEqual =>
    simp [caseMyLessEqual_eq, warned, reported, overlooked, miscounted, bothFalse]
  | myGreaterEqual =>
    simp [caseMyGreaterEqual_eq, warned, reported, overlooked, miscounted, bothFalse]
  | myLess =>
    simp only [caseMyLess]
    rw [unlessEqual_put]
    simp [warned, reported, overlooked, miscounted, bothFalse, disagrees, operation]

variable {b : Fin w.made.length} {conds : List Condition} {map : BranchMap w}

theorem conditions_eq (h : ∀ cond ∈ conds, Recorded cond) (counter : ℕ) (map : BranchMap w) :
    conditions println w inputs trace trace b conds counter map = (do
      conds.forM (warn println w inputs trace)
      pure (Function.update map b (scan (reported w inputs trace) conds counter (map b)))) := by
  induction conds generalizing counter map with
  | nil => simp [conditions, scan]
  | cons cond conds ih =>
    have hconds (cond' : Condition) (hc : cond' ∈ conds) : Recorded cond' :=
      h cond' (List.mem_cons_of_mem _ hc)
    rw [conditions, switch_eq (h cond List.mem_cons_self), scan, List.forM_eq_forM,
      List.forM_cons]
    simp only [bind_assoc, pure_bind]
    refine bind_congr fun _ => ?_
    cases hrep : reported w inputs trace cond with
    | true =>
      refine (ih hconds counter _).trans ?_
      simp
    | false => exact ih hconds (counter + 1) map

/-- What the map holds for a branch. -/
def entry (w : World) (inputs : List MyString) (trace : String) (br : Branch)
    (stored : Option ℕ) : Option ℕ :=
  if br.input = trace then scan (reported w inputs trace) br.condLst 1 stored else stored

theorem entry_entry (br : Branch) (stored : Option ℕ) :
    entry w inputs trace br (entry w inputs trace br stored) = entry w inputs trace br stored := by
  unfold entry
  split_ifs
  · rw [scan_eq, scan_eq]
    split_ifs <;> rfl
  · rfl

/-- The lines for a branch. -/
def warnBranch (println : String → m Unit) (w : World) (inputs : List MyString) (trace : String)
    (b : Fin w.made.length) : m Unit :=
  if w.made[b].input = trace then w.made[b].condLst.forM (warn println w inputs trace)
  else pure ()

theorem distances_eq {branches : List (Fin w.made.length)}
    (h : ∀ b ∈ branches, ∀ cond ∈ w.made[b].condLst, Recorded cond) (map : BranchMap w) :
    distances println w inputs trace branches map = (do
      branches.forM (warnBranch println w inputs trace)
      pure fun b =>
        if b ∈ branches then entry w inputs trace w.made[b] (map b) else map b) := by
  induction branches generalizing map with
  | nil => simp [distances]
  | cons a branches ih =>
    have hbranches (b : Fin w.made.length) (hb : b ∈ branches) :
        ∀ cond ∈ w.made[b].condLst, Recorded cond := h b (List.mem_cons_of_mem _ hb)
    have hstep : distances println w inputs trace (a :: branches) map = (do
        warnBranch println w inputs trace a
        distances println w inputs trace branches
          (Function.update map a (entry w inputs trace w.made[a] (map a)))) := by
      rw [distances, warnBranch]
      simp only [beq_iff_eq, entry]
      split_ifs with htrace
      · rw [htrace, conditions_eq (h a List.mem_cons_self)]
        simp only [bind_assoc, pure_bind]
      · rw [Function.update_eq_self, pure_bind]
    rw [hstep, ih hbranches, List.forM_eq_forM, List.forM_cons, bind_assoc]
    refine bind_congr fun _ => bind_congr fun _ => congrArg pure (funext fun b => ?_)
    by_cases hba : b = a
    · subst hba
      simp [entry_entry]
    · simp [hba]

end

section
variable {w : World} {inputs : List MyString} {trace : String} {conds : List Condition}

theorem forM_silent {branches : List (Fin w.made.length)} :
    branches.forM (warnBranch silent w inputs trace) = pure () := by
  have hwarn : warn silent w inputs trace = fun _ => pure () := funext fun _ => ite_self _
  have hconds (conds : List Condition) :
      conds.forM (warn silent w inputs trace) = pure () := by
    rw [hwarn]
    induction conds with
    | nil => rfl
    | cons cond conds ih => exact ih
  induction branches with
  | nil => rfl
  | cons b branches ih =>
    rw [List.forM_eq_forM, List.forM_cons, warnBranch, hconds, ite_self]
    exact ih

theorem CalculateDistance_eq {branches : List (Fin w.made.length)}
    (h : ∀ b ∈ branches, ∀ cond ∈ w.made[b].condLst, Recorded cond) :
    CalculateDistance w inputs branches trace = .ok fun b =>
      if b ∈ branches then entry w inputs trace w.made[b] none else none := by
  unfold CalculateDistance CalculateDistanceWith
  rw [distances_eq h, forM_silent]
  rfl

/-- The branches with the trace as input that have a condition that disagrees, each with
one more than the number of conditions that agree before the last that does not. -/
def expected (w : World) (inputs : List MyString) (branches : List (Fin w.made.length))
    (trace : String) : BranchMap w := fun b =>
  if b ∈ branches ∧ w.made[b].input = trace ∧
      w.made[b].condLst.any (disagrees w inputs trace) then
    some (1 + passed (disagrees w inputs trace) w.made[b].condLst)
  else none

/-- Some condition disagrees if and only if one is reported, and the conditions overlooked
and miscounted make up for the way between the last that disagrees and the last that is
reported. -/
def Compensated (w : World) (inputs : List MyString) (trace : String)
    (conds : List Condition) : Prop :=
  conds.any (disagrees w inputs trace) = conds.any (reported w inputs trace) ∧
    last (disagrees w inputs trace) conds + conds.countP (miscounted w inputs trace) =
      last (reported w inputs trace) conds + conds.countP (overlooked w inputs trace)

theorem scan_eq_scan_iff_compensated (n : ℕ) :
    scan (reported w inputs trace) conds n none = scan (disagrees w inputs trace) conds n none ↔
      Compensated w inputs trace conds := by
  have hover : (fun cond => disagrees w inputs trace cond && !reported w inputs trace cond) =
      overlooked w inputs trace := by
    funext cond
    simp only [reported, overlooked, miscounted]
    cases disagrees w inputs trace cond <;> simp
  have hmis : (fun cond => reported w inputs trace cond && !disagrees w inputs trace cond) =
      miscounted w inputs trace := by
    funext cond
    simp only [reported, overlooked, miscounted]
    cases disagrees w inputs trace cond <;> simp
  rw [scan_eq_scan_iff, hover, hmis]
  unfold Compensated
  rw [eq_comm, @eq_comm ℕ]

variable {branches : List (Fin w.made.length)}

theorem expected_eq (b : Fin w.made.length) : expected w inputs branches trace b =
    if b ∈ branches then if w.made[b].input = trace then
      scan (disagrees w inputs trace) w.made[b].condLst 1 none else none else none := by
  unfold expected
  rw [scan_eq, ite_and, ite_and]

/-- The computation ends with a map, whatever the operands hold. -/
theorem CalculateDistance_returns
    (h : ∀ b ∈ branches, ∀ cond ∈ w.made[b].condLst, Recorded cond) :
    ∃ map, CalculateDistance w inputs branches trace = .ok map :=
  ⟨_, CalculateDistance_eq h⟩

/-- The map is as expected if and only if the conditions of each branch with that input
make up for each other. -/
theorem CalculateDistance_iff
    (h : ∀ b ∈ branches, ∀ cond ∈ w.made[b].condLst, Recorded cond) :
    CalculateDistance w inputs branches trace = .ok (expected w inputs branches trace) ↔
      ∀ b ∈ branches, w.made[b].input = trace →
        Compensated w inputs trace w.made[b].condLst := by
  rw [CalculateDistance_eq h, Except.ok.injEq, funext_iff]
  refine forall_congr' fun b => ?_
  rw [expected_eq]
  by_cases hb : b ∈ branches
  · rw [if_pos hb, if_pos hb, forall_prop_of_true hb]
    unfold entry
    by_cases htrace : w.made[b].input = trace
    · rw [if_pos htrace, if_pos htrace, forall_prop_of_true htrace]
      exact scan_eq_scan_iff_compensated 1
    · rw [if_neg htrace, if_neg htrace]
      exact iff_of_true rfl fun ht => absurd ht htrace
  · rw [if_neg hb, if_neg hb]
    exact iff_of_true rfl fun hb' => absurd hb' hb

/-- In particular it is as expected if no condition is overlooked or miscounted. -/
theorem CalculateDistance_plain
    (h : ∀ b ∈ branches, ∀ cond ∈ w.made[b].condLst, Recorded cond)
    (hplain : ∀ b ∈ branches, w.made[b].input = trace → ∀ cond ∈ w.made[b].condLst,
      overlooked w inputs trace cond = false ∧ miscounted w inputs trace cond = false) :
    CalculateDistance w inputs branches trace = .ok (expected w inputs branches trace) := by
  rw [CalculateDistance_eq h]
  refine congrArg Except.ok (funext fun b => ?_)
  rw [expected_eq]
  unfold entry
  split_ifs with hb htrace
  · refine scan_congr (fun cond hcond => ?_) 1 none
    obtain ⟨hover, hmis⟩ := hplain b hb htrace cond hcond
    rw [reported, hover, hmis, Bool.not_false, Bool.and_true, Bool.or_false]
  · rfl
  · rfl

end

/-- One branch with a test of the first region, whose destination the next test has
overwritten. -/
def overwritten : World := (exec (do
  let br ← newBranch "ai1_ce1"
  I.myLessEqual 1 .a2108127495 (.int (-164)) br
  I.myLess 1 (.int (-164)) .a2108127495) TaskOne.Direct.start).2

theorem overwritten_made : overwritten.made = [⟨none, [⟨.myLessEqual, .register 1, none, none,
    none, none, some (.object TaskOne.Direct.start.a2108127495), some (.object (.new (-164)))⟩],
    "ai1_ce1"⟩] := rfl

theorem overwritten_recorded (b : Fin overwritten.made.length) :
    ∀ cond ∈ overwritten.made[b].condLst, Recorded cond := by
  intro cond hcond
  obtain ⟨_ | k, hk⟩ := b
  · obtain rfl := List.mem_singleton.mp hcond
    exact .myLessEqual
  · exact absurd hk (by rw [overwritten_made]; simp)

theorem CalculateDistance_returns_overwritten :
    ∃ map, CalculateDistance overwritten [.new2 "ai1_ce1" true] [⟨0, by decide⟩] "ai1_ce1" =
      .ok map :=
  CalculateDistance_returns fun b _ => overwritten_recorded b

theorem CalculateDistance_iff_overwritten :
    CalculateDistance overwritten [.new2 "ai1_ce1" true] [⟨0, by decide⟩] "ai1_ce1" =
        .ok (expected overwritten [.new2 "ai1_ce1" true] [⟨0, by decide⟩] "ai1_ce1") ↔
      ∀ b ∈ [(⟨0, by decide⟩ : Fin overwritten.made.length)],
        overwritten.made[b].input = "ai1_ce1" →
        Compensated overwritten [.new2 "ai1_ce1" true] "ai1_ce1" overwritten.made[b].condLst :=
  CalculateDistance_iff fun b _ => overwritten_recorded b

/-- The disagreement is not in the map. -/
theorem CalculateDistance_ne_expected :
    ¬ CalculateDistance overwritten [.new2 "ai1_ce1" true] [⟨0, by decide⟩] "ai1_ce1" =
      .ok (expected overwritten [.new2 "ai1_ce1" true] [⟨0, by decide⟩] "ai1_ce1") := by
  have hcode : (CalculateDistance overwritten [.new2 "ai1_ce1" true] [⟨0, by decide⟩]
      "ai1_ce1").toOption.map (· ⟨0, by decide⟩) = some none := by
    decide +kernel
  have hclaim : expected overwritten [.new2 "ai1_ce1" true] [⟨0, by decide⟩] "ai1_ce1"
      ⟨0, by decide⟩ = some 1 := by
    decide +kernel
  intro h
  rw [h] at hcode
  exact absurd (hclaim.symm.trans (Option.some.inj hcode)) nofun

end EcaEngines.Calc
