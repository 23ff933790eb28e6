import EcaEngines.Outcomes
import EcaEngines.Fuzzing
import EcaEngines.Checks

/-!
# The distances that are printed

The loop of `main` of `instm183_LTL_CTLBranchDistance` is followed by another one over the same
inputs, which prints the map that `CalculateDistance` makes for each of them.
-/
namespace EcaEngines.Printed
open Imperative Instrumented Calc LastMatch Checks
open BranchDistance (main process)
open Original (Throwable)

/-- The members of the set `branches`. -/
def members (w : World) : List (Fin w.made.length) :=
  w.branches.filterMap fun k => if h : k < w.made.length then some ⟨k, h⟩ else none

/-- The second loop. -/
def printed (w : World) (inputs : List MyString) : Except Throwable (List (BranchMap w)) :=
  inputs.mapM fun s => CalculateDistance w inputs (members w) s.val

/-- The state after the first loop. -/
def final (inputs : List MyString) : World := (exec (main inputs) Outcomes.start).2.world

/-- The words of the first `if`, with the registers their outcomes are kept in. -/
def words : List (String × ℕ) :=
  [("ai1_ce1", 1), ("usr4_ai1_VoidReply", 2), ("usr4_ni1_ne1", 3), ("ai1_ce2", 4),
    ("usr2_ai1_VoidReply", 5)]

/-- The distance of the branch of the first `if`. It depends on what the last tests have left in
the registers. -/
def checkDistance (w : World) (trace : String) : ℕ :=
  1 + words.countP (fun x => (trace == x.1) == (w.bool x.2).val) +
    ((w.bool 1).val != (w.bool 2).val).toNat + ((w.bool 3).val != (w.bool 4).val).toNat

/-- After the inputs `done`. -/
structure Looped (done : List MyString) (w : World) : Prop where
  full : Fuzzing.Full 0 w
  nines : nines w.made = done.map checkBranch
  refuted : done ≠ [] → Refuted w

/-- The exception of a rejected input is caught. -/
theorem process_world (input : MyString) (s : BranchDistance.Watched) :
    (exec (process input) s).2.world =
      (exec (Fuzzer.CalculateOutput input) (exec (Fuzzer.check input) s.world).2).2 := by
  rw [Outcomes.exec_process, exec_tryCatch, BranchDistance.check_runs input s,
    BranchDistance.CalculateOutput_runs input]
  rcases exec (BranchDistance.CalculateOutput input) (exec (BranchDistance.check input) s).2 with
    ⟨e | _, t⟩
  · cases e <;> rfl
  · rfl

theorem process_looped {done : List MyString} {input : MyString} {s : BranchDistance.Watched}
    (h : Looped done s.world) : Looped (done ++ [input]) (exec (process input) s).2.world := by
  rw [process_world]
  set u := (exec (Fuzzer.check input) s.world).2
  have hcheck : Makes [checkBranch input] s.world u := check_makes input s.world
  have hengine : Makes [] u (exec (Fuzzer.CalculateOutput input) u).2 :=
    moves_CalculateOutput input u _ _ (Prod.eta _).symm fun _ _ h => h
  have hregisters : Apart u (exec (Fuzzer.CalculateOutput input) u).2 :=
    apart_CalculateOutput input u _ _ (Prod.eta _).symm fun _ _ h => h
  obtain ⟨new, hmade, -, hnew⟩ := hcheck.trans hengine
  refine ⟨Fuzzing.keeps_CalculateOutput input u (Fuzzing.keeps_check input _ h.full), ?_,
    fun _ => (check_refutes input s.world).apart hregisters⟩
  rw [hmade, Checks.nines, List.filter_append, ← Checks.nines, ← Checks.nines, h.nines, hnew,
    List.map_append]
  rfl

theorem final_looped (inputs : List MyString) : Looped inputs (final inputs) := by
  have hloop (done : List MyString) (s : BranchDistance.Watched) (h : Looped done s.world) :
      Looped (done ++ inputs) (exec (inputs.forM process) s).2.world := by
    induction inputs generalizing done s with
    | nil => rwa [List.append_nil]
    | cons i is ih =>
      rw [Outcomes.exec_forM_cons, List.append_cons]
      exact ih _ _ (process_looped h)
  unfold final
  rw [Outcomes.exec_main]
  refine hloop [] _ ⟨⟨Nat.zero_le _, fun k => ?_⟩, rfl, fun h => absurd rfl h⟩
  exact iff_of_false List.not_mem_nil fun h => Nat.not_lt_zero k h.2

theorem mem_members {w : World} (h : Fuzzing.Full 0 w) (b : Fin w.made.length) :
    b ∈ members w := by
  unfold members
  rw [List.mem_filterMap]
  exact ⟨b, (h.mem b).mpr ⟨Nat.zero_le _, b.isLt⟩, dif_pos b.isLt⟩

theorem scan_bounds {α : Type} {f : α → Bool} {l : List α} {d : ℕ}
    (h : scan f l 1 none = some d) : 1 ≤ d ∧ d ≤ l.length := by
  have hlast : passed f l + l.countP f = last f l := passed_add_countP
  have hlen : last f l ≤ l.length := (List.rdropWhile_prefix _ l).length_le
  rw [scan_eq] at h
  split at h
  · have hany : 0 < l.countP f := List.countP_pos_iff.mpr (List.any_eq_true.mp ‹_›)
    obtain rfl := Option.some.inj h
    omega
  · cases h

/-- The last but one matches, and whatever comes after does not change what is stored. -/
theorem scan_of_penultimate {α : Type} {f : α → Bool} {l : List α} {a b : α} (ha : f a = true)
    (n : ℕ) (stored : Option ℕ) :
    scan f (l ++ [a] ++ [b]) n stored = some (n + l.countP (!f ·)) := by
  rw [scan_concat, scan_concat, if_pos ha, List.countP_append, List.countP_singleton, ha]
  exact ite_self _

section
variable {w : World} {inputs : List MyString} {trace : String}

theorem reported_equals (hin : dependsOnInput inputs trace = true) (a : ℕ) (input : MyString)
    (word : String) :
    (!reported w inputs trace (equals a input word)) = ((trace == word) == (w.bool a).val) := by
  have hne (x y : Bool) : (!(x != y)) = (x == y) := by cases x <;> cases y <;> rfl
  rw [← hne]
  simp [equals, reported, overlooked, miscounted, bothFalse, disagrees, operation, hin, keptBool,
    MyString.new]

theorem reported_conjunction (a b c : ℕ) :
    reported w inputs trace (conjunction a b c) =
      (((w.bool b).val == (w.bool c).val) != (w.bool a).val) := reported_myAnd

/-- Where the conjunctions are false, the last but one is reported. -/
theorem reported_penultimate (hw : Refuted w) :
    reported w inputs trace (conjunction 8 6 7) = true := by
  rw [reported_conjunction, hw 6 (by decide) (by decide), hw 7 (by decide) (by decide),
    hw 8 (by decide) (by decide)]
  rfl

theorem scan_checkBranch (hin : dependsOnInput inputs trace = true) (hw : Refuted w)
    (input : MyString) :
    scan (reported w inputs trace) (checkBranch input).condLst 1 none =
      some (checkDistance w trace) := by
  have hsix := hw 6 (by decide) (by decide)
  have hseven := hw 7 (by decide) (by decide)
  have hreported : reported w inputs trace (conjunction 8 6 7) = true := reported_penultimate hw
  have hconjunctions : [conjunction 6 1 2, conjunction 7 3 4].countP
      (!reported w inputs trace ·) =
        ((w.bool 1).val != (w.bool 2).val).toNat + ((w.bool 3).val != (w.bool 4).val).toNat := by
    simp only [List.countP_cons, List.countP_nil, reported_conjunction, hsix, hseven]
    cases (w.bool 1).val <;> cases (w.bool 2).val <;> cases (w.bool 3).val <;>
      cases (w.bool 4).val <;> rfl
  have hwords : (words.map fun x => equals x.2 input x.1).countP (!reported w inputs trace ·) =
      words.countP fun x => (trace == x.1) == (w.bool x.2).val := by
    rw [List.countP_map]
    exact congrArg (words.countP ·) (funext fun x => reported_equals hin x.2 input x.1)
  refine (scan_of_penultimate (l := (words.map fun x => equals x.2 input x.1) ++
    [conjunction 6 1 2, conjunction 7 3 4]) hreported 1 none).trans (congrArg some ?_)
  rw [List.countP_append, hwords, hconjunctions, ← Nat.add_assoc, ← Nat.add_assoc]
  rfl

/-- The branches with the trace as input, the others having no place. -/
theorem map_eq {branches : List (Fin w.made.length)} (h : AllRecorded w) :
    CalculateDistance w inputs branches trace = .ok fun b =>
      if b ∈ branches ∧ (w.made.get b).input = trace then
        scan (reported w inputs trace) (w.made.get b).condLst 1 none else none := by
  rw [CalculateDistance_eq fun b _ => h _ (List.getElem_mem b.isLt)]
  refine congrArg Except.ok (funext fun b => ?_)
  rw [ite_and]
  rfl

/-- The maps depend on the set of branches only, and so do the lines. -/
theorem CalculateDistance_perm {branches branches' : List (Fin w.made.length)} (h : AllRecorded w)
    (hp : branches.Perm branches') :
    CalculateDistance w inputs branches trace = CalculateDistance w inputs branches' trace := by
  rw [map_eq h, map_eq h]
  simp only [hp.mem_iff]

theorem warnings_perm {branches branches' : List (Fin w.made.length)}
    (hp : branches.Perm branches') :
    warnings w inputs branches trace = warnings w inputs branches' trace := (hp.map _).sum_nat

end

/-- What is printed for one input. -/
structure Prints (w : World) (s : MyString) (map : BranchMap w) : Prop where
  bounds : ∀ b d, map b = some d →
    (w.made.get b).input = s.val ∧ 1 ≤ d ∧ d ≤ (w.made.get b).condLst.length
  check : ∀ b, (w.made.get b).condLst.length = 9 → (w.made.get b).input = s.val →
    map b = some (checkDistance w s.val)

theorem exists_prints {inputs : List MyString} {s : MyString} (hs : s ∈ inputs) :
    ∃ map, CalculateDistance (final inputs) inputs (members (final inputs)) s.val = .ok map ∧
      Prints (final inputs) s map := by
  have hloop := final_looped inputs
  have hin : dependsOnInput inputs s.val = true :=
    List.any_eq_true.mpr ⟨s, hs, beq_self_eq_true s.val⟩
  have hrefuted := hloop.refuted (List.ne_nil_of_mem hs)
  refine ⟨_, map_eq (Outcomes.main_recorded inputs), fun b d hd => ?_, fun b hb hi => ?_⟩
  · split at hd
    · exact ⟨‹_ ∧ _›.2, scan_bounds hd⟩
    · cases hd
  · have hmem : (final inputs).made.get b ∈ nines (final inputs).made :=
      List.mem_filter.mpr ⟨List.get_mem _ b, decide_eq_true hb⟩
    rw [hloop.nines] at hmem
    obtain ⟨i, -, hmade⟩ := List.mem_map.mp hmem
    rw [if_pos ⟨mem_members hloop.full b, hi⟩, ← hmade]
    exact scan_checkBranch hin hrefuted i

/-- The branch of the check for an input is among those made. -/
theorem exists_checkBranch {inputs : List MyString} {s : MyString} (hs : s ∈ inputs) :
    ∃ b, (final inputs).made.get b = checkBranch s := by
  have hmem : checkBranch s ∈ nines (final inputs).made := by
    rw [(final_looped inputs).nines]
    exact List.mem_map_of_mem hs
  exact List.get_of_mem (List.mem_filter.mp hmem).1

/-- Every call prints a line. -/
theorem warnings_pos {inputs : List MyString} {s : MyString} (hs : s ∈ inputs) :
    0 < warnings (final inputs) inputs (members (final inputs)) s.val := by
  have hloop := final_looped inputs
  have hrefuted := hloop.refuted (List.ne_nil_of_mem hs)
  obtain ⟨b, hb⟩ := exists_checkBranch hs
  have hcount : 0 < (checkBranch s).condLst.countP (warned (final inputs) inputs s.val) :=
    List.countP_pos_iff.mpr ⟨conjunction 8 6 7, by simp [checkBranch],
      reported_penultimate hrefuted⟩
  have hinput : (final inputs).made[b].input = s.val := congrArg Branch.input hb
  rw [← hb] at hcount
  refine List.sum_pos_iff_exists_pos_nat.mpr
    ⟨_, List.mem_map_of_mem (mem_members hloop.full b), ?_⟩
  rw [if_pos hinput]
  exact hcount

theorem exists_maps (inputs : List MyString) :
    ∃ maps, printed (final inputs) inputs = .ok maps ∧
      List.Forall₂ (Prints (final inputs)) inputs maps := by
  have hprinted (l : List MyString) (hl : ∀ s ∈ l, s ∈ inputs) :
      ∃ maps, l.mapM (fun s => CalculateDistance (final inputs) inputs
        (members (final inputs)) s.val) = .ok maps ∧
      List.Forall₂ (Prints (final inputs)) l maps := by
    induction l with
    | nil => exact ⟨[], rfl, .nil⟩
    | cons s l ih =>
      obtain ⟨hs, hl⟩ := List.forall_mem_cons.mp hl
      obtain ⟨map, hmap, hprints⟩ := exists_prints hs
      obtain ⟨maps, hmaps, hall⟩ := ih hl
      refine ⟨map :: maps, ?_, .cons hprints hall⟩
      rw [List.mapM_cons, hmap, hmaps]
      rfl
  exact hprinted inputs fun _ hs => hs

end EcaEngines.Printed
