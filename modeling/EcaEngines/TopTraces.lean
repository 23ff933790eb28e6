import EcaEngines.Fuzzing
import EcaEngines.Ranking

/-!
# The traces that are selected

`Run.getTop100DepthTraces` of `instm183_LTL_CTLFuzzer`. A run holds a reference to a set of
references, so the method reads the state of `main` too.
-/
namespace EcaEngines.TopTraces
open Imperative Reactive Instrumented Fuzzing Ranking
open Original (Throwable)

/-- What the method may throw. -/
inductive Failure where
  | indexOutOfBounds (message : String)
  | thrown (ex : Throwable)
deriving DecidableEq

structure Triplet where
  k : List MyString
  v : ℕ
  t : List Throwable

/-- The objects in the set `branches` of a run, or null. -/
def branches (s : Main) (run : Run) : Option (List Branch) :=
  run.branches.bind fun x => (s.members x).map fun ks => ks.filterMap fun k => s.world.made[k]?

/-- The loop over the branches of a run. -/
def maxSize (branches : List Branch) : ℕ :=
  branches.foldl (fun max br => if br.condLst.length > max then br.condLst.length else max) 0

def triplet (s : Main) (run : Run) : Except Failure Triplet :=
  match branches s run with
  | none => throw (.thrown .nullPointer)
  | some bs => pure ⟨run.inputs, maxSize bs, run.exceptions⟩

/-- The comparator. -/
def compare (t1 t2 : Triplet) : ℤ :=
  if t1.t.length > t2.t.length then -1 else if t1.t.length < t2.t.length then 1 else 0

/-- `List.subList`. -/
def subList {α : Type} (l : List α) (fromIndex toIndex : ℤ) : Except Failure (List α) :=
  if fromIndex < 0 then
    throw (.indexOutOfBounds ("fromIndex = " ++ toString fromIndex))
  else if toIndex > l.length then
    throw (.indexOutOfBounds ("toIndex = " ++ toString toIndex))
  else if fromIndex > toIndex then
    throw (.thrown (.illegalArgument
      ("fromIndex(" ++ toString fromIndex ++ ") > toIndex(" ++ toString toIndex ++ ")")))
  else
    pure ((l.drop fromIndex.toNat).take (toIndex.toNat - fromIndex.toNat))

def getTop100DepthTraces (s : Main) (runsLst : List Run) : Except Failure (List Triplet) := do
  let tripletLst ← runsLst.mapM (triplet s)
  let tripletLst := tripletLst.mergeSort fun t1 t2 => compare t1 t2 ≤ 0
  let tripletLst ← subList tripletLst (tripletLst.length - 101) (tripletLst.length - 1)
  pure tripletLst.reverse

/-- The largest number of conditions of a branch, or 0. -/
def depth (s : Main) (run : Run) : ℕ :=
  (((branches s run).getD []).map fun br => br.condLst.length).foldr max 0

def tripletOf (s : Main) (run : Run) : Triplet := ⟨run.inputs, depth s run, run.exceptions⟩

/-- The triplets of at most 100 runs, the deepest first, and no other run is deeper. -/
structure Selects (s : Main) (runs : List Run) (ts : List Triplet) : Prop where
  length : ts.length = min 100 runs.length
  descending : ts.Pairwise fun t u => u.v ≤ t.v
  deepest : ∃ chosen left : List Run, (chosen ++ left).Perm runs ∧ ts = chosen.map (tripletOf s) ∧
    ∀ run ∈ left, ∀ t ∈ ts, depth s run ≤ t.v

/-- In the order of the comparator, which counts exceptions. -/
abbrev Precedes : Run × ℕ → Run × ℕ → Prop := Before fun run => run.exceptions.length

/-- The runs with at least one and at most 100 runs after them. -/
def Central (runs : List Run) (a : Run × ℕ) : Prop :=
  1 ≤ followers Precedes runs.zipIdx a ∧ followers Precedes runs.zipIdx a ≤ 100

/-- There are 101 runs, and no run is deeper than a central one, except central ones that come
later. -/
def DeepestCentral (s : Main) (runs : List Run) : Prop :=
  101 ≤ runs.length ∧ ∀ a ∈ runs.zipIdx, ∀ b ∈ runs.zipIdx, Central runs b →
    (Central runs a → Precedes a b) → depth s a.1 ≤ depth s b.1

theorem maxSize_eq (bs : List Branch) :
    maxSize bs = (bs.map fun br => br.condLst.length).foldr max 0 := by
  have h (m : ℕ) : bs.foldl
      (fun max br => if br.condLst.length > max then br.condLst.length else max) m =
        max m ((bs.map fun br => br.condLst.length).foldr max 0) := by
    induction bs generalizing m with
    | nil => exact (Nat.max_eq_left (Nat.zero_le m)).symm
    | cons br bs ih =>
      rw [List.foldl_cons, ih, List.map_cons, List.foldr_cons, ← Nat.max_assoc]
      congr 1
      split_ifs <;> omega
  exact (h 0).trans (Nat.max_eq_right (Nat.zero_le _))

section
variable {s : Main} {runs : List Run}

theorem triplet_eq {run : Run} (h : (branches s run).isSome) :
    triplet s run = .ok (tripletOf s run) := by
  obtain ⟨bs, hbs⟩ := Option.isSome_iff_exists.mp h
  have hdepth : maxSize bs = depth s run := by
    unfold depth
    rw [hbs]
    exact maxSize_eq bs
  unfold triplet tripletOf
  rw [hbs, ← hdepth]
  rfl

theorem mapM_triplet (h : ∀ run ∈ runs, (branches s run).isSome) :
    runs.mapM (triplet s) = .ok (runs.map (tripletOf s)) := by
  induction runs with
  | nil => rfl
  | cons run runs ih =>
    obtain ⟨hrun, hruns⟩ := List.forall_mem_cons.mp h
    rw [List.mapM_cons, triplet_eq hrun, ih hruns]
    rfl

/-- Some run has no set. -/
theorem mapM_triplet_null (h : ∃ run ∈ runs, branches s run = none) :
    runs.mapM (triplet s) = .error (.thrown .nullPointer) := by
  induction runs with
  | nil =>
    obtain ⟨run, hrun, -⟩ := h
    exact absurd hrun List.not_mem_nil
  | cons run runs ih =>
    rw [List.mapM_cons]
    cases hb : branches s run with
    | none =>
      have hthrow : triplet s run = .error (.thrown .nullPointer) := by
        unfold triplet
        rw [hb]
        rfl
      rw [hthrow]
      rfl
    | some bs =>
      obtain ⟨run', hrun', hnull⟩ := h
      have htail : run' ∈ runs := by
        rcases List.mem_cons.mp hrun' with rfl | hmem
        · rw [hb] at hnull
          cases hnull
        · exact hmem
      rw [triplet_eq (by rw [hb]; rfl), ih ⟨run', htail, hnull⟩]
      rfl

theorem compare_le_zero (t1 t2 : Triplet) :
    decide (compare t1 t2 ≤ 0) = decide (t2.t.length ≤ t1.t.length) := by
  unfold compare
  split_ifs <;> simp <;> omega

/-- The sorted list, as the runs with their positions. -/
theorem exists_order (s : Main) (runs : List Run) :
    ∃ m : List (Run × ℕ), m.Perm runs.zipIdx ∧ m.Pairwise Precedes ∧
      (runs.map (tripletOf s)).mergeSort (fun t1 t2 => compare t1 t2 ≤ 0) =
        m.map fun a => tripletOf s a.1 := by
  obtain ⟨m, hperm, hsorted, hm⟩ := exists_sorted (fun run : Run => run.exceptions.length) runs
  refine ⟨m, hperm, hsorted, ?_⟩
  have hmap := List.map_mergeSort (f := tripletOf s) (l := runs)
    (r := fun a b => decide (b.exceptions.length ≤ a.exceptions.length))
    (s := fun t1 t2 => compare t1 t2 ≤ 0)
    fun a _ b _ => (compare_le_zero (tripletOf s a) (tripletOf s b)).symm
  rw [← hmap, ← hm, List.map_map]
  rfl

theorem subList_of_lt {α : Type} {l : List α} (h : l.length < 101) :
    subList l (l.length - 101) (l.length - 1) =
      .error (.indexOutOfBounds ("fromIndex = " ++ toString ((l.length : ℤ) - 101))) := by
  unfold subList
  rw [if_pos (by omega)]
  rfl

theorem subList_of_le {α : Type} {l : List α} (h : 101 ≤ l.length) :
    subList l (l.length - 101) (l.length - 1) = .ok ((l.drop (l.length - 101)).take 100) := by
  have hfrom : ((l.length : ℤ) - 101).toNat = l.length - 101 := by omega
  have hto : ((l.length : ℤ) - 1).toNat - (l.length - 101) = 100 := by omega
  unfold subList
  rw [if_neg (by omega), if_neg (by omega), if_neg (by omega), hfrom, hto]
  rfl

/-- What is returned, in terms of the sorted list. -/
theorem getTop100DepthTraces_eq (h : ∀ run ∈ runs, (branches s run).isSome)
    {m : List (Run × ℕ)} (hlen : m.length = runs.length)
    (hm : (runs.map (tripletOf s)).mergeSort (fun t1 t2 => compare t1 t2 ≤ 0) =
      m.map fun a => tripletOf s a.1) :
    getTop100DepthTraces s runs =
      (subList (m.map fun a => tripletOf s a.1) (runs.length - 101) (runs.length - 1)).map
        List.reverse := by
  unfold getTop100DepthTraces
  rw [mapM_triplet h]
  change (do
    let tripletLst ← subList ((runs.map (tripletOf s)).mergeSort fun t1 t2 => compare t1 t2 ≤ 0)
      (((runs.map (tripletOf s)).mergeSort fun t1 t2 => compare t1 t2 ≤ 0).length - 101)
      (((runs.map (tripletOf s)).mergeSort fun t1 t2 => compare t1 t2 ≤ 0).length - 1)
    pure tripletLst.reverse) = _
  rw [hm, List.length_map, hlen]
  cases subList (m.map fun a => tripletOf s a.1) (runs.length - 101) (runs.length - 1) <;> rfl

/-- A list of 101 elements or more is cut before its last 101 and before its last. -/
theorem exists_segment {α : Type} {m : List α} (h : 101 ≤ m.length) :
    ∃ A W B, m = A ++ W ++ B ∧ W.length = 100 ∧ B.length = 1 ∧
      (m.drop (m.length - 101)).take 100 = W := by
  refine ⟨m.take (m.length - 101), (m.drop (m.length - 101)).take 100,
    (m.drop (m.length - 101)).drop 100, ?_, ?_, ?_, rfl⟩
  · rw [List.append_assoc, List.take_append_drop, List.take_append_drop]
  · rw [List.length_take, List.length_drop]
    omega
  · rw [List.length_drop, List.length_drop]
    omega

theorem segment_perm {α : Type} (A W B : List α) : (A ++ W ++ B).Perm (W.reverse ++ (A ++ B)) := by
  have hcomm : (A ++ W ++ B).Perm (W ++ A ++ B) := List.perm_append_comm.append_right B
  rw [List.append_assoc W] at hcomm
  exact hcomm.trans ((List.reverse_perm W).symm.append_right _)

/-- The depths of the runs that are left out do not depend on how they are told apart. -/
theorem left_depths {chosen left : List Run} {A W B : List (Run × ℕ)}
    (hperm : (chosen ++ left).Perm runs) (hm : (A ++ W ++ B).Perm runs.zipIdx)
    (hts : (W.map fun a => tripletOf s a.1).reverse = chosen.map (tripletOf s)) :
    (left.map (depth s)).Perm ((A ++ B).map fun a => depth s a.1) := by
  have hchosen : chosen.map (depth s) = (W.map fun a => depth s a.1).reverse := by
    have hv := congrArg (List.map Triplet.v) hts
    rw [List.map_reverse, List.map_map, List.map_map] at hv
    exact hv.symm
  have hruns : (runs.zipIdx.map fun a => depth s a.1) = runs.map (depth s) := by
    have hz := congrArg (List.map (depth s)) (List.zipIdx_map_fst 0 runs)
    rwa [List.map_map] at hz
  have hall : ((chosen ++ left).map (depth s)).Perm ((A ++ W ++ B).map fun a => depth s a.1) :=
    ((hperm.map (depth s)).trans (List.Perm.of_eq hruns.symm)).trans (hm.map _).symm
  have hmove : ((A ++ W ++ B).map fun a => depth s a.1).Perm
      ((W.map fun a => depth s a.1).reverse ++ (A ++ B).map fun a => depth s a.1) := by
    rw [← List.map_reverse, ← List.map_append]
    exact (segment_perm A W B).map _
  rw [List.map_append, hchosen] at hall
  exact (List.perm_append_left_iff _).mp (hall.trans hmove)

/-- The returned triplets are selected as asked if the segment ascends and is nowhere exceeded. -/
theorem selects_iff {A W B : List (Run × ℕ)} (hm : (A ++ W ++ B).Perm runs.zipIdx)
    (hW : W.length = 100) :
    Selects s runs (W.map fun a => tripletOf s a.1).reverse ↔
      W.Pairwise (fun a b => depth s a.1 ≤ depth s b.1) ∧
        ∀ a ∈ A ++ B, ∀ b ∈ W, depth s a.1 ≤ depth s b.1 := by
  have hdesc : ((W.map fun a => tripletOf s a.1).reverse.Pairwise fun t u => u.v ≤ t.v) ↔
      W.Pairwise fun a b => depth s a.1 ≤ depth s b.1 := by
    rw [List.pairwise_reverse, List.pairwise_map]
    rfl
  constructor
  · rintro ⟨-, hd, chosen, left, hperm, hts, hleft⟩
    refine ⟨hdesc.mp hd, fun a ha b hb => ?_⟩
    have hmem : depth s a.1 ∈ left.map (depth s) :=
      (left_depths hperm hm hts).mem_iff.mpr (List.mem_map_of_mem ha)
    obtain ⟨run, hrun, heq⟩ := List.mem_map.mp hmem
    have ht : tripletOf s b.1 ∈ (W.map fun a => tripletOf s a.1).reverse :=
      List.mem_reverse.mpr (List.mem_map_of_mem hb)
    exact heq ▸ hleft run hrun _ ht
  · rintro ⟨hd, hout⟩
    have hlen : 100 ≤ runs.length := by
      have := hm.length_eq
      simp only [List.length_append, List.length_zipIdx] at this
      omega
    refine ⟨?_, hdesc.mpr hd, (W.map Prod.fst).reverse, (A ++ B).map Prod.fst, ?_, ?_, ?_⟩
    · rw [List.length_reverse, List.length_map]
      omega
    · rw [← List.map_reverse, ← List.map_append]
      have hmove := ((segment_perm A W B).symm.trans hm).map Prod.fst
      rwa [List.zipIdx_map_fst] at hmove
    · rw [List.map_reverse, List.map_map]
      rfl
    · intro run hrun t ht
      obtain ⟨a, ha, rfl⟩ := List.mem_map.mp hrun
      obtain ⟨b, hb, rfl⟩ := List.mem_map.mp (List.mem_reverse.mp ht)
      exact hout a ha b hb

/-- The central runs are those of the segment. -/
theorem deepestCentral_iff {A W B : List (Run × ℕ)} (hm : (A ++ W ++ B).Perm runs.zipIdx)
    (hsorted : (A ++ W ++ B).Pairwise Precedes) (hW : W.length = 100) (hB : B.length = 1)
    (hn : 101 ≤ runs.length) :
    DeepestCentral s runs ↔ W.Pairwise (fun a b => depth s a.1 ≤ depth s b.1) ∧
      ∀ a ∈ A ++ B, ∀ b ∈ W, depth s a.1 ≤ depth s b.1 := by
  have hasymm := before_asymm fun run : Run => run.exceptions.length
  have hcentral (a : Run × ℕ) (ha : a ∈ A ++ W ++ B) : Central runs a ↔ a ∈ W := by
    rw [mem_segment_iff hasymm hsorted ha, followers_perm hm, hW, hB]
    exact and_congr Iff.rfl Nat.lt_succ_iff.symm
  rw [ascending_iff hasymm hsorted fun a => depth s a.1]
  constructor
  · rintro ⟨-, hall⟩ a ha b hb hab
    have hb' : b ∈ A ++ W ++ B := List.mem_append_left _ (List.mem_append_right _ hb)
    exact hall a (hm.mem_iff.mp ha) b (hm.mem_iff.mp hb') ((hcentral b hb').mpr hb)
      fun hc => hab ((hcentral a ha).mp hc)
  · intro hall
    refine ⟨hn, fun a ha b hb hbc hab => ?_⟩
    have ha' := hm.mem_iff.mpr ha
    have hb' := hm.mem_iff.mpr hb
    exact hall a ha' b ((hcentral b hb').mp hbc) fun haW => hab ((hcentral a ha').mpr haW)

/-- The method does what is asked if and only if there are 101 runs or more and the deepest ones
are those that the order of the exceptions puts before the last. -/
theorem getTop100DepthTraces_iff (s : Main) (runs : List Run)
    (h : ∀ run ∈ runs, (branches s run).isSome) :
    (∃ ts, getTop100DepthTraces s runs = .ok ts ∧ Selects s runs ts) ↔ DeepestCentral s runs := by
  obtain ⟨m, hperm, hsorted, hm⟩ := exists_order s runs
  have hlen : m.length = runs.length := by rw [hperm.length_eq, List.length_zipIdx]
  have heq := getTop100DepthTraces_eq h hlen hm
  have hmap : (m.map fun a => tripletOf s a.1).length = runs.length := by
    rw [List.length_map, hlen]
  rw [← hmap] at heq
  by_cases hn : 101 ≤ runs.length
  · obtain ⟨A, W, B, rfl, hW, hB, hcut⟩ := exists_segment (hlen ▸ hn)
    rw [subList_of_le (by omega), List.length_map, ← List.map_drop, ← List.map_take, hcut] at heq
    rw [deepestCentral_iff hperm hsorted hW hB hn, ← selects_iff hperm hW]
    constructor
    · rintro ⟨ts, hts, hsel⟩
      rw [heq] at hts
      exact Except.ok.inj hts ▸ hsel
    · exact fun hsel => ⟨_, heq, hsel⟩
  · rw [subList_of_lt (by omega)] at heq
    constructor
    · rintro ⟨ts, hts, -⟩
      rw [heq] at hts
      cases hts
    · exact fun hd => absurd hd.1 hn

end

/-- `main` with a set that is empty and the set of a branch with a condition. -/
def twoSets : Main where
  world := (exec (do
    let br ← newBranch "ai1_ce1"
    I.myLess 1 (.int (-164)) .a2108127495 br
    branchesAdd br) start.world).2
  sets := [[]]
  currentRun := .new []
  runLst := []

/-- A hundred runs with an exception, and then one without. -/
def mixed (first last : ℕ) : List Run :=
  List.replicate 100 ⟨[Original.noTransition], [], some first⟩ ++ [⟨[], [], some last⟩]

theorem mem_zipIdx_mixed {first last : ℕ} {a : Run × ℕ} (ha : a ∈ (mixed first last).zipIdx) :
    a.1 = ⟨[Original.noTransition], [], some first⟩ ∨ a = (⟨[], [], some last⟩, 100) := by
  rw [mixed, List.zipIdx_append, List.mem_append, List.length_replicate] at ha
  rcases ha with ha | ha
  · exact .inl (List.eq_of_mem_replicate (List.fst_mem_of_mem_zipIdx ha))
  · exact .inr (List.mem_singleton.mp ha)

/-- The runs with an exception are taken, so they should be the deeper ones. -/
theorem getTop100DepthTraces_iff_mixed :
    (∃ ts, getTop100DepthTraces twoSets (mixed 1 0) = .ok ts ∧ Selects twoSets (mixed 1 0) ts) ∧
    ¬ ∃ ts, getTop100DepthTraces twoSets (mixed 0 1) = .ok ts ∧
      Selects twoSets (mixed 0 1) ts := by
  have hsets : ∀ run ∈ mixed 1 0 ++ mixed 0 1, (branches twoSets run).isSome := by decide +kernel
  constructor
  · refine (getTop100DepthTraces_iff twoSets _ fun run h =>
      hsets run (List.mem_append_left _ h)).mpr ⟨by decide, fun a ha b hb hcentral _ => ?_⟩
    have hle : ∀ run ∈ mixed 1 0, depth twoSets run ≤ 1 := by decide +kernel
    have hfirst : depth twoSets ⟨[Original.noTransition], [], some 1⟩ = 1 := by decide +kernel
    rcases mem_zipIdx_mixed hb with hb | rfl
    · rw [hb, hfirst]
      exact hle a.1 (List.fst_mem_of_mem_zipIdx ha)
    · have hnone : ¬ 1 ≤ followers Precedes (mixed 1 0).zipIdx (⟨[], [], some 0⟩, 100) := by
        decide +kernel
      exact absurd hcentral.1 hnone
  · rw [getTop100DepthTraces_iff twoSets _ fun run h => hsets run (List.mem_append_right _ h)]
    rintro ⟨-, h⟩
    have hcentral : Central (mixed 0 1) (⟨[Original.noTransition], [], some 0⟩, 0) := by
      unfold Central
      decide +kernel
    have hlast : ¬ Central (mixed 0 1) (⟨[], [], some 1⟩, 100) := by
      unfold Central
      decide +kernel
    have hle := h (⟨[], [], some 1⟩, 100) (by simp [mixed])
      (⟨[Original.noTransition], [], some 0⟩, 0) (by simp [mixed, List.replicate_succ]) hcentral
      fun hc => absurd hc hlast
    exact absurd hle (by decide +kernel)

/-- The list is empty. -/
theorem not_selects_nil :
    ¬ ∀ runs : List Run, (∀ run ∈ runs, (branches start run).isSome) →
      ∃ ts, getTop100DepthTraces start runs = .ok ts ∧ Selects start runs ts := by
  intro h
  obtain ⟨ts, hts, -⟩ := h [] fun run hrun => absurd hrun List.not_mem_nil
  have hthrow : getTop100DepthTraces start [] =
      .error (.indexOutOfBounds ("fromIndex = " ++ toString (-101 : ℤ))) := by
    unfold getTop100DepthTraces
    rw [List.mapM_nil, pure_bind]
    simp only [List.mergeSort_nil]
    rfl
  rw [hthrow] at hts
  cases hts

theorem getTop100DepthTraces_null_iff (s : Main) (runs : List Run) :
    getTop100DepthTraces s runs = .error (.thrown .nullPointer) ↔
      ∃ run ∈ runs, branches s run = none := by
  constructor
  · intro hnull
    by_contra hnone
    have h : ∀ run ∈ runs, (branches s run).isSome := fun run hrun =>
      Option.isSome_iff_ne_none.mpr fun hb => hnone ⟨run, hrun, hb⟩
    obtain ⟨m, hperm, -, hm⟩ := exists_order s runs
    have hlen : (m.map fun a => tripletOf s a.1).length = runs.length := by
      rw [List.length_map, hperm.length_eq, List.length_zipIdx]
    have heq := getTop100DepthTraces_eq h (by rwa [List.length_map] at hlen) hm
    rw [hnull, ← hlen] at heq
    by_cases hn : 101 ≤ runs.length
    · rw [subList_of_le (by omega)] at heq
      cases heq
    · rw [subList_of_lt (by omega)] at heq
      cases heq
  · intro h
    unfold getTop100DepthTraces
    rw [mapM_triplet_null h]
    rfl

/-- The run of an iteration has a set if an input is accepted in it, and keeps it. -/
theorem branches_isSome_iff {m m' : Main} {inputs : List MyString} (h : Stored m inputs m')
    (its : List (List MyString)) :
    (branches (after step m' its) m'.currentRun).isSome ↔ Accepted inputs := by
  unfold branches
  rcases h.branches with ⟨hb, ha⟩ | ⟨hn, ha⟩
  · have hmem : m'.members m'.sets.length = some m'.world.branches := List.getElem?_concat_length
    rw [hb, Option.bind_some, after_members m' its hmem]
    exact iff_of_true rfl ha
  · rw [hn]
    exact iff_of_false Bool.false_ne_true ha

theorem exists_mem_iff {α β : Type} {p : α → Prop} {q : β → Prop} {as : List α} {bs : List β}
    (h : List.Forall₂ (fun a b => q b ↔ p a) as bs) : (∃ b ∈ bs, q b) ↔ ∃ a ∈ as, p a := by
  induction h with
  | nil => simp
  | cons hab _ ih => simp only [List.exists_mem_cons_iff, hab, ih]

end EcaEngines.TopTraces
