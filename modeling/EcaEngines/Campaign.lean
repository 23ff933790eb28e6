import EcaEngines.TopTraces
import EcaEngines.Checks
import Mathlib.Data.List.MinMax

/-!
# The depth of the stored runs

Every run has the branch of the first `if` in the loop, and none of its branches has more
conditions. So all runs that can be selected have the same depth.
-/
namespace EcaEngines.Campaign
open Imperative Reactive Instrumented Fuzzing TopTraces Checks
open Original (Throwable noTransition)

theorem process_makes (input : MyString) (s : Main) :
    Leads (process input) s fun s' => Makes [checkBranch input] s.world s'.world := by
  obtain ⟨w, he, -⟩ := Fuzzer.check_tests input s.world
  have hw := check_makes input s.world
  rw [he] at hw
  have hcheck : exec (ifM (lift (Fuzzer.check input)) (addException noTransition)) s =
      (.ok (), { s with world := w }) := exec_ifM_of_false (by
    unfold lift
    rw [exec_zoom, he])
  have ho := Fuzzer.CalculateOutput_implements input w
  refine Leads.seq hcheck ?_
  unfold Leads
  rw [exec_tryCatch]
  rcases hr : exec (Fuzzer.CalculateOutput input) w with ⟨r, w'⟩
  have hw' : Makes [checkBranch input] s.world w' :=
    hw.trans (moves_CalculateOutput input w r w' hr fun _ _ h => h)
  rw [hr] at ho
  rw [exec_try (s := { s with world := w }) hr]
  generalize Transitions.fired w.view input.val = o at ho
  cases ho with
  | rejected => exact ⟨_, rfl, hw'⟩
  | fired => exact ⟨_, rfl, hw'⟩

theorem step_makes (m : Main) (inputs : List MyString) :
    Makes (inputs.map checkBranch) m.world (step m inputs).2.world := by
  have hloop (s : Main) : Leads (inputs.forM process) s fun s' =>
      ∃ done, done ++ [] = inputs ∧ Makes (done.map checkBranch) s.world s'.world := by
    refine leads_forM (I := fun rest s' => ∃ done, done ++ rest = inputs ∧
      Makes (done.map checkBranch) s.world s'.world) ?_ inputs s ⟨[], rfl, makes_of_same rfl⟩
    rintro i rest s₁ ⟨done, hdone, h⟩
    obtain ⟨s₂, hs₂, h₂⟩ := process_makes i s₁
    refine ⟨s₂, hs₂, done ++ [i], ?_, ?_⟩
    · rw [List.append_assoc, List.singleton_append, hdone]
    · rw [List.map_append]
      exact h.trans h₂
  have hiter : Leads (iteration inputs) m fun s' =>
      Makes (inputs.map checkBranch) m.world s'.world := by
    unfold iteration
    refine Leads.seq (exec_modify _ m) ?_
    refine Leads.seq (exec_modify _ _) ?_
    refine Leads.seq (exec_modify _ _) ?_
    obtain ⟨s, hs, done, hdone, h⟩ := hloop _
    rw [List.append_nil] at hdone
    exact Leads.seq hs ⟨_, exec_modify _ _, hdone ▸ h⟩
  obtain ⟨s, hs, h⟩ := hiter
  have hstep : step m inputs = exec (iteration inputs) m := rfl
  rw [hstep, hs]
  exact h

/-- No branch is changed any more once its iteration has ended. -/
theorem after_prefix (m : Main) (its : List (List MyString)) :
    m.world.made <+: (after step m its).world.made := by
  refine after_invariant (I := fun s : Main => m.world.made <+: s.world.made) (fun s i h => ?_)
    (List.prefix_refl _) its
  obtain ⟨new, hnew, -⟩ := step_makes s i
  exact h.trans ⟨new, hnew.symm⟩

/-- The branches of a run, whenever they are looked at. -/
theorem mem_branches_iff {m m' : Main} {inputs : List MyString} (h : Stored m inputs m')
    (ha : Accepted inputs) {new : List Branch} (hnew : m'.world.made = m.world.made ++ new)
    (its : List (List MyString)) :
    ∃ bs, branches (after step m' its) m'.currentRun = some bs ∧ ∀ b, b ∈ bs ↔ b ∈ new := by
  obtain ⟨rest, hrest⟩ := after_prefix m' its
  have hset : m'.currentRun.branches = some m'.sets.length := by
    rcases h.branches with ⟨hb, -⟩ | ⟨-, hn⟩
    · exact hb
    · exact absurd ha hn
  have hmem : m'.members m'.sets.length = some m'.world.branches := List.getElem?_concat_length
  unfold branches
  rw [hset, Option.bind_some, after_members m' its hmem]
  refine ⟨_, rfl, fun b => ?_⟩
  rw [List.mem_filterMap]
  simp only [h.full.mem, ← hrest]
  constructor
  · rintro ⟨k, ⟨hle, hlt⟩, hk⟩
    rw [List.getElem?_append_left hlt, hnew, List.getElem?_append_right hle] at hk
    exact List.mem_of_getElem? hk
  · intro hb
    obtain ⟨k, hk⟩ := List.mem_iff_getElem?.mp hb
    have hlt := (List.getElem?_eq_some_iff.mp hk).1
    refine ⟨m.world.made.length + k, ⟨Nat.le_add_right _ _, ?_⟩, ?_⟩
    · rw [hnew, List.length_append]
      omega
    · rw [List.getElem?_append_left (by rw [hnew, List.length_append]; omega), hnew,
        List.getElem?_append_right (Nat.le_add_right _ _), Nat.add_sub_cancel_left, hk]

/-- All runs with branches are equally deep, seen from the end of any number of iterations. -/
theorem depth_eq {m : Main} {inputs : List MyString} (ha : Accepted inputs)
    (its : List (List MyString)) :
    depth (after step (step m inputs).2 its) (step m inputs).2.currentRun = 9 := by
  obtain ⟨new, hnew, hle, hnines⟩ := step_makes m inputs
  obtain ⟨bs, hbs, hmem⟩ := mem_branches_iff (step_stored m inputs).2 ha hnew its
  obtain ⟨i, hi, -⟩ := ha
  have hb : checkBranch i ∈ nines new := hnines ▸ List.mem_map_of_mem hi
  have hin := (hmem _).mpr (List.mem_filter.mp hb).1
  unfold depth
  rw [hbs]
  refine Nat.le_antisymm (List.max_le_of_forall_le _ _ fun n hn => ?_)
    (List.le_max_of_le (List.mem_map_of_mem hin) (Nat.le_refl 9))
  obtain ⟨c, hc, rfl⟩ := List.mem_map.mp hn
  rcases hle c ((hmem c).mp hc) with h | h <;> omega

/-- The triplets of a hundred runs, in the order of their exceptions: one run has at most as many
as these, and the others have at least as many. -/
def Fewest (s : Main) (runs : List Run) (ts : List Triplet) : Prop :=
  ∃ (best : Run) (chosen left : List Run), (best :: (chosen ++ left)).Perm runs ∧
    (best :: (chosen ++ left)).Pairwise (fun a b => a.exceptions.length ≤ b.exceptions.length) ∧
      chosen.length = 100 ∧ ts = chosen.map (tripletOf s)

theorem fewest_of_segment {s : Main} {runs : List Run} {A W B : List (Run × ℕ)}
    (hm : (A ++ W ++ B).Perm runs.zipIdx) (hsorted : (A ++ W ++ B).Pairwise Precedes)
    (hW : W.length = 100) (hB : B.length = 1) :
    Fewest s runs (W.map fun a => tripletOf s a.1).reverse := by
  obtain ⟨b, rfl⟩ := List.length_eq_one_iff.mp hB
  have hrev : b.1 :: ((W.map Prod.fst).reverse ++ (A.map Prod.fst).reverse) =
      ((A ++ W ++ [b]).map Prod.fst).reverse := by
    simp only [List.map_append, List.reverse_append, List.map_cons, List.map_nil,
      List.reverse_singleton, List.singleton_append]
  refine ⟨b.1, (W.map Prod.fst).reverse, (A.map Prod.fst).reverse, ?_, ?_, ?_, ?_⟩
  · have hmap := hm.map Prod.fst
    rw [List.zipIdx_map_fst] at hmap
    exact hrev ▸ (List.reverse_perm _).trans hmap
  · rw [hrev, List.pairwise_reverse, List.pairwise_map]
    refine hsorted.imp fun h => ?_
    rcases h with h | ⟨h, -⟩
    · exact h.le
    · exact h.ge
  · rw [List.length_reverse, List.length_map, hW]
  · rw [List.map_reverse, List.map_map]
    rfl

/-- Of runs that are equally deep, a hundred are the deepest whichever they are. -/
theorem getTop100DepthTraces_flat {s : Main} {runs : List Run} {d : ℕ}
    (h : ∀ run ∈ runs, (branches s run).isSome ∧ depth s run = d) :
    (runs.length < 101 ∧ getTop100DepthTraces s runs =
      .error (.indexOutOfBounds ("fromIndex = " ++ toString ((runs.length : ℤ) - 101)))) ∨
    (101 ≤ runs.length ∧ ∃ ts, getTop100DepthTraces s runs = .ok ts ∧ Selects s runs ts ∧
      Fewest s runs ts ∧ ∀ t ∈ ts, t.v = d) := by
  obtain ⟨m, hperm, hsorted, hm⟩ := exists_order s runs
  have hlen : m.length = runs.length := by rw [hperm.length_eq, List.length_zipIdx]
  have heq := getTop100DepthTraces_eq (fun run hrun => (h run hrun).1) hlen hm
  have hmap : (m.map fun a => tripletOf s a.1).length = runs.length := by
    rw [List.length_map, hlen]
  rw [← hmap] at heq
  by_cases hn : 101 ≤ runs.length
  · obtain ⟨A, W, B, rfl, hW, hB, hcut⟩ := exists_segment (hlen ▸ hn)
    have hdepth (a : Run × ℕ) (ha : a ∈ A ++ W ++ B) : depth s a.1 = d :=
      (h a.1 (List.fst_mem_of_mem_zipIdx (hperm.mem_iff.mp ha))).2
    have hin {a : Run × ℕ} (ha : a ∈ W) : a ∈ A ++ W ++ B :=
      List.mem_append_left _ (List.mem_append_right _ ha)
    rw [subList_of_le (by omega), List.length_map, ← List.map_drop, ← List.map_take, hcut] at heq
    refine .inr ⟨hn, _, heq, (selects_iff hperm hW).mpr ⟨?_, fun a ha b hb => ?_⟩,
      fewest_of_segment hperm hsorted hW hB, fun t ht => ?_⟩
    · exact List.pairwise_of_forall_mem_list fun a ha b hb =>
        ((hdepth a (hin ha)).trans (hdepth b (hin hb)).symm).le
    · have ha' : a ∈ A ++ W ++ B := by
        simp only [List.mem_append] at ha ⊢
        tauto
      exact ((hdepth a ha').trans (hdepth b (hin hb)).symm).le
    · obtain ⟨a, ha, rfl⟩ := List.mem_map.mp (List.mem_reverse.mp ht)
      exact hdepth a (hin ha)
  · rw [subList_of_lt (by omega), hmap] at heq
    exact .inl ⟨by omega, heq⟩

theorem exists_of_forall₂ {α β : Type} {R : α → β → Prop} {as : List α} {bs : List β} {b : β}
    (h : List.Forall₂ R as bs) (hb : b ∈ bs) : ∃ a ∈ as, R a b := by
  induction h with
  | nil => exact absurd hb List.not_mem_nil
  | @cons a _ as _ hR _ ih =>
    rcases List.mem_cons.mp hb with rfl | hb
    · exact ⟨a, List.mem_cons_self, hR⟩
    · obtain ⟨a', ha', hR'⟩ := ih hb
      exact ⟨a', List.mem_cons_of_mem a ha', hR'⟩

/-- What `getTop100DepthTraces(runLst)` does after any number of iterations of `main`. If it
returns, the order of the exceptions alone has chosen the runs. -/
theorem getTop100DepthTraces_main (its : List (List MyString)) :
    let s := after step start its
    let r := getTop100DepthTraces s s.runLst
    ((∃ inputs ∈ its, ¬ Accepted inputs) ∧ r = .error (.thrown .nullPointer)) ∨
    ((∀ inputs ∈ its, Accepted inputs) ∧ its.length < 101 ∧
      r = .error (.indexOutOfBounds ("fromIndex = " ++ toString ((its.length : ℤ) - 101)))) ∨
    ((∀ inputs ∈ its, Accepted inputs) ∧ 101 ≤ its.length ∧
      ∃ ts, r = .ok ts ∧ Selects s s.runLst ts ∧ Fewest s s.runLst ts ∧ ∀ t ∈ ts, t.v = 9) := by
  intro s r
  obtain ⟨runs, hlst, hruns⟩ := forall_runs
    (P := fun s e run => ((branches s run).isSome ↔ Accepted e.input) ∧
      (Accepted e.input → depth s run = 9))
    (fun m inputs its => ⟨branches_isSome_iff (step_stored m inputs).2 its,
      fun ha => depth_eq ha its⟩) start its
  have hall : List.Forall₂ (fun inputs run => ((branches s run).isSome ↔ Accepted inputs) ∧
      (Accepted inputs → depth s run = 9)) its runs := by
    rw [← trace_inputs step start its]
    exact List.forall₂_map_left_iff.mpr hruns
  have hlst' : s.runLst = runs := hlst
  have hlen : its.length = s.runLst.length := hlst' ▸ hall.length_eq
  rw [← hlst'] at hall
  by_cases ha : ∀ inputs ∈ its, Accepted inputs
  · have hflat : ∀ run ∈ s.runLst, (branches s run).isSome ∧ depth s run = 9 := by
      intro run hrun
      obtain ⟨inputs, hi, hb, hd⟩ := exists_of_forall₂ hall hrun
      exact ⟨hb.mpr (ha inputs hi), hd (ha inputs hi)⟩
    rw [hlen]
    rcases getTop100DepthTraces_flat hflat with ⟨hlt, hr⟩ | ⟨hle, hr⟩
    · exact .inr (.inl ⟨ha, hlt, hr⟩)
    · exact .inr (.inr ⟨ha, hle, hr⟩)
  · push Not at ha
    refine .inl ⟨ha, (getTop100DepthTraces_null_iff s _).mpr ((exists_mem_iff
      (hall.imp fun inputs run h => ?_)).mpr ha)⟩
    rw [← h.1, Option.not_isSome_iff_eq_none]

end EcaEngines.Campaign
