import EcaEngines.Tally
import EcaEngines.Depth
import EcaEngines.Runs

/-!
# The depth that `main` reports

An input that had no depth has three at most after its call, and three if the call
printed a word. No other input of the run gets deeper meanwhile.
-/
namespace EcaEngines.FlowLength
open Imperative Recording Effects Conditions Trees Simulation Regions DirectFinal Loops Depth Tally
open Original (Throwable)

variable {u v w : World} {r : Ref}

/-- The depth of an input that had none. -/
structure Fathomed (r : Ref) (u v : World) : Prop where
  nonneg : 0 ≤ (v.strings r).depth
  le : (v.strings r).depth ≤ 3
  printed : v.out ≠ u.out → (v.strings r).depth = 3

theorem fathomed_of_count (h : Deepened r u v) (hr : Owned u r) (hd : (u.strings r).depth = 0)
    (he : Ends (u.decisions.count true) u.out (erase v)) : Fathomed r u v := by
  obtain ⟨ds, hds, hdepth⟩ := h.depth hr
  have hcount : (erase v).decisions.count true = u.decisions.count true + ds.count true :=
    (congrArg (List.count true) hds).trans (List.count_append ..)
  have hle := he.count
  have hprinted := he.printed
  rw [hcount] at hle hprinted
  rw [hd, Int32.zero_add] at hdepth
  generalize ds.count true = c at hle hprinted hdepth
  have hc : c = 0 ∨ c = 1 ∨ c = 2 ∨ c = 3 := by omega
  refine ⟨?_, ?_, fun ho => ?_⟩
  · rw [hdepth]
    rcases hc with rfl | rfl | rfl | rfl <;> decide
  · rw [hdepth]
    rcases hc with rfl | rfl | rfl | rfl <;> decide
  · have hthree : c = 3 := by
      have heq := hprinted ho
      omega
    rw [hdepth, hthree]
    rfl

theorem calculateOutput_fathomed {y : ℕ} (hw : Sound w) (hy : y < w.nextSet) (hr : Owned w r)
    (hd : (w.strings r).depth = 0) :
    Fathomed r w (exec (DirectFinal.calculateOutput (.ref r) (some y)) w).2 := by
  have hin : Input (w.strings r).val (.ref r) w := ⟨r, rfl, hr, rfl⟩
  obtain ⟨res, v, hv, hq, -⟩ := calculateOutput_follows hw hy hin
  have hends := calculateOutput_ends (w.strings r).val (erase w)
  rw [hq] at hends
  have hres : ∀ e, res = .error e → ¬ Stops e := by
    rintro e he rfl
    cases Nested.calculateOutput_raises (w.strings r).val (erase w) _ (by rw [hq, he])
  rw [hv]
  exact fathomed_of_count (deepens_calculateOutput r (some y) w res v hv hres) hr hd hends

/-- One round of the loop for the largest depth. -/
def deeper (w : World) (maxDepth : Int32) (str : Ref) : Int32 :=
  if (w.strings str).depth > maxDepth then (w.strings str).depth else maxDepth

/-- The largest depth, which is printed. The rest of the lines is left out. -/
def printFlowLength (input : List Ref) : Prog Int32 := do
  let w ← get
  pure (input.foldl (deeper w) (-1))

/-- A training run with what it reports. -/
def trainingFlow (trainingBranches : SetVar) (vals : List String) : Prog Int32 := do
  trainingReset
  let fuzzed_inputs ← fuzz vals
  fuzzed_inputs.forM fun input => process .training trainingBranches (.ref input)
  printFlowLength fuzzed_inputs

/-- The measured run with what it reports. -/
def measuredFlow (vals : List String) : Prog Int32 := do
  reset
  let fuzzed_inputs ← fuzz vals
  let branches ← newBranches
  fuzzed_inputs.forM fun input => process .measured branches (.ref input)
  printFlowLength fuzzed_inputs

/-- What one input of a loop leaves. -/
theorem process_fathomed (phase : Phase) {x : ℕ} (hw : Sound w) (hx : x < w.nextSet)
    (hr : Owned w r) (hd : (w.strings r).depth = 0) :
    ∃ v, exec (process phase (some x) (.ref r)) w = (.ok (), v) ∧ Within x w v ∧
      (∀ s, Owned w s → s ≠ r → v.strings s = w.strings s) ∧ Fathomed r w v := by
  obtain ⟨l, r', u, v, hv, hp⟩ := process_processed phase hw hx ⟨r, rfl, hr, rfl⟩
  have hdeep := deepens_process r phase (some x) w _ v hv nofun
  obtain ⟨res, hq⟩ := hp.call
  have hends := calculateOutput_ends (w.strings r).val (erase u)
  have hcount : (erase u).decisions.count true = w.decisions.count true := by
    rw [hp.state]
    exact List.count_append.trans rfl
  have hout : (erase u).out = w.out := by
    rw [hp.state]
    rfl
  rw [hq, hcount, hout] at hends
  exact ⟨v, hv, Runs.processed_within hw hx hp, hdeep.others, fathomed_of_count hdeep hr hd hends⟩

/-- The inputs are different objects that exist and have no depth. -/
structure Fresh (inputs : List Ref) (w : World) : Prop where
  nodup : inputs.Nodup
  owned : ∀ r ∈ inputs, Owned w r
  depth : ∀ r ∈ inputs, (w.strings r).depth = 0

theorem loop_fathomed (phase : Phase) {x : ℕ} {inputs : List Ref} (hw : Sound w)
    (hx : x < w.nextSet) (hin : Fresh inputs w) :
    ∃ v, exec (inputs.forM fun input => process phase (some x) (.ref input)) w = (.ok (), v) ∧
      (∀ s, Owned w s → s ∉ inputs → v.strings s = w.strings s) ∧
      (∀ r ∈ inputs, (v.strings r).depth ≤ 3) ∧
      (v.out ≠ w.out → ∃ r ∈ inputs, (v.strings r).depth = 3) := by
  induction inputs generalizing w with
  | nil =>
    exact ⟨w, rfl, fun _ _ _ => rfl, fun _ h => absurd h List.not_mem_nil, fun h => absurd rfl h⟩
  | cons r inputs ih =>
    obtain ⟨hr, hnodup⟩ := List.nodup_cons.mp hin.nodup
    have hown := hin.owned r List.mem_cons_self
    obtain ⟨u, hu, hwithin, hothers, hf⟩ :=
      process_fathomed phase hw hx hown (hin.depth r List.mem_cons_self)
    have hfresh : Fresh inputs u := by
      refine ⟨hnodup, fun s hs => ?_, fun s hs => ?_⟩
      · exact (hin.owned s (List.mem_cons_of_mem _ hs)).mono hwithin.objects.next
      · have hne : s ≠ r := fun h => hr (h ▸ hs)
        rw [hothers s (hin.owned s (List.mem_cons_of_mem _ hs)) hne]
        exact hin.depth s (List.mem_cons_of_mem _ hs)
    obtain ⟨v, hv, hothers', hle, hout⟩ :=
      ih hwithin.sound (hx.trans_le hwithin.nextSet) hfresh
    -- what comes later leaves this input alone
    have hkeep : v.strings r = u.strings r := hothers' r (hown.mono hwithin.objects.next) hr
    refine ⟨v, (exec_bind_ok hu).trans hv, fun s hs hmem => ?_, fun s hs => ?_, fun ho => ?_⟩
    · rw [List.mem_cons, not_or] at hmem
      exact (hothers' s (hs.mono hwithin.objects.next) hmem.2).trans (hothers s hs hmem.1)
    · rcases List.mem_cons.mp hs with rfl | hs
      · rw [hkeep]
        exact hf.le
      · exact hle s hs
    · by_cases hprinted : u.out = w.out
      · obtain ⟨s, hs, hd⟩ := hout (hprinted ▸ ho)
        exact ⟨s, List.mem_cons_of_mem _ hs, hd⟩
      · exact ⟨r, List.mem_cons_self, by rw [hkeep]; exact hf.printed hprinted⟩

theorem le_deeper (w : World) (m : Int32) (r : Ref) :
    m ≤ deeper w m r ∧ (w.strings r).depth ≤ deeper w m r := by
  unfold deeper
  split_ifs with h
  · exact ⟨Int32.le_of_lt h, Int32.le_refl _⟩
  · exact ⟨Int32.le_refl _, Int32.not_lt.mp h⟩

theorem deeper_le {m k : Int32} (hm : m ≤ k) (hr : (w.strings r).depth ≤ k) :
    deeper w m r ≤ k := by
  unfold deeper
  split_ifs
  · exact hr
  · exact hm

/-- The loop ends with an upper bound of all depths. -/
theorem le_foldl_deeper (w : World) (inputs : List Ref) (m : Int32) :
    m ≤ inputs.foldl (deeper w) m ∧
      ∀ r ∈ inputs, (w.strings r).depth ≤ inputs.foldl (deeper w) m := by
  induction inputs generalizing m with
  | nil => exact ⟨Int32.le_refl _, fun _ h => absurd h List.not_mem_nil⟩
  | cons r inputs ih =>
    obtain ⟨hle, hmem⟩ := ih (deeper w m r)
    obtain ⟨hm, hr⟩ := le_deeper w m r
    refine ⟨Int32.le_trans hm hle, fun s hs => ?_⟩
    rcases List.mem_cons.mp hs with rfl | hs
    · exact Int32.le_trans hr hle
    · exact hmem s hs

theorem foldl_deeper_le {inputs : List Ref} {m k : Int32} (hm : m ≤ k)
    (h : ∀ r ∈ inputs, (w.strings r).depth ≤ k) : inputs.foldl (deeper w) m ≤ k := by
  induction inputs generalizing m with
  | nil => exact hm
  | cons r inputs ih =>
    exact ih (deeper_le hm (h r List.mem_cons_self)) fun s hs => h s (List.mem_cons_of_mem _ hs)

theorem printFlowLength_max {inputs : List Ref} (hle : ∀ r ∈ inputs, (w.strings r).depth ≤ 3) :
    ∃ d, exec (printFlowLength inputs) w = (.ok d, w) ∧ d ≤ 3 ∧
      ((∃ r ∈ inputs, (w.strings r).depth = 3) → d = 3) := by
  have hmax : inputs.foldl (deeper w) (-1) ≤ 3 := foldl_deeper_le (by decide) hle
  refine ⟨_, rfl, hmax, ?_⟩
  rintro ⟨r, hr, hd⟩
  have hge := (le_foldl_deeper w inputs (-1)).2 r hr
  rw [hd] at hge
  exact Int32.le_antisymm hmax hge

/-- The inputs of the fuzzer are new, and without depth. -/
theorem fuzz_fresh (vals : List String) (w : World) :
    ∃ rs v, exec (fuzz vals) w = (.ok rs, v) ∧ Fresh rs v ∧
      (∀ r ∈ rs, ∃ n, w.next ≤ n ∧ r = .made n) ∧ Still w v := by
  unfold fuzz
  generalize 0 = k
  induction vals generalizing w k with
  | nil =>
    refine ⟨[], w, rfl, ⟨List.nodup_nil, ?_, ?_⟩, ?_, .refl w⟩ <;>
      exact fun r hr => absurd hr List.not_mem_nil
  | cons val vals ih =>
    let name := "input number: " ++ toString k
    let u := ((w.grown .myString).setString (.made w.next) ⟨val, 0, name⟩).taint (.made w.next)
    have hu : exec (MyString.new4 val name true) w = (.ok (.made w.next), u) := rfl
    obtain ⟨rs, v, hv, hfresh, hnew, hkeep⟩ := ih u (k + 1)
    have hnext : u.next = w.next + 1 := rfl
    have hown : Owned u (.made w.next) := ⟨w.next, by omega, rfl⟩
    have hself : v.strings (.made w.next) = ⟨val, 0, name⟩ :=
      (hkeep.strings _ hown).trans (Function.update_self _ _ _)
    have hstill : Still w u := (still_newString _ w).trans (still_taint _ _)
    refine ⟨.made w.next :: rs, v, ?_, ⟨List.nodup_cons.mpr ⟨fun hmem => ?_, hfresh.nodup⟩,
      fun r hr => ?_, fun r hr => ?_⟩, fun r hr => ?_, hstill.trans hkeep⟩
    · rw [List.zipIdx_cons, List.mapM_cons, exec_bind_ok hu, exec_bind_ok hv, exec_pure]
    · obtain ⟨n, hn, heq⟩ := hnew _ hmem
      rw [Ref.made.injEq] at heq
      omega
    · rcases List.mem_cons.mp hr with rfl | hr
      · exact hown.mono hkeep.next
      · exact hfresh.owned r hr
    · rcases List.mem_cons.mp hr with rfl | hr
      · rw [hself]
      · exact hfresh.depth r hr
    · rcases List.mem_cons.mp hr with rfl | hr
      · exact ⟨w.next, le_refl _, rfl⟩
      · obtain ⟨n, hn, rfl⟩ := hnew r hr
        exact ⟨n, by omega, rfl⟩

/-- What a run reports on fresh inputs. -/
theorem reports (phase : Phase) {x : ℕ} {inputs : List Ref} (hw : Sound w) (hx : x < w.nextSet)
    (hin : Fresh inputs w) :
    ∃ d v, exec (do
      inputs.forM fun input => process phase (some x) (.ref input)
      printFlowLength inputs) w = (.ok d, v) ∧ d ≤ 3 ∧ (v.out ≠ w.out → d = 3) := by
  obtain ⟨v, hv, -, hle, hout⟩ := loop_fathomed phase hw hx hin
  obtain ⟨d, hd, hmax, hthree⟩ := printFlowLength_max hle
  exact ⟨d, v, (exec_bind_ok hv).trans hd, hmax, fun ho => hthree (hout ho)⟩

theorem trainingFlow_reports {x : ℕ} (hw : Sound w) (hx : x < w.nextSet) (vals : List String) :
    ∃ d v, exec (trainingFlow (some x) vals) w = (.ok d, v) ∧ d ≤ 3 ∧
      (v.out ≠ w.out → d = 3) := by
  have hreset := Runs.trainingReset_later hw
  obtain ⟨inputs, u, hu, hfuzz, he, -⟩ := fuzz_inputs hreset.sound x vals
  obtain ⟨rs, u', hu', hfresh, -, -⟩ := fuzz_fresh vals (restarted (prepared w))
  obtain ⟨h₁, rfl⟩ := Prod.mk.injEq .. ▸ hu.symm.trans hu'
  obtain rfl := Except.ok.inj h₁
  obtain ⟨d, v, hv, hd, hout⟩ := reports .training hfuzz.sound
    ((hx.trans_le hreset.nextSet).trans_le hfuzz.nextSet) hfresh
  have hprinted : u.out = w.out := by
    have herase : u.out = (restarted (prepared w)).out := congrArg Nested.State.out he
    rw [herase, Runs.prepared_rest]
    rfl
  refine ⟨d, v, ?_, hd, hprinted ▸ hout⟩
  unfold trainingFlow
  rw [exec_bind_ok (exec_trainingReset w), exec_bind_ok hu, hv]

theorem measuredFlow_reports (hw : Sound w) (vals : List String) :
    ∃ d v, exec (measuredFlow vals) w = (.ok d, v) ∧ d ≤ 3 ∧ (v.out ≠ w.out → d = 3) := by
  have hreset := Runs.reset_later hw
  obtain ⟨inputs, u, hu, hfuzz, he, -⟩ := fuzz_inputs hreset.sound 0 vals
  obtain ⟨rs, u', hu', hfresh, -, -⟩ :=
    fuzz_fresh vals (restarted { w with taintSet := some ∅, var := true })
  obtain ⟨h₁, rfl⟩ := Prod.mk.injEq .. ▸ hu.symm.trans hu'
  obtain rfl := Except.ok.inj h₁
  obtain ⟨x, l, r, t, ht, hb⟩ := newBranches_branched u
  have hlt := hb.left
  have hlr := hb.order
  have hright := hb.right
  have hfresh' : Fresh inputs t := by
    rw [hb.rest]
    exact ⟨hfresh.nodup, hfresh.owned, hfresh.depth⟩
  obtain ⟨d, v, hv, hd, hout⟩ := reports .measured (hb.within hfuzz.sound 0).sound
    (by omega : x < t.nextSet) hfresh'
  have hprinted : t.out = w.out := by
    have herase : u.out = w.out := congrArg Nested.State.out he
    rw [hb.rest, herase]
  refine ⟨d, v, ?_, hd, hprinted ▸ hout⟩
  unfold measuredFlow
  rw [exec_bind_ok (exec_reset w), exec_bind_ok hu, exec_bind_ok ht, hv]

/-- A call takes an input without depth to 3 at most, and to 3 if it prints a word. So
does what the runs of `main` report. -/
theorem depth_bounded (w : World) (x : ℕ) (hw : Sound w) (hx : x < w.nextSet) :
    (∀ r, Owned w r → (w.strings r).depth = 0 →
      Fathomed r w (exec (DirectFinal.calculateOutput (.ref r) (some x)) w).2) ∧
    (∀ vals, ∃ d v, exec (trainingFlow (some x) vals) w = (.ok d, v) ∧ d ≤ 3 ∧
      (v.out ≠ w.out → d = 3)) ∧
    ∀ vals, ∃ d v, exec (measuredFlow vals) w = (.ok d, v) ∧ d ≤ 3 ∧ (v.out ≠ w.out → d = 3) :=
  ⟨fun _ hr hd => calculateOutput_fathomed hw hx hr hd, trainingFlow_reports hw hx,
    measuredFlow_reports hw⟩

/-- The first of the engine's own words, which is accepted at the start. -/
theorem depth_bounded_start :
    ∃ w, w = (exec newBranches Runs.start).2 ∧
    (∃ v, (exec (DirectFinal.calculateOutput (.ref (.made 0)) (some 0)) w).2 = v ∧ v.out ≠ w.out ∧
      (v.strings (.made 0)).depth = 3) ∧
    (∃ d v, exec (trainingFlow (some 0) ["ai1_ce1"]) w = (.ok d, v) ∧ v.out ≠ w.out ∧ d = 3) ∧
    ∃ d v, exec (measuredFlow ["ai1_ce1"]) w = (.ok d, v) ∧ v.out ≠ w.out ∧ d = 3 := by
  obtain ⟨x, l, r, v, hv, hb⟩ := newBranches_branched Runs.start
  obtain ⟨w, hw⟩ : ∃ w, (exec newBranches Runs.start).2 = w := ⟨_, rfl⟩
  have hsound : Sound w := by
    rw [← hw, hv]
    exact (hb.within Runs.start_sound 0).sound
  have hset : 0 < w.nextSet := hw ▸ (by decide +kernel)
  have hnext : 0 < w.next := hw ▸ (by decide +kernel)
  have hdepth : (w.strings (.made 0)).depth = 0 := hw ▸ (by decide +kernel)
  obtain ⟨hcall, htraining, hmeasured⟩ := depth_bounded w 0 hsound hset
  have hfathomed := hcall (.made 0) ⟨0, hnext, rfl⟩ hdepth
  have hout : (exec (DirectFinal.calculateOutput (.ref (.made 0)) (some 0)) w).2.out ≠ w.out :=
    hw ▸ (by decide +kernel)
  refine ⟨w, hw.symm, ⟨_, rfl, hout, hfathomed.printed hout⟩, ?_, ?_⟩
  · obtain ⟨d, v, hd, -, hthree⟩ := htraining ["ai1_ce1"]
    have hprinted : (exec (trainingFlow (some 0) ["ai1_ce1"]) w).2.out ≠ w.out :=
      hw ▸ (by decide +kernel)
    rw [hd] at hprinted
    exact ⟨d, v, hd, hprinted, hthree hprinted⟩
  · obtain ⟨d, v, hd, -, hthree⟩ := hmeasured ["ai1_ce1"]
    have hprinted : (exec (measuredFlow ["ai1_ce1"]) w).2.out ≠ w.out := hw ▸ (by decide +kernel)
    rw [hd] at hprinted
    exact ⟨d, v, hd, hprinted, hthree hprinted⟩

end EcaEngines.FlowLength
