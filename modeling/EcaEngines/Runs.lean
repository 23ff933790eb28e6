import EcaEngines.Loops

/-!
# The phases of `main`

A loop over inputs only extends the world in which it starts, and of the existing sets
it writes the one of the phase. So what a single input leaves behind is still there
after the run, and after the runs that follow.
-/
namespace EcaEngines.Runs
open Imperative Recording Effects Operations Conditions Trees Simulation Regions DirectFinal Loops
open Original (Throwable Vars)

variable {u v w : World} {x y l r : ℕ} {letter : String} {phase : Phase}

/-- What the construction of the engine leaves. -/
def start : World := (exec construct blank).2

/-- The inputs are the only objects in `taintSet`. -/
theorem start_taintSet :
    start.taintSet = some {.made 0, .made 1, .made 2, .made 3, .made 4} := by
  decide +kernel

theorem start_fields (f : Field) : ∃ n < 15, start.fields f = .made n := by
  cases f with
  | a422009172 => exact ⟨6, by decide, rfl⟩
  | cf => exact ⟨8, by decide, rfl⟩
  | a2108127495 => exact ⟨10, by decide, rfl⟩
  | a1522448132 => exact ⟨12, by decide, rfl⟩
  | a1745113960 => exact ⟨14, by decide, rfl⟩

theorem start_bounded : Bounded start := by
  intro n hn
  have hmem : Ref.made n ∈ ({.made 0, .made 1, .made 2, .made 3, .made 4} : Finset Ref) := by
    rw [World.tainted, start_taintSet, decide_eq_true_eq] at hn
    exact hn
  simp only [Finset.mem_insert, Finset.mem_singleton, Ref.made.injEq] at hmem
  have hnext : start.next = 15 := rfl
  omega

theorem start_sets (y : ℕ) : start.sets y = .new := rfl

theorem start_closed : (tree start).Closed (existing start) := by
  constructor <;> intro s y z hc <;> rw [tree_new (start_sets y) s] at hc <;> cases hc

theorem start_branches (y : ℕ) : ∀ k ∈ members start y, k < start.made.length := by
  intro k hk
  rw [members, start_sets] at hk
  exact absurd hk List.not_mem_nil

theorem start_sound : Sound start where
  valid := ⟨start_fields, by rw [start_taintSet]; rfl, start_bounded⟩
  closed := start_closed
  branches := start_branches

theorem processed_within (hw : Sound u) (hx : x < u.nextSet)
    (h : Processed phase letter x l r u v w) : Within x u w := by
  have hl := h.tested.left
  have hlr := h.tested.order
  refine (tested_within hw hx h.tested).trans h.called.toWithin ?_
  cases phase with
  | training => exact .inr (by change u.nextSet ≤ r; omega)
  | measured => exact .inl rfl

/-- What one input does to the state without records. -/
def processed (s : Nested.State) (letter : String) : Nested.State :=
  (exec (Nested.calculateOutput letter) (compared s)).2

theorem processed_erase (h : Processed phase letter x l r u v w) :
    erase w = processed (erase u) letter := by
  obtain ⟨res, hres⟩ := h.call
  rw [h.state] at hres
  rw [processed, hres]

/-- What every input keeps is kept by the loop. -/
theorem process_all {J : World → Prop} {vals : List String} {inputs : List Ref}
    (hstep : ∀ letter l r u v w, Sound u → x < u.nextSet → J u →
      Processed phase letter x l r u v w → J w)
    (hw : Sound w) (hx : x < w.nextSet) (hJ : J w)
    (hin : List.Forall₂ (fun val r => Input val (.ref r) w) vals inputs) :
    ∃ v, exec (inputs.forM fun input => process phase (some x) (.ref input)) w = (.ok (), v) ∧
      Within x w v ∧ J v ∧ erase v = vals.foldl processed (erase w) := by
  induction inputs generalizing vals w with
  | nil =>
    obtain rfl := List.forall₂_nil_right_iff.mp hin
    exact ⟨w, rfl, .refl hw x, hJ, rfl⟩
  | cons input inputs ih =>
    obtain ⟨letter, vals, h, hrest, rfl⟩ := List.forall₂_cons_right_iff.mp hin
    obtain ⟨l, r, v, u, hu, hp⟩ := process_processed phase hw hx h
    have hwithin := processed_within hw hx hp
    have hrest' := hrest.imp fun _ _ hr => hr.mono hwithin.objects
    obtain ⟨v', hv', hwithin', hJ', he⟩ :=
      ih hwithin.sound (hx.trans_le hwithin.nextSet) (hstep letter l r w v u hw hx hJ hp) hrest'
    refine ⟨v', (exec_bind_ok hu).trans hv', hwithin.trans hwithin' (.inl rfl), hJ', ?_⟩
    rw [he, processed_erase hp, List.foldl_cons]

/-- Between two worlds of `main`: records stay, and so do lost branches. -/
structure Later (u v : World) : Prop where
  sound : Sound v
  nextSet : u.nextSet ≤ v.nextSet
  made : u.made <+: v.made
  moments : u.moments <+: v.moments
  lost : ∀ s b, Lost s b u → Lost s b v

theorem Later.refl (hw : Sound w) : Later w w :=
  ⟨hw, le_refl _, List.prefix_refl _, List.prefix_refl _, fun _ _ => id⟩

theorem Later.trans (h : Later u v) (k : Later v w) : Later u w where
  sound := k.sound
  nextSet := h.nextSet.trans k.nextSet
  made := h.made.trans k.made
  moments := h.moments.trans k.moments
  lost s b hb := k.lost s b (h.lost s b hb)

theorem later_of_within (h : Within x u v) : Later u v where
  sound := h.sound
  nextSet := h.nextSet
  made := h.objects.made
  moments := h.moments
  lost _ _ hb := hb.within h

/-- What the first input leaves that is processed after a reset. -/
structure Marked (x : ℕ) (u v : World) : Prop where
  lost : ∃ m ∈ entries u v, m.set ≠ x ∧ Lost m.set m.branch v
  fails : ⟨some (.bool false), some .and, some (.bool 1), some (.bool 2), none⟩ ∈ recorded u v
  holds : ⟨some (.bool true), some .and, some (.bool 1), some (.bool 2), none⟩ ∈ recorded u v

/-- The marks are there over any longer stretch. -/
theorem Marked.later {u' v' : World} (h : Later u' u) (hm : Marked x u v) (huv : Later u v)
    (k : Later v v') : Marked x u' v' where
  lost := by
    obtain ⟨m, hmem, hset, hlost⟩ := hm.lost
    refine ⟨m, ?_, hset, k.lost _ _ hlost⟩
    rw [entries_append h.moments (huv.moments.trans k.moments),
      entries_append huv.moments k.moments]
    exact List.mem_append_right _ (List.mem_append_left _ hmem)
  fails := recorded_mono h.made k.made hm.fails
  holds := recorded_mono h.made k.made hm.holds

theorem processed_marked (hw : Sound u) (hx : x < u.nextSet) (hm : inMiddle u.view = true)
    (h : Processed phase letter x l r u v w) : Marked x u w := by
  have hwithin := tested_within hw hx h.tested
  have hview : v.view = u.view := congrArg Nested.State.toVars h.state
  obtain ⟨m, hmem, hset, hlost⟩ := h.called.loses (hview ▸ hm)
  have hnext := hwithin.nextSet
  refine ⟨⟨m, ?_, by omega, hlost⟩, ?_, ?_⟩
  · rw [entries_append hwithin.moments h.called.moments]
    exact List.mem_append_right _ hmem
  · exact recorded_mono (List.prefix_refl _) h.called.objects.made h.made
  · exact recorded_mono hwithin.objects.made (List.prefix_refl _) (h.called.made (hview ▸ hm))

/-- The loop of a run after a reset. -/
theorem process_runs (phase : Phase) {vals : List String} {inputs : List Ref} (hw : Sound w)
    (hx : x < w.nextSet) (hm : inMiddle w.view = true)
    (hin : List.Forall₂ (fun val r => Input val (.ref r) w) vals inputs) :
    ∃ v, exec (inputs.forM fun input => process phase (some x) (.ref input)) w = (.ok (), v) ∧
      Within x w v ∧ (vals ≠ [] → Marked x w v) ∧ erase v = vals.foldl processed (erase w) := by
  cases hin with
  | nil => exact ⟨w, rfl, .refl hw x, fun h => absurd rfl h, rfl⟩
  | @cons letter input vals inputs h hrest =>
    obtain ⟨l, r, v, u, hu, hp⟩ := process_processed phase hw hx h
    have hwithin := processed_within hw hx hp
    have hnone : ∀ letter l r u v w, Sound u → x < u.nextSet → True →
        Processed phase letter x l r u v w → True := fun _ _ _ _ _ _ _ _ _ _ => trivial
    obtain ⟨v', hv', hwithin', -, he⟩ := process_all hnone hwithin.sound
      (hx.trans_le hwithin.nextSet) trivial (hrest.imp fun _ _ hr => hr.mono hwithin.objects)
    refine ⟨v', (exec_bind_ok hu).trans hv', hwithin.trans hwithin' (.inl rfl), fun _ => ?_, ?_⟩
    · exact (processed_marked hw hx hm hp).later (.refl hw) (later_of_within hwithin)
        (later_of_within hwithin')
    · rw [he, processed_erase hp, List.foldl_cons]

theorem prepared_rest (w : World) : prepared w = { w with
    taintSet := (prepared w).taintSet
    trainingTaints := (prepared w).trainingTaints
    var := (prepared w).var } := by
  unfold prepared
  split_ifs <;> rfl

theorem prepared_bounded (h : Bounded w) : Bounded (prepared w) := by
  unfold prepared
  split_ifs
  · exact h
  · intro n hn
    simp [World.tainted] at hn
  · exact h

/-- A reset takes neither branches nor sets away. -/
theorem restarted_later (hw : Sound w) {t s : Option (Finset Ref)} {b : Bool}
    (hb : Bounded { w with taintSet := t, trainingTaints := s, var := b }) :
    Later w (restarted { w with taintSet := t, trainingTaints := s, var := b }) where
  sound := restarted_sound hb hw.closed hw.branches
  nextSet := le_refl _
  made := List.prefix_refl _
  moments := List.prefix_refl _
  lost _ _ h := ⟨h.set, h.branch, h.unlinked, h.only⟩

theorem trainingReset_later (hw : Sound w) : Later w (restarted (prepared w)) := by
  have hb := prepared_bounded hw.valid.members
  rw [prepared_rest] at hb ⊢
  exact restarted_later hw hb

theorem reset_later (hw : Sound w) :
    Later w (restarted { w with taintSet := some ∅, var := true }) := by
  have hb : Bounded { w with
      taintSet := some ∅, trainingTaints := w.trainingTaints, var := true } := by
    intro n hn
    simp [World.tainted] at hn
  exact restarted_later hw hb

theorem inMiddle_start : inMiddle Vars.start = true := by decide

/-- A stretch of `main` in which inputs were processed if and only if `busy` holds. -/
structure Ran (busy : Prop) (x : ℕ) (u v : World) : Prop where
  sound : Sound u
  later : Later u v
  marked : busy → Marked x u v
  made : ¬ busy → v.made = u.made
  moments : ¬ busy → v.moments = u.moments

theorem Ran.seq {b c : Prop} (h : Ran b x u v) (k : Ran c x v w) : Ran (b ∨ c) x u w where
  sound := h.sound
  later := h.later.trans k.later
  marked hbc := by
    rcases hbc with hb | hc
    · exact (h.marked hb).later (.refl h.sound) h.later k.later
    · exact (k.marked hc).later h.later k.later (.refl k.later.sound)
  made hn := (k.made fun hc => hn (.inr hc)).trans (h.made fun hb => hn (.inl hb))
  moments hn := (k.moments fun hc => hn (.inr hc)).trans (h.moments fun hb => hn (.inl hb))

theorem trainingRun_runs (hw : Sound w) (hx : x < w.nextSet) (vals : List String) :
    ∃ v, exec (trainingRun (some x) vals) w = (.ok (), v) ∧ Ran (vals ≠ []) x w v ∧
      erase v = vals.foldl processed (erase (restarted (prepared w))) ∧
      v.var = (prepared w).var ∧ (Untainted (restarted (prepared w)) → Untainted v) := by
  have hreset := trainingReset_later hw
  obtain ⟨inputs, u, hu, hfuzz, he, hin⟩ := fuzz_inputs hreset.sound x vals
  have hview : u.view = Vars.start := (congrArg Nested.State.toVars he).trans (restarted_view _)
  have hx' : x < u.nextSet := (hx.trans_le hreset.nextSet).trans_le hfuzz.nextSet
  obtain ⟨v, hv, hwithin, hmarked, he'⟩ :=
    process_runs .training hfuzz.sound hx' (hview ▸ inMiddle_start) hin
  have hrun : exec (trainingRun (some x) vals) w = (.ok (), v) := by
    unfold trainingRun
    rw [exec_bind_ok (exec_trainingReset w), exec_bind_ok hu, hv]
  refine ⟨v, hrun, ?_, by rw [he', he], hwithin.objects.var.trans hfuzz.objects.var,
    fun h => hwithin.untainted (hfuzz.untainted h)⟩
  have hlater := hreset.trans (later_of_within hfuzz)
  refine ⟨hw, hlater.trans (later_of_within hwithin), fun hne => ?_, fun hnil => ?_, fun hnil => ?_⟩
  · exact (hmarked hne).later hlater (later_of_within hwithin) (.refl hwithin.sound)
  all_goals
    obtain rfl : vals = [] := not_not.mp hnil
    have hnone : exec (trainingRun (some x) []) w = (.ok (), restarted (prepared w)) :=
      exec_bind_ok (exec_trainingReset w)
    obtain rfl : v = restarted (prepared w) := congrArg Prod.snd (hrun.symm.trans hnone)
    rw [prepared_rest]
    rfl

theorem training_runs (hw : Sound w) (hx : x < w.nextSet) (runs : List (List String)) :
    ∃ v, exec (runs.forM (trainingRun (some x))) w = (.ok (), v) ∧
      Ran (∃ vals ∈ runs, vals ≠ []) x w v := by
  induction runs generalizing w with
  | nil =>
    exact ⟨w, rfl, hw, .refl hw, fun h => absurd h (by simp), fun _ => rfl, fun _ => rfl⟩
  | cons vals runs ih =>
    obtain ⟨v, hv, hran, -, -⟩ := trainingRun_runs hw hx vals
    obtain ⟨u, hu, hran'⟩ := ih hran.later.sound (hx.trans_le hran.later.nextSet)
    refine ⟨u, (exec_bind_ok hv).trans hu, ?_⟩
    simp only [List.mem_cons, exists_eq_or_imp]
    exact hran.seq hran'

/-- The set of the phase is new, and so are its children. -/
theorem branched_later (hw : Sound w) (h : Loops.Branched x l r w v) : Later w v :=
  later_of_within (h.within hw x)

theorem training_ran (hw : Sound w) (runs : List (List String)) :
    ∃ x v, exec (training runs) w = (.ok (some x), v) ∧ w.nextSet ≤ x ∧ x < v.nextSet ∧
      Ran (∃ vals ∈ runs, vals ≠ []) x w v := by
  obtain ⟨x, l, r, u, hu, hb⟩ := newBranches_branched w
  have hlater := branched_later hw hb
  have hxl := hb.left
  have hlr := hb.order
  have hr := hb.right
  obtain ⟨v, hv, hran⟩ := training_runs hlater.sound (by omega : x < u.nextSet) runs
  have hnone : Ran False x w u := by
    refine ⟨hw, hlater, False.elim, fun _ => ?_, fun _ => ?_⟩ <;> rw [hb.rest]
  refine ⟨x, v, ?_, hb.new, ?_, ?_⟩
  · unfold training
    rw [exec_bind_ok hu, exec_bind_ok hv, exec_pure]
  · have hnext := hran.later.nextSet
    omega
  · exact (false_or _ ▸ hnone.seq hran :)

/-- What the display needs: no branch of `x` or of its children has a null member. -/
structure Displayed (x : ℕ) (w : World) : Prop where
  self : Plain w x
  child : ∀ s y, (tree w).child s x = some y → Plain w y
  branches : (w.sets x).branches.isSome

theorem processed_displayed (hw : Sound u) (hx : x < u.nextSet) (hd : Displayed x u)
    (h : Processed .measured letter x l r u v w) : Displayed x w where
  self := h.called.plain (h.tested.plain hd.self)
  child := h.called.plainChild
  branches := (processed_within hw hx h).instantiated x hx hd.branches

theorem branched_displayed (h : Loops.Branched x l r u v) : Displayed x v where
  self := h.plain.1
  child := h.plain.2
  branches := by rw [h.self]; rfl

theorem measured_ran (hw : Sound w) (vals : List String) :
    ∃ x v, exec (measured vals) w = (.ok (some x), v) ∧ x < v.nextSet ∧
      Ran (vals ≠ []) x w v ∧ Displayed x v := by
  have hreset := reset_later hw
  obtain ⟨inputs, u, hu, hfuzz, he, hin⟩ := fuzz_inputs hreset.sound 0 vals
  obtain ⟨x, l, r, u', hu', hb⟩ := newBranches_branched u
  have hwithin := hb.within hfuzz.sound 0
  have hview : u'.view = Vars.start :=
    (congrArg Nested.State.toVars (hb.erase.trans he)).trans (restarted_view _)
  have hxl := hb.left
  have hlr := hb.order
  have hr := hb.right
  have hx : x < u'.nextSet := by omega
  have hin' := hin.imp fun _ _ hr => hr.mono hwithin.objects
  obtain ⟨v, hv, hloop, hmarked, -⟩ :=
    process_runs .measured hwithin.sound hx (hview ▸ inMiddle_start) hin'
  obtain ⟨v', hv', -, hd, -⟩ := process_all (x := x) (J := Displayed x)
    (fun letter l r u v w hw hx hd h => processed_displayed hw hx hd h) hwithin.sound hx
    (branched_displayed hb) hin'
  obtain rfl : v = v' := congrArg Prod.snd (hv.symm.trans hv')
  have hrun : exec (measured vals) w = (.ok (some x), v) := by
    unfold measured
    rw [exec_bind_ok (exec_reset w), exec_bind_ok hu, exec_bind_ok hu', exec_bind_ok hv, exec_pure]
  have hlater := (hreset.trans (later_of_within hfuzz)).trans (later_of_within hwithin)
  refine ⟨x, v, hrun, hx.trans_le hloop.nextSet, ⟨hw, hlater.trans (later_of_within hloop),
    fun hne => (hmarked hne).later hlater (later_of_within hloop) (.refl hloop.sound),
    fun hnil => ?_, fun hnil => ?_⟩, hd⟩
  all_goals
    obtain rfl : vals = [] := not_not.mp hnil
    obtain rfl := List.forall₂_nil_left_iff.mp hin
    obtain rfl : u' = v := congrArg Prod.snd hv
    obtain rfl : _ = u := congrArg Prod.snd hu
    rw [hb.rest]
    rfl

end EcaEngines.Runs
