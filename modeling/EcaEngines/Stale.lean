import EcaEngines.Lookups
import EcaEngines.Runs

/-!
# Taint that outlives a training run

`trainingReset` leaves `taintSet` as it is. The registers of the engine become tainted
with the first input that is accepted, those of `main` with the input after it, and
from then on both stay so.
-/
namespace EcaEngines.Stale
open Imperative FirstMatch Dispatch Transitions Recording Effects Operations Conditions Trees
open DirectFinal Nested Lookups Loops Runs
open Original (Throwable Vars noTransition)

/-- The inputs with a transition at the start. -/
def Accepted (letter : String) : Prop :=
  letter = "ai1_ce1" ∨ letter = "ai1_ce2" ∨ letter = "usr4_ni1_ne1"

instance (letter : String) : Decidable (Accepted letter) := inferInstanceAs (Decidable (_ ∨ _ ∨ _))

/-- How far taint has spread over the boolean registers. -/
inductive Level where
  | clean | engine | all
deriving DecidableEq, Repr

/-- Those of the engine's conditions are 2 to 4, those of `main` are 6 to 9. -/
def Level.registers : Level → ℕ → Bool
  | .clean, _ => false
  | .engine, n => decide (2 ≤ n) && decide (n ≤ 4)
  | .all, n => decide (2 ≤ n) && decide (n ≤ 9) && decide (n ≠ 5)

theorem flow_false (a : ℕ) (s : State) : (s.flow a false).tainted = s.tainted := by
  funext n
  simp [State.flow]

/-- A register that is tainted already stays so, whatever flows there. -/
theorem flow_of_tainted {a : ℕ} {s : State} (h : s.tainted a = true) (t : Bool) :
    (s.flow a t).tainted = s.tainted := by
  funext n
  change (s.tainted n || (t && decide (n = a))) = s.tainted n
  by_cases hn : n = a
  · rw [hn, h, Bool.true_or]
  · rw [decide_eq_false hn, Bool.and_false, Bool.or_false]

/-- The level after the comparisons. -/
def Level.compared : Level → Level
  | .clean => .clean
  | .engine | .all => .all

theorem compared_registers {k : Level} {s : State} (h : s.tainted = k.registers) :
    (Loops.compared s).tainted = k.compared.registers := by
  funext n
  simp only [Loops.compared, State.decided, State.flow, h]
  cases k with
  | clean => simp [Level.registers, Level.compared]
  | engine =>
    simp [Level.registers, Level.compared]
    grind
  | all =>
    simp [Level.registers, Level.compared]
    grind

/-- The same variables and taint. -/
structure Alike (registers : Prop) (s t : State) : Prop where
  vars : s.toVars = t.toVars
  cf : s.cf = t.cf
  cfTainted : s.cfTainted = t.cfTainted
  stringTainted : s.stringTainted = t.stringTainted
  tainted : registers → s.tainted = t.tainted

variable {P : Prop}

theorem Alike.flow {s t : State} {f g : Bool} (h : Alike P s t) (a : ℕ) (hf : P → f = g) :
    Alike P (s.flow a f) (t.flow a g) where
  vars := h.vars
  cf := h.cf
  cfTainted := h.cfTainted
  stringTainted := h.stringTainted
  tainted hp := by simp only [State.flow, h.tainted hp, hf hp]

theorem Alike.andCf {s t : State} (h : Alike P s t) (a b : ℕ) :
    Alike P (s.andCf a b) (t.andCf a b) :=
  h.flow a fun hp => by rw [h.tainted hp, h.cfTainted]

theorem alike_decision (f : Vars → Bool → Bool) : Agrees (Alike P) (decision f) :=
  (agrees_modify fun _ _ h => ⟨h.vars, h.cf, h.cfTainted, h.stringTainted, h.tainted⟩).bind
    fun _ => agrees_test fun _ _ h => by rw [h.vars, h.cf]

theorem alike_of_composed {p : Nested.Prog Unit} (h : Composed p) : Agrees (Alike P) p := by
  refine h.agrees (fun p hp => ?_) fun c hc => ?_
  · cases hp with
    | block t =>
      refine agrees_modify fun s s' h => ⟨?_, rfl, rfl, ?_, h.tainted⟩
      · change t.fire s.toVars = t.fire s'.toVars
        rw [h.vars]
      · change (taintsString t).getD s.stringTainted = (taintsString t).getD s'.stringTainted
        rw [h.stringTainted]
    | throw => exact fun s t h => ⟨rfl, h⟩
  · cases hc with
    | cf f => exact alike_decision f
    | andCf f => exact (agrees_modify fun s t h => h.andCf 2 1).bind fun _ => alike_decision f
    | andAndCf f =>
      refine (agrees_modify fun s t h => ?_).bind fun _ => alike_decision f
      exact (h.flow 3 fun hp => by rw [h.tainted hp]).andCf 4 3

theorem alike_calculateOutput (letter : String) {s t : State} (hv : s.toVars = t.toVars)
    (hs : s.stringTainted = t.stringTainted) (ht : P → s.tainted = t.tainted) :
    Alike P (exec (calculateOutput letter) s).2 (exec (calculateOutput letter) t).2 := by
  have hbody := (alike_of_composed (P := P) (low_composed letter)).bind fun _ =>
    (alike_of_composed (middle_composed letter)).bind fun _ =>
    alike_of_composed (upper_composed letter)
  rw [calculateOutput_start, calculateOutput_start]
  have h : Alike P { s with cf := true, cfTainted := false }
      { t with cf := true, cfTainted := false } := ⟨hv, rfl, rfl, hs, ht⟩
  exact (hbody _ _ h).2

/-- Whatever holds of all states with the registers of a level that is not clean. -/
theorem keeps_registers {k : Level} (hk : k ≠ .clean) {p : Nested.Prog Unit} (h : Composed p) :
    Keeps (fun s => s.tainted = k.registers) p := by
  have hflow {s : State} (hs : s.tainted = k.registers) {a : ℕ} (t : Bool)
      (ha : 2 ≤ a ∧ a ≤ 4) : (s.flow a t).tainted = k.registers := by
    rw [flow_of_tainted, hs]
    rw [hs]
    cases k with
    | clean => exact absurd rfl hk
    | engine => simp [Level.registers, ha]
    | all =>
      simp only [Level.registers, Bool.and_eq_true, decide_eq_true_eq]
      omega
  refine h.keeps (fun p hp => ?_) fun c hc => ?_
  · cases hp with
    | block t => exact fun s hs => hs
    | throw => exact keeps_throw _ _
  · cases hc with
    | cf f => exact fun s hs => hs
    | andCf f => exact fun s hs => hflow hs _ (by decide)
    | andAndCf f => exact fun s hs => hflow (hflow hs _ (by decide)) _ (by decide)

theorem calculateOutput_registers {k : Level} (hk : k ≠ .clean) (letter : String) {s : State}
    (h : s.tainted = k.registers) :
    (exec (calculateOutput letter) s).2.tainted = k.registers := by
  have hkeeps := (keeps_registers hk (low_composed letter)).bind fun _ =>
    (keeps_registers hk (middle_composed letter)).bind fun _ =>
    keeps_registers hk (upper_composed letter)
  rw [calculateOutput_start]
  exact hkeeps { s with cf := true, cfTainted := false } h

/-- As long as no transition is taken, nothing becomes tainted. -/
def Unspread (s : State) : Prop :=
  s.cf = true → s.cfTainted = false ∧ s.tainted = Level.clean.registers

theorem keeps_unspread {p : Nested.Prog Unit} (h : Composed p) : Keeps Unspread p := by
  have hflow {s : State} (hs : s.tainted = Level.clean.registers) (a b c : ℕ) :
      (s.flow a (s.tainted b || s.tainted c)).tainted = Level.clean.registers := by
    have hfalse : (s.tainted b || s.tainted c) = false := by
      rw [hs]
      rfl
    rw [hfalse, flow_false, hs]
  have handCf {s : State} (hs : s.cfTainted = false ∧ s.tainted = Level.clean.registers) (a b : ℕ) :
      (s.andCf a b).tainted = Level.clean.registers := by
    have hfalse : (s.tainted b || s.cfTainted) = false := by
      rw [hs.1, hs.2]
      rfl
    rw [State.andCf, hfalse, flow_false, hs.2]
  refine h.keeps (fun p hp => ?_) fun c hc => ?_
  · cases hp with
    | block t =>
      refine keeps_modify fun s _ hcf => ?_
      cases hcf
    | throw => exact keeps_throw _ _
  · cases hc with
    | cf f => exact fun s hs => hs
    | andCf f => exact fun s hs hcf => ⟨(hs hcf).1, handCf (hs hcf) 2 1⟩
    | andAndCf f =>
      intro s hs hcf
      obtain ⟨hcfTainted, htainted⟩ := hs hcf
      exact ⟨hcfTainted, handCf (s := s.flow 3 (s.tainted 1 || s.tainted 2))
        ⟨hcfTainted, hflow htainted 3 1 2⟩ 4 3⟩

theorem taken_start {letter : String} (hn : ¬ Accepted letter) :
    taken Vars.start letter = none := by
  have hguard : Guard .m4 Vars.start := by decide
  have hhigh : ¬ Region.high.Holds cuts Vars.start.a2108127495 := by decide
  rw [taken, if_neg hhigh, fired_of_guard hguard]
  simp only [Accepted, not_or] at hn
  obtain ⟨h₁, h₂, h₃⟩ := hn
  simp [find, Transition.on, Transition.letter, h₁, h₂, h₃]

/-- An input that is not accepted at the start changes neither the variables nor taint. -/
theorem calculateOutput_unaccepted {letter : String} (hn : ¬ Accepted letter) {s : State}
    (hv : s.toVars = Vars.start) (h : s.tainted = Level.clean.registers) :
    (exec (calculateOutput letter) s).2.toVars = Vars.start ∧
      (exec (calculateOutput letter) s).2.tainted = Level.clean.registers := by
  have hkeeps := (keeps_unspread (low_composed letter)).bind fun _ =>
    (keeps_unspread (middle_composed letter)).bind fun _ => keeps_unspread (upper_composed letter)
  have hunspread : Unspread (exec (calculateOutput letter) s).2 := by
    rw [calculateOutput_start]
    exact hkeeps { s with cf := true, cfTainted := false } fun _ => ⟨rfl, h⟩
  obtain ⟨hvars, hcf⟩ := calculateOutput_idle (s := s) (hv ▸ taken_start hn)
  exact ⟨hvars.trans hv, (hunspread hcf).2⟩

/-- Conditions only write the registers from 2 to 4. -/
theorem keeps_others (τ : ℕ → Bool) {p : Nested.Prog Unit} (h : Composed p) :
    Keeps (fun s => ∀ n, ¬ (2 ≤ n ∧ n ≤ 4) → s.tainted n = τ n) p := by
  have hflow {s : State} (hs : ∀ n, ¬ (2 ≤ n ∧ n ≤ 4) → s.tainted n = τ n) (a : ℕ) (t : Bool)
      (ha : 2 ≤ a ∧ a ≤ 4) (n : ℕ) (hn : ¬ (2 ≤ n ∧ n ≤ 4)) : (s.flow a t).tainted n = τ n := by
    have hne : n ≠ a := by
      rintro rfl
      exact hn ha
    change (s.tainted n || (t && decide (n = a))) = τ n
    rw [hs n hn, decide_eq_false hne, Bool.and_false, Bool.or_false]
  refine h.keeps (fun p hp => ?_) fun c hc => ?_
  · cases hp with
    | block t => exact fun s hs => hs
    | throw => exact keeps_throw _ _
  · cases hc with
    | cf f => exact fun s hs => hs
    | andCf f => exact fun s hs => hflow hs _ _ (by decide)
    | andAndCf f => exact fun s hs => hflow (hflow hs _ _ (by decide)) _ _ (by decide)

/-- The accepted inputs from a clean start. -/
theorem accepted_taints : ∀ letter ∈ ["ai1_ce1", "ai1_ce2", "usr4_ni1_ne1"], ∀ n ∈ [2, 3, 4],
    ∀ t : Bool, (exec (calculateOutput letter)
      ⟨Vars.start, true, false, t, Level.clean.registers, [], []⟩).2.tainted n = true := by
  decide +kernel

/-- An accepted input taints the registers of the conditions after it. -/
theorem calculateOutput_accepted {letter : String} (ha : Accepted letter) {s : State}
    (hv : s.toVars = Vars.start) (h : s.tainted = Level.clean.registers) :
    (exec (calculateOutput letter) s).2.tainted = Level.engine.registers := by
  have hkeeps := (keeps_others Level.clean.registers (low_composed letter)).bind fun _ =>
    (keeps_others _ (middle_composed letter)).bind fun _ => keeps_others _ (upper_composed letter)
  have hothers : ∀ n, ¬ (2 ≤ n ∧ n ≤ 4) →
      (exec (calculateOutput letter) s).2.tainted n = Level.clean.registers n := by
    rw [calculateOutput_start]
    exact hkeeps { s with cf := true, cfTainted := false } fun n _ => congrFun h n
  funext n
  by_cases hn : 2 ≤ n ∧ n ≤ 4
  · have halike := alike_calculateOutput (P := True) letter (s := s)
      (t := ⟨Vars.start, true, false, s.stringTainted, Level.clean.registers, [], []⟩) hv rfl
      fun _ => h
    have hletter : letter ∈ ["ai1_ce1", "ai1_ce2", "usr4_ni1_ne1"] := by
      simpa [Accepted] using ha
    have hmem : n ∈ [2, 3, 4] := by
      simp only [List.mem_cons, List.not_mem_nil, or_false]
      omega
    rw [halike.tainted trivial, accepted_taints letter hletter n hmem]
    simp [Level.registers, hn]
  · rw [hothers n hn]
    simp only [Level.registers]
    grind

/-- The level after one more input of a run, if the level before is not clean. -/
theorem processed_registers {k : Level} (hk : k ≠ .clean) (letter : String) {s : State}
    (h : s.tainted = k.registers) : (processed s letter).tainted = Level.all.registers := by
  have hall : k.compared = .all := by
    cases k with
    | clean => exact absurd rfl hk
    | engine | all => rfl
  have hcompared := compared_registers h
  rw [hall] at hcompared
  exact calculateOutput_registers (by decide) letter hcompared

theorem run_all (word : List String) {s : State} (h : s.tainted = Level.all.registers) :
    (word.foldl processed s).tainted = Level.all.registers := by
  induction word generalizing s with
  | nil => exact h
  | cons letter word ih => exact ih (processed_registers (by decide) letter h)

/-- The level after a run from a clean start. -/
def Level.after (word : List String) : Level :=
  if ∃ letter ∈ word.dropLast, Accepted letter then .all
  else if ∃ letter ∈ word, Accepted letter then .engine
  else .clean

/-- The level after a run from any other level. -/
def Level.onward (k : Level) (word : List String) : Level := if word = [] then k else .all

theorem run_onward {k : Level} (hk : k ≠ .clean) (word : List String) {s : State}
    (h : s.tainted = k.registers) :
    (word.foldl processed s).tainted = (k.onward word).registers := by
  cases word with
  | nil => exact h
  | cons letter word => exact run_all word (processed_registers hk letter h)

theorem run_after (word : List String) {s : State} (hv : s.toVars = Vars.start)
    (h : s.tainted = Level.clean.registers) :
    (word.foldl processed s).tainted = (Level.after word).registers := by
  induction word generalizing s with
  | nil => rw [List.foldl_nil, h]; rfl
  | cons letter word ih =>
    have hcompared : (compared s).tainted = Level.clean.registers := compared_registers h
    by_cases ha : Accepted letter
    · have hengine : (processed s letter).tainted = Level.engine.registers :=
        calculateOutput_accepted ha hv hcompared
      rw [List.foldl_cons, run_onward (by decide) word hengine]
      cases word with
      | nil => simp [Level.onward, Level.after, ha]
      | cons letter' word => simp [Level.onward, Level.after, ha]
    · obtain ⟨hv', h'⟩ := calculateOutput_unaccepted ha (s := compared s) hv hcompared
      refine (ih (s := processed s letter) hv' h').trans ?_
      cases word with
      | nil => simp [Level.after, ha]
      | cons letter' word => simp [Level.after, ha]

variable {u v w : World} {x : ℕ}

theorem restarted_erase (h : Bounded w) : erase (restarted w) =
    { toVars := Vars.start
      cf := true
      cfTainted := false
      stringTainted := false
      tainted := fun n => w.tainted (.bool n)
      out := w.out
      decisions := w.decisions } := by
  have hcf : (restarted w).tainted ((restarted w).fields .cf) = false := restarted_tainted h .cf
  have hstring := restarted_tainted h .a1745113960
  have hval : ((restarted w).boolean (.field .cf)).val = true := by
    simp [World.boolean, World.eval, restarted]
  simp only [erase, restarted_view, hcf, hstring, hval]
  rfl

/-- A world between training runs, with the level of its taint. -/
structure Tracked (x : ℕ) (k : Level) (w : World) : Prop where
  sound : Sound w
  exists_set : x < w.nextSet
  var : w.var = true
  untainted : Untainted w
  registers : (erase w).tainted = k.registers

/-- The level after one more run. -/
def Level.next (k : Level) (word : List String) : Level :=
  if k = .clean then Level.after word else k.onward word

theorem prepared_taintSet (h : w.var = true) : (prepared w).taintSet = w.taintSet := by
  unfold prepared
  split_ifs <;> rfl

theorem prepared_var (h : w.var = true) : (prepared w).var = true := by
  unfold prepared
  split_ifs <;> exact h

/-- The variables and the taint of the fields do not depend on the registers. -/
theorem alike_run (word : List String) {s t : State} (h : Alike False s t) :
    Alike False (word.foldl processed s) (word.foldl processed t) := by
  induction word generalizing s t with
  | nil => exact h
  | cons letter word ih =>
    exact ih (alike_calculateOutput letter (s := compared s) (t := compared t) h.vars
      h.stringTainted False.elim)

/-- The state without records at the start of a run with nothing tainted. -/
def fresh : State := ⟨Vars.start, true, false, false, Level.clean.registers, [], []⟩

theorem tracked_run {k : Level} (h : Tracked x k w) (word : List String) :
    ∃ v, exec (trainingRun (some x) word) w = (.ok (), v) ∧ Tracked x (k.next word) v ∧
      Alike False (erase v) (word.foldl processed fresh) := by
  obtain ⟨v, hv, hran, he, hvar, huntainted⟩ := trainingRun_runs h.sound h.exists_set word
  have hbounded := prepared_bounded h.sound.valid.members
  have htaint (r : Ref) : (prepared w).tainted r = w.tainted r := by
    rw [World.tainted, World.tainted, prepared_taintSet h.var]
  have hstart := restarted_erase hbounded
  have hregisters : (erase (restarted (prepared w))).tainted = k.registers := by
    rw [hstart]
    funext n
    exact (htaint (.bool n)).trans (congrFun h.registers n)
  have hvars : (erase (restarted (prepared w))).toVars = Vars.start := by rw [hstart]
  refine ⟨v, hv, ⟨hran.later.sound, h.exists_set.trans_le hran.later.nextSet, ?_, ?_, ?_⟩, ?_⟩
  · rw [hvar, prepared_var h.var]
  · refine huntainted ⟨fun n => ?_, restarted_tainted hbounded _, restarted_tainted hbounded _,
      restarted_tainted hbounded _⟩
    exact (htaint (.var n)).trans (h.untainted.var n)
  · rw [he]
    unfold Level.next
    split_ifs with hk
    · subst hk
      exact run_after word hvars hregisters
    · exact run_onward hk word hregisters
  · rw [he]
    refine alike_run word ?_
    rw [hstart]
    exact ⟨rfl, rfl, rfl, rfl, False.elim⟩

theorem tracked_runs (runs : List (List String)) {k : Level} (h : Tracked x k w) :
    ∃ v, exec (runs.forM (trainingRun (some x))) w = (.ok (), v) ∧
      Tracked x (runs.foldl Level.next k) v := by
  induction runs generalizing w k with
  | nil => exact ⟨w, rfl, h⟩
  | cons word runs ih =>
    obtain ⟨v, hv, htracked, -⟩ := tracked_run h word
    obtain ⟨u, hu, htracked'⟩ := ih htracked
    exact ⟨u, (exec_bind_ok hv).trans hu, htracked'⟩

theorem start_untainted : Untainted start := by
  have hnot (r : Ref) (hr : r ∉ ({.made 0, .made 1, .made 2, .made 3, .made 4} : Finset Ref)) :
      start.tainted r = false := by
    rw [World.tainted, start_taintSet]
    exact decide_eq_false hr
  exact ⟨fun n => hnot _ (by simp), hnot (.made 6) (by decide), hnot (.made 10) (by decide),
    hnot (.made 12) (by decide)⟩

theorem start_registers : (erase start).tainted = Level.clean.registers := by
  funext n
  change start.tainted (.bool n) = false
  rw [World.tainted, start_taintSet]
  exact decide_eq_false (by simp)

/-- The phase up to the last run. -/
theorem training_tracked (runs : List (List String)) (word : List String) :
    ∃ s v, exec (training (runs ++ [word])) start = (.ok s, v) ∧ Untainted v ∧
      (erase v).tainted = ((runs.foldl Level.next .clean).next word).registers ∧
      Alike False (erase v) (word.foldl processed fresh) := by
  obtain ⟨x, l, r, u, hu, hb⟩ := newBranches_branched start
  have hlater := branched_later start_sound hb
  have hxl := hb.left
  have hlr := hb.order
  have hr := hb.right
  have htracked : Tracked x .clean u := by
    have hwithin := hb.within start_sound x
    refine ⟨hlater.sound, by omega, hwithin.objects.var, hwithin.untainted start_untainted, ?_⟩
    rw [hb.erase]
    exact start_registers
  obtain ⟨v, hv, htracked'⟩ := tracked_runs runs htracked
  obtain ⟨v', hv', hlast, halike⟩ := tracked_run htracked' word
  refine ⟨some x, v', ?_, hlast.untainted, hlast.registers, halike⟩
  unfold training
  have hlast' : exec ([word].forM (trainingRun (some x))) v = (.ok (), v') :=
    (exec_bind_ok hv').trans (exec_pure _ _)
  have happend : (runs ++ [word]).forM (trainingRun (some x)) = (do
      runs.forM (trainingRun (some x))
      [word].forM (trainingRun (some x))) := List.forM_append
  rw [exec_bind_ok hu, happend, exec_bind_ok ((exec_bind_ok hv).trans hlast'), exec_pure]

/-- The same fields and registers are tainted. -/
structure SameTaint (u v : World) : Prop where
  field : ∀ f, u.tainted (u.fields f) = v.tainted (v.fields f)
  var : ∀ n, u.tainted (.var n) = v.tainted (.var n)
  bool : ∀ n, u.tainted (.bool n) = v.tainted (.bool n)

theorem sameTaint_iff {k k' : Level} (hu : Untainted u) (hv : Untainted v)
    (hk : (erase u).tainted = k.registers) (hk' : (erase v).tainted = k'.registers)
    (h : Alike False (erase u) (erase v)) : SameTaint u v ↔ k = k' := by
  constructor
  · intro hsame
    have hregisters (n : ℕ) : k.registers n = k'.registers n := by
      rw [← hk, ← hk']
      exact hsame.bool n
    have h₂ := hregisters 2
    have h₆ := hregisters 6
    cases k <;> cases k' <;> first
      | rfl
      | exact absurd h₂ (by decide)
      | exact absurd h₆ (by decide)
  · rintro rfl
    refine ⟨fun f => ?_, fun n => (hu.var n).trans (hv.var n).symm, fun n => ?_⟩
    · cases f with
      | a422009172 => exact hu.a422009172.trans hv.a422009172.symm
      | a2108127495 => exact hu.a2108127495.trans hv.a2108127495.symm
      | a1522448132 => exact hu.a1522448132.trans hv.a1522448132.symm
      | a1745113960 => exact h.stringTainted
      | cf => exact h.cfTainted
    · exact (congrFun hk n).trans (congrFun hk' n).symm

theorem after_eq_clean_iff (word : List String) :
    Level.after word = .clean ↔ ∀ letter ∈ word, ¬ Accepted letter := by
  unfold Level.after
  split_ifs with hdrop hany
  · obtain ⟨letter, hmem, ha⟩ := hdrop
    exact iff_of_false nofun fun h => h letter (List.dropLast_subset _ hmem) ha
  · obtain ⟨letter, hmem, ha⟩ := hany
    exact iff_of_false nofun fun h => h letter hmem ha
  · exact iff_of_true rfl fun letter hmem ha => hany ⟨letter, hmem, ha⟩

theorem onward_ne_clean {k : Level} (hk : k ≠ .clean) (word : List String) :
    k.onward word ≠ .clean := by
  unfold Level.onward
  split_ifs
  · exact hk
  · exact nofun

theorem next_eq_clean_iff (k : Level) (word : List String) :
    k.next word = .clean ↔ k = .clean ∧ ∀ letter ∈ word, ¬ Accepted letter := by
  unfold Level.next
  split_ifs with hk
  · rw [after_eq_clean_iff, and_iff_right hk]
  · exact iff_of_false (onward_ne_clean hk word) fun h => hk h.1

/-- The history is clean exactly if no input of it was accepted. -/
theorem history_eq_clean_iff (runs : List (List String)) (k : Level) :
    runs.foldl Level.next k = .clean ↔
      k = .clean ∧ ∀ word ∈ runs, ∀ letter ∈ word, ¬ Accepted letter := by
  induction runs generalizing k with
  | nil => simp
  | cons word runs ih =>
    rw [List.foldl_cons, ih, next_eq_clean_iff, List.forall_mem_cons, and_assoc]

theorem next_eq_iff (k : Level) (word : List String) : k.next word = Level.clean.next word ↔
    k = .clean ∨ ∃ letter ∈ word.dropLast, Accepted letter := by
  by_cases hk : k = .clean
  · exact iff_of_true (by rw [hk]) (.inl hk)
  · rw [or_iff_right hk, Level.next, if_neg hk, Level.next, if_pos rfl, Level.onward, Level.after]
    cases word with
    | nil => simpa using hk
    | cons letter word =>
      rw [if_neg (List.cons_ne_nil _ _)]
      split_ifs with hdrop hany
      · exact iff_of_true rfl hdrop
      · exact iff_of_false nofun hdrop
      · exact iff_of_false nofun hdrop

/-- After earlier training runs, a run leaves the taint that it leaves alone exactly if
none of their inputs was accepted, or one of its own is before its last. -/
theorem training_sameTaint_iff (runs : List (List String)) (word : List String) :
    ∃ s v t u, exec (training (runs ++ [word])) start = (.ok s, v) ∧
      exec (training [word]) start = (.ok t, u) ∧
      (SameTaint v u ↔ (∀ earlier ∈ runs, ∀ letter ∈ earlier, ¬ Accepted letter) ∨
        ∃ letter ∈ word.dropLast, Accepted letter) := by
  obtain ⟨s, v, hv, huntainted, hregisters, halike⟩ := training_tracked runs word
  obtain ⟨t, u, hu, huntainted', hregisters', halike'⟩ := training_tracked [] word
  have h : Alike False (erase v) (erase u) :=
    ⟨halike.vars.trans halike'.vars.symm, halike.cf.trans halike'.cf.symm,
      halike.cfTainted.trans halike'.cfTainted.symm,
      halike.stringTainted.trans halike'.stringTainted.symm, False.elim⟩
  refine ⟨s, v, t, u, hv, hu, ?_⟩
  rw [sameTaint_iff huntainted huntainted' hregisters hregisters' h, List.foldl_nil, next_eq_iff,
    history_eq_clean_iff, and_iff_right rfl]

/-- One accepted input, and then a run with one that is not. -/
theorem training_not_sameTaint :
    ∃ s v t u, exec (training [["ai1_ce1"], ["usr2_ai1_VoidReply"]]) start = (.ok s, v) ∧
      exec (training [["usr2_ai1_VoidReply"]]) start = (.ok t, u) ∧ ¬ SameTaint v u := by
  obtain ⟨s, v, hv, -, hregisters, -⟩ := training_tracked [["ai1_ce1"]] ["usr2_ai1_VoidReply"]
  obtain ⟨t, u, hu, -, hregisters', -⟩ := training_tracked [] ["usr2_ai1_VoidReply"]
  refine ⟨s, v, t, u, hv, hu, fun h => ?_⟩
  have hv₂ : v.tainted (.bool 2) = true := (congrFun hregisters 2).trans (by decide)
  have hu₂ : u.tainted (.bool 2) = false := (congrFun hregisters' 2).trans (by decide)
  rw [h.bool 2, hu₂] at hv₂
  cases hv₂

end EcaEngines.Stale
