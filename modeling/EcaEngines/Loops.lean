import EcaEngines.Regions

/-!
# The loops of `main`

What one input does in a loop of `main`, and what the resets and the fuzzer leave.
The comparisons before the call record into the set of the phase, and their
conjunction never holds.
-/
namespace EcaEngines.Loops
open Imperative Recording Effects Operations Conditions Trees Simulation Regions DirectFinal
open BranchSet (getLeftSet getRightSet)
open Original (Throwable Vars noTransition)

variable {u v w : World} {x y l r : ℕ} {letter : String} {input : Arg}

/-- What the comparisons do to the registers. -/
def compared (s : Nested.State) : Nested.State :=
  let s := s.flow 6 (s.tainted 1 || s.tainted 2)
  let s := s.flow 7 (s.tainted 3 || s.tainted 4)
  let s := s.flow 8 (s.tainted 6 || s.tainted 7)
  (s.flow 9 (s.tainted 8 || s.tainted 5)).decided false

theorem equals_word (hw : Valid w) (hin : Input letter input w) (x a : ℕ) (word : String) :
    ∃ v, exec (I.myEqualsString (.bool a) input word (some x)) w = (.ok (), v) ∧
      Decided x a (letter == word) false w v ∧ Valid v ∧ Input letter input v ∧
      erase v = erase w := by
  obtain ⟨v, hv, hd⟩ := myEqualsString_decided (x := x) (a := a) hin.owned word
  rw [hin.val] at hd
  exact ⟨v, hv, hd, hd.quiet.valid hw, hin.mono hd.quiet.notes.objects, erase_compared hw hd⟩

/-- The five comparisons. The letter cannot equal both of the first two words. -/
theorem words_compared (hw : Valid w) (hin : Input letter input w) (x : ℕ) :
    ∃ v, (∀ p : Prog Bool, exec (do
        I.myEqualsString (.bool 1) input "ai1_ce1" (some x)
        I.myEqualsString (.bool 2) input "usr4_ai1_VoidReply" (some x)
        I.myEqualsString (.bool 3) input "usr4_ni1_ne1" (some x)
        I.myEqualsString (.bool 4) input "ai1_ce2" (some x)
        I.myEqualsString (.bool 5) input "usr2_ai1_VoidReply" (some x)
        p) w = exec p v) ∧
      Quiet x w v ∧ (∀ n, v.tainted (.var n) = w.tainted (.var n)) ∧ erase v = erase w ∧
      ((v.boolean (.bool 1)).val && (v.boolean (.bool 2)).val) = false := by
  obtain ⟨w₁, h₁, d₁, hw₁, hin₁, he₁⟩ := equals_word hw hin x 1 "ai1_ce1"
  obtain ⟨w₂, h₂, d₂, hw₂, hin₂, he₂⟩ := equals_word hw₁ hin₁ x 2 "usr4_ai1_VoidReply"
  obtain ⟨w₃, h₃, d₃, hw₃, hin₃, he₃⟩ := equals_word hw₂ hin₂ x 3 "usr4_ni1_ne1"
  obtain ⟨w₄, h₄, d₄, hw₄, hin₄, he₄⟩ := equals_word hw₃ hin₃ x 4 "ai1_ce2"
  obtain ⟨w₅, h₅, d₅, -, -, he₅⟩ := equals_word hw₄ hin₄ x 5 "usr2_ai1_VoidReply"
  have hval₁ : (w₅.boolean (.bool 1)).val = (letter == "ai1_ce1") := by
    rw [← d₁.val, ← d₂.bools 1 (by decide), ← d₃.bools 1 (by decide), ← d₄.bools 1 (by decide),
      ← d₅.bools 1 (by decide)]
    rfl
  have hval₂ : (w₅.boolean (.bool 2)).val = (letter == "usr4_ai1_VoidReply") := by
    rw [← d₂.val, ← d₃.bools 2 (by decide), ← d₄.bools 2 (by decide), ← d₅.bools 2 (by decide)]
    rfl
  refine ⟨w₅, fun p => ?_, ?_, fun n => ?_, ?_, ?_⟩
  · rw [exec_bind_ok h₁, exec_bind_ok h₂, exec_bind_ok h₃, exec_bind_ok h₄, exec_bind_ok h₅]
  · exact (((d₁.quiet.trans d₂.quiet).trans d₃.quiet).trans d₄.quiet).trans d₅.quiet
  · rw [d₅.taintedVar, d₄.taintedVar, d₃.taintedVar, d₂.taintedVar, d₁.taintedVar]
  · rw [he₅, he₄, he₃, he₂, he₁]
  · rw [hval₁, hval₂, Bool.and_eq_false_iff, beq_eq_false_iff_ne, beq_eq_false_iff_ne]
    by_cases h : letter = "ai1_ce1"
    · exact .inr (by rw [h]; decide)
    · exact .inl h

/-- The four conjunctions, the first of which does not hold, so neither does the last. -/
theorem words_conjoined (hw : Valid w) (x : ℕ)
    (hfalse : ((w.boolean (.bool 1)).val && (w.boolean (.bool 2)).val) = false) :
    ∃ v, (∀ p : Prog Bool, exec (do
        I.myAnd (.bool 6) (.bool 1) (.bool 2) (some x)
        I.myAnd (.bool 7) (.bool 3) (.bool 4) (some x)
        I.myAnd (.bool 8) (.bool 6) (.bool 7) (some x)
        I.myAnd (.bool 9) (.bool 8) (.bool 5) (some x)
        p) w = exec p v) ∧
      Quiet x w v ∧ (∀ n, v.tainted (.var n) = w.tainted (.var n)) ∧
      (erase v).decided false = compared (erase w) ∧ (v.boolean (.bool 9)).val = false ∧
      ⟨some (.bool false), some .and, some (.bool 1), some (.bool 2), none⟩ ∈ recorded w v := by
  obtain ⟨w₆, h₆, d₆, hr⟩ := myAnd_decided (x := x) hw 6 (.bool 1) (.bool 2)
  have hw₆ := d₆.quiet.valid hw
  obtain ⟨w₇, h₇, d₇, -⟩ := myAnd_decided (x := x) hw₆ 7 (.bool 3) (.bool 4)
  have hw₇ := d₇.quiet.valid hw₆
  obtain ⟨w₈, h₈, d₈, -⟩ := myAnd_decided (x := x) hw₇ 8 (.bool 6) (.bool 7)
  have hw₈ := d₈.quiet.valid hw₇
  obtain ⟨w₉, h₉, d₉, -⟩ := myAnd_decided (x := x) hw₈ 9 (.bool 8) (.bool 5)
  have hval₆ : (w₇.boolean (.bool 6)).val = false := by
    rw [← hfalse, ← d₆.val, ← d₇.bools 6 (by decide)]
    rfl
  have hval₈ : (w₈.boolean (.bool 8)).val = false := by
    have h := d₈.val
    rwa [hval₆, Bool.false_and] at h
  have hval₉ : (w₉.boolean (.bool 9)).val = false := by
    have h := d₉.val
    rwa [hval₈, Bool.false_and] at h
  refine ⟨w₉, fun p => ?_, ?_, fun n => ?_, ?_, hval₉, ?_⟩
  · rw [exec_bind_ok h₆, exec_bind_ok h₇, exec_bind_ok h₈, exec_bind_ok h₉]
  · exact ((d₆.quiet.trans d₇.quiet).trans d₈.quiet).trans d₉.quiet
  · rw [d₉.taintedVar, d₈.taintedVar, d₇.taintedVar, d₆.taintedVar]
  · have e₆ : erase w₆ = (erase w).flow 6 ((erase w).tainted 1 || (erase w).tainted 2) :=
      erase_decided hw d₆
    have e₇ : erase w₇ = (erase w₆).flow 7 ((erase w₆).tainted 3 || (erase w₆).tainted 4) :=
      erase_decided hw₆ d₇
    have e₈ : erase w₈ = (erase w₇).flow 8 ((erase w₇).tainted 6 || (erase w₇).tainted 7) :=
      erase_decided hw₇ d₈
    have e₉ : erase w₉ = (erase w₈).flow 9 ((erase w₈).tainted 8 || (erase w₈).tainted 5) :=
      erase_decided hw₈ d₉
    rw [e₉, e₈, e₇, e₆]
    rfl
  · have hmade := hr.made
    rw [hfalse] at hmade
    have hlater := (d₇.quiet.notes.objects.trans d₈.quiet.notes.objects).trans
      d₉.quiet.notes.objects
    exact recorded_mono (List.prefix_refl _) hlater.made hmade

theorem compareAll_tests (hw : Sound w) (hx : x < w.nextSet) (hin : Input letter input w) :
    ∃ l r v, exec (compareAll input (some x)) w = (.ok false, v) ∧ Tested x false l r w v ∧
      erase v = compared (erase w) ∧
      ⟨some (.bool false), some .and, some (.bool 1), some (.bool 2), none⟩ ∈ recorded w v := by
  obtain ⟨w₅, h₅, q₅, t₅, e₅, hfalse⟩ := words_compared hw.valid hin x
  have hw₅ := q₅.valid hw.valid
  obtain ⟨w₉, h₉, q₉, t₉, e₉, hval, hmade⟩ := words_conjoined hw₅ x hfalse
  have hq := q₅.trans q₉
  have htaint (n : ℕ) : w₉.tainted (.var n) = w.tainted (.var n) := (t₉ n).trans (t₅ n)
  obtain ⟨l, r, v, hv, hs⟩ := myIf_split (hq.notes.nextSet ▸ hx) (.bool 9) input
  rw [hval] at hv hs
  refine ⟨l, r, v, ?_, tested_of_split hw.valid hq htaint hs, ?_, ?_⟩
  · unfold compareAll
    rw [h₅, h₉, hv]
  · rw [erase_split (q₉.valid hw₅) hs, e₉, e₅]
  · have hlater : w₉.made <+: v.made := by rw [hs.made]
    exact recorded_mono q₅.notes.objects.made hlater hmade

theorem exec_catching {p : Prog Unit} {r : Except Throwable Unit} (h : exec p w = (r, v))
    (hr : ∀ e, r = .error e → e = noTransition) : exec (catching p) w = (.ok (), v) := by
  unfold catching
  rw [exec_tryCatch, h]
  cases r with
  | ok _ => rfl
  | error e =>
    obtain rfl := hr e rfl
    rfl

/-- The set that `calculateOutput` gets, given the right child of the one of the phase. -/
def argument (x r : ℕ) : Phase → ℕ
  | .training => r
  | .measured => x

/-- One input was processed: in `v` the comparisons were over, and then the call ended. -/
structure Processed (phase : Phase) (letter : String) (x l r : ℕ) (u v w : World) : Prop where
  tested : Tested x false l r u v
  state : erase v = compared (erase u)
  made : ⟨some (.bool false), some .and, some (.bool 1), some (.bool 2), none⟩ ∈ recorded u v
  call : ∃ res, exec (Nested.calculateOutput letter) (erase v) = (res, erase w)
  called : Called letter (argument x r phase) v w

theorem process_processed (phase : Phase) (hw : Sound w) (hx : x < w.nextSet)
    (hin : Input letter input w) : ∃ l r v u, exec (process phase (some x) input) w = (.ok (), u) ∧
      Processed phase letter x l r w v u := by
  obtain ⟨l, r, v, hv, ht, he, hmade⟩ := compareAll_tests hw hx hin
  have hx' : x < v.nextSet := hx.trans_le (tested_nextSet ht)
  have hset : argument x r phase < v.nextSet := by
    cases phase with
    | training => exact ht.right
    | measured => exact hx'
  obtain ⟨res, u, hu, hq, hcall⟩ := calculateOutput_follows (tested_sound hw hx ht) hset
    (hin.mono ht.objects)
  have hres : ∀ e, res = .error e → e = noTransition := fun e h =>
    Nested.calculateOutput_raises letter (erase v) e (by rw [hq, h])
  have hright : exec (getRightSet (some x)) v = (.ok (some r), v) := ht.rightSet ▸ rfl
  refine ⟨l, r, v, u, ?_, ht, he, hmade, ⟨res, hq⟩, hcall⟩
  unfold process
  rw [exec_bind_ok (exec_ifM_of_false hv), exec_bind_ok hright]
  cases phase <;> exact exec_catching hu hres

/-- A world after the five fields got new objects. -/
def restarted (w : World) : World :=
  { w with
    ints := Function.update (Function.update (Function.update w.ints (.made w.next)
      ⟨-68, "a422009172"⟩) (.made (w.next + 2)) ⟨-44, "a2108127495"⟩) (.made (w.next + 3))
      ⟨173, "a1522448132"⟩
    bools := Function.update w.bools (.made (w.next + 1)) ⟨true, some "cf"⟩
    strings := Function.update w.strings (.made (w.next + 4)) ⟨"h", 0, ""⟩
    next := w.next + 5
    classes := Function.update (Function.update (Function.update (Function.update
      (Function.update w.classes (.made w.next) (some .myInt))
      (.made (w.next + 1)) (some .myBool)) (.made (w.next + 2)) (some .myInt))
      (.made (w.next + 3)) (some .myInt)) (.made (w.next + 4)) (some .myString)
    taintSet := some (w.taintSet.getD ∅)
    fields := fun
      | .a422009172 => .made w.next
      | .cf => .made (w.next + 1)
      | .a2108127495 => .made (w.next + 2)
      | .a1522448132 => .made (w.next + 3)
      | .a1745113960 => .made (w.next + 4) }

theorem exec_resetFields (w : World) : exec resetFields w = (.ok (), restarted w) := by
  have hfields : (exec resetFields w).2.fields = (restarted w).fields := by
    funext f
    cases f <;> rfl
  have hrest : exec resetFields w = (.ok (), { restarted w with
      fields := (exec resetFields w).2.fields }) := rfl
  rw [hrest, hfields]

theorem restarted_view (w : World) : (restarted w).view = Vars.start := by
  simp [World.view, World.int, World.string, World.eval, restarted, Vars.start]

/-- What is wanted of `taintSet`, which may be null here. -/
def Bounded (w : World) : Prop := ∀ n, w.tainted (.made n) = true → n < w.next

theorem restarted_valid (h : Bounded w) : Valid (restarted w) := by
  refine ⟨fun f => ?_, rfl, fun n hn => ?_⟩
  · cases f
    · exact ⟨_, Nat.lt_add_of_pos_right (by decide), rfl⟩
    · exact ⟨_, Nat.add_lt_add_left (by decide) _, rfl⟩
    · exact ⟨_, Nat.add_lt_add_left (by decide) _, rfl⟩
    · exact ⟨_, Nat.add_lt_add_left (by decide) _, rfl⟩
    · exact ⟨_, Nat.add_lt_add_left (by decide) _, rfl⟩
  · have hlt := h n hn
    exact Nat.lt_add_right 5 hlt

theorem restarted_sound (h : Bounded w) (hc : (tree w).Closed (existing w))
    (hb : ∀ y, ∀ k ∈ members w y, k < w.made.length) : Sound (restarted w) where
  valid := restarted_valid h
  closed := hc
  branches := hb

theorem restarted_tainted (h : Bounded w) (f : Field) :
    (restarted w).tainted ((restarted w).fields f) = false := by
  have hnot (k : ℕ) : w.tainted (.made (w.next + k)) = false := by
    rw [Bool.eq_false_iff]
    intro ht
    have hlt := h _ ht
    omega
  cases f
  · exact hnot 0
  · exact hnot 2
  · exact hnot 3
  · exact hnot 4
  · exact hnot 1

theorem exec_reset (w : World) :
    exec reset w = (.ok (), restarted { w with taintSet := some ∅, var := true }) :=
  (exec_bind_ok (exec_modify _ w)).trans (exec_resetFields _)

/-- What `trainingReset` does before the fields. -/
def prepared (w : World) : World :=
  if w.trainingTaints.isNone then
    if w.var then { w with trainingTaints := some ∅ }
    else { w with trainingTaints := some ∅, taintSet := some ∅, var := true }
  else w

theorem exec_trainingReset (w : World) :
    exec trainingReset w = (.ok (), restarted (prepared w)) := by
  have hif : exec (ifM (test fun w => w.trainingTaints.isNone) do
      modify fun w => { w with trainingTaints := some ∅ }
      ifM (test fun w => !w.var) do
        modify fun w => { w with taintSet := some ∅, var := true } : Prog Unit) w =
        (.ok (), prepared w) := by
    unfold prepared
    rw [exec_ifM_test]
    split_ifs with h hv
    · rw [exec_bind_ok (exec_modify _ w), exec_ifM_test]
      simp only [hv, Bool.not_true, Bool.false_eq_true, if_false]
    · rw [exec_bind_ok (exec_modify _ w), exec_ifM_test]
      simp only [hv, Bool.not_false, if_true]
      rfl
    · rfl
  exact (exec_bind_ok hif).trans (exec_resetFields _)

theorem within_of_made {t : Bool} {r : Ref} (hu : Sound u) (h : Bodies.Made x r t u v) :
    Within x u v := by
  have hold (f : Field) (hf : u.tainted (u.fields f) = false) : v.tainted (v.fields f) = false := by
    rw [h.fields]
    exact (h.notes.objects.tainted _ (hu.valid.fields f)).trans hf
  exact within_of_notes hu h.notes h.valid fun ht =>
    ⟨fun n => (h.taintedVar n).trans (ht.var n), hold _ ht.a422009172, hold _ ht.a2108127495,
      hold _ ht.a1522448132⟩

theorem newString4_made (hw : Valid w) (x : ℕ) (val name : String) (t : Bool) :
    ∃ v, exec (MyString.new4 val name t) w = (.ok (.made w.next), v) ∧
      Bodies.Made x (.made w.next) t w v ∧ (v.strings (.made w.next)).val = val := by
  have hm := Bodies.made_of_quiet (x := x) hw (quiet_newString ⟨val, 0, name⟩) rfl rfl
    (fun _ => rfl) t
  refine ⟨_, ?_, hm, ?_⟩
  · cases t <;> rfl
  · cases t <;> simp [World.setString, World.taint]

theorem fuzz_inputs (hw : Sound w) (x : ℕ) (vals : List String) :
    ∃ rs v, exec (fuzz vals) w = (.ok rs, v) ∧ Within x w v ∧ erase v = erase w ∧
      List.Forall₂ (fun val r => Input val (.ref r) v) vals rs := by
  unfold fuzz
  generalize 0 = k
  induction vals generalizing w k with
  | nil => exact ⟨[], w, rfl, .refl hw x, rfl, .nil⟩
  | cons val vals ih =>
    obtain ⟨v, hv, hm, hval⟩ := newString4_made hw.valid x val ("input number: " ++ toString k) true
    have hwithin := within_of_made hw hm
    obtain ⟨rs, u, hu, hwithin', he, hrs⟩ := ih hwithin.sound (k + 1)
    have hin : Input val (.ref (.made w.next)) v := ⟨_, rfl, hm.owned, hval⟩
    refine ⟨.made w.next :: rs, u, ?_, hwithin.trans hwithin' (.inl rfl), ?_,
      .cons (hin.mono hwithin'.objects) hrs⟩
    · rw [List.zipIdx_cons, List.mapM_cons, exec_bind_ok hv, exec_bind_ok hu, exec_pure]
    · rw [he, hm.erase hw.valid]

/-- The set of a phase is new, has no branches and two children without members. -/
structure Branched (x l r : ℕ) (u v : World) : Prop where
  rest : v = { u with sets := v.sets, nextSet := v.nextSet }
  self : v.sets x = ⟨some [], some l, some r⟩
  new : u.nextSet ≤ x
  left : x < l
  order : l < r
  right : r < v.nextSet
  old : ∀ y < u.nextSet, v.sets y = u.sets y
  fresh : ∀ y, u.nextSet ≤ y → y < v.nextSet → y ≠ x → v.sets y = .new
  beyond : ∀ y, v.nextSet ≤ y → v.sets y = u.sets y

theorem newBranches_branched (w : World) :
    ∃ x l r v, exec newBranches w = (.ok (some x), v) ∧ Branched x l r w v := by
  let w₀ : World := { w.setSet w.nextSet .new with nextSet := w.nextSet + 1 }
  have h₀ : exec BranchSet.make w = (.ok w.nextSet, w₀) := rfl
  have hold (y : ℕ) (hy : y ≠ w.nextSet) : w₀.sets y = w.sets y := Function.update_of_ne hy _ _
  have hn₀ : w₀.nextSet = w.nextSet + 1 := rfl
  have hx : w.nextSet < w₀.nextSet := Nat.lt_succ_self _
  obtain ⟨w₁, h₁, hn₁, hr₁⟩ := make_regrown hx
  have hx₁ := hx.trans_le hr₁.nextSet
  let w₂ := w₁.setSet w.nextSet { w₁.sets w.nextSet with leftSet := some w₀.nextSet }
  have hr₂ : Regrown w.nextSet _ w₀ w₂ := hr₁.trans hx (setSet_regrown hx₁ _)
  obtain ⟨w₃, h₃, hn₃, hr₃⟩ := make_regrown (w := w₂) hx₁
  have hx₃ := hx₁.trans_le hr₃.nextSet
  let w₄ := w₃.setSet w.nextSet { w₃.sets w.nextSet with rightSet := some w₁.nextSet }
  let w₅ := w₄.setSet w.nextSet { w₄.sets w.nextSet with branches := some [] }
  have hr₄ : Regrown w.nextSet _ w₀ w₄ := (hr₂.trans hx hr₃).trans hx (setSet_regrown hx₃ _)
  have hr₅ : Regrown w.nextSet _ w₀ w₅ := hr₄.trans hx (setSet_regrown (w := w₄) hx₃ _)
  have hinst : exec (BranchSet.instantiateMembers (some w.nextSet)) w₀ = (.ok (), w₅) := by
    unfold BranchSet.instantiateMembers
    refine (exec_bind_ok (exec_pure w.nextSet w₀)).trans ?_
    rw [exec_bind_ok h₁, exec_bind_ok (exec_modify _ w₁)]
    refine (exec_bind_ok h₃).trans ?_
    rw [exec_bind_ok (exec_modify _ w₃), exec_modify]
    rfl
  have hn₂ : w₂.nextSet = w₁.nextSet := rfl
  have hn₅ : w₅.nextSet = w₃.nextSet := rfl
  have hself : w₅.sets w.nextSet = ⟨some [], some w₀.nextSet, some w₁.nextSet⟩ := by
    have h₄ : w₄.sets w.nextSet = { w₃.sets w.nextSet with rightSet := some w₁.nextSet } :=
      Function.update_self _ _ _
    have h₂ : w₂.sets w.nextSet = { w₁.sets w.nextSet with leftSet := some w₀.nextSet } :=
      Function.update_self _ _ _
    rw [show w₅.sets w.nextSet = { w₄.sets w.nextSet with branches := some [] } from
      Function.update_self _ _ _, h₄, hr₃.self, h₂]
  refine ⟨w.nextSet, w₀.nextSet, w₁.nextSet, w₅, ?_, ⟨?_, hself, le_refl _, hx, ?_, ?_,
    fun y hy => ?_, fun y hy hlt hne => hr₅.fresh y (by omega) hlt, fun y hy => ?_⟩⟩
  · unfold newBranches
    rw [exec_bind_ok h₀, exec_bind_ok hinst, exec_pure]
  · exact hr₅.rest
  · omega
  · omega
  · have hne : y ≠ w.nextSet := Nat.ne_of_lt hy
    rw [hr₅.others y (by omega) hne, hold y hne]
  · have hle := hr₅.nextSet
    rw [hr₅.beyond y hy, hold y (by omega)]

theorem Branched.within (hu : Sound u) (h : Branched x l r u v) (y : ℕ) : Within y u v := by
  have hx := h.new
  have hl := h.left
  have hlr := h.order
  have hr := h.right
  refine within_of_new hu ?_ ?_ (by omega) (fun y hy => ⟨h.old y hy, ?_⟩)
    (fun y hy => ⟨fun k hk => ?_, fun s z hc => ?_⟩) ?_ (fun ht => ?_) y
  · rw [h.rest]
    exact ⟨hu.valid.fields, hu.valid.taintSet, hu.valid.members⟩
  · rw [h.rest]
    exact ⟨le_refl _, fun _ _ => rfl, fun _ _ => rfl, fun _ _ => rfl, fun _ _ => rfl,
      List.prefix_refl _, rfl⟩
  · rw [h.rest]
  · by_cases hyx : y = x
    · rw [members, hyx, h.self] at hk
      exact absurd hk List.not_mem_nil
    · by_cases hlt : y < v.nextSet
      · rw [members, h.fresh y hy hlt hyx] at hk
        exact absurd hk List.not_mem_nil
      · rwa [members, h.beyond y (by omega)] at hk
  · by_cases hyx : y = x
    · subst hyx
      cases s with
      | true =>
        rw [tree_left (congrArg BranchSet.leftSet h.self), Option.some.injEq] at hc
        omega
      | false =>
        rw [tree_right (congrArg BranchSet.rightSet h.self), Option.some.injEq] at hc
        omega
    · by_cases hlt : y < v.nextSet
      · rw [tree_new (h.fresh y hy hlt hyx) s] at hc
        cases hc
      · rw [tree_congr (h.beyond y (by omega)), hu.none hy s] at hc
        cases hc
  · rw [h.rest]
  · rw [h.rest]
    exact ⟨ht.var, ht.a422009172, ht.a2108127495, ht.a1522448132⟩

theorem Branched.erase (h : Branched x l r u v) : erase v = erase u := by
  rw [h.rest]
  rfl

/-- Nothing in the set of a phase or below can fail to be shown. -/
theorem Branched.plain (h : Branched x l r u v) :
    Plain v x ∧ ∀ s y, (tree v).child s x = some y → Plain v y := by
  have hx := h.new
  have hl := h.left
  have hlr := h.order
  have hr := h.right
  refine ⟨fun k hk => ?_, fun s y hc => ?_⟩
  · rw [members, h.self] at hk
    exact absurd hk List.not_mem_nil
  · cases s with
    | true =>
      rw [tree_left (congrArg BranchSet.leftSet h.self), Option.some.injEq] at hc
      exact plain_of_new (h.fresh y (by omega) (by omega) (by omega))
    | false =>
      rw [tree_right (congrArg BranchSet.rightSet h.self), Option.some.injEq] at hc
      exact plain_of_new (h.fresh y (by omega) (by omega) (by omega))

end EcaEngines.Loops
