import EcaEngines.Simulation

/-!
# One call of the recording engine

The regions of `calculateOutput` one after the other. The cursor is on a placed set
until an `if` is taken whose right child is asked next. The set that was asked
first in the middle region loses its left child when the string is asked for `g`.
-/
namespace EcaEngines.Regions
open Imperative Recording Effects Operations Conditions Trees Simulation Transitions
open BranchSet (getLeftSet getRightSet)
open Original (Throwable Vars)

variable {u v w : World} {x y z l r : ℕ} {d : Bool} {letter : String} {input : Arg}

def inMiddle (v : Vars) : Bool := -164 < v.a2108127495 && -19 ≥ v.a2108127495

/-- The middle region takes an `if` and goes on with the right child. -/
def Strays (letter : String) (v : Vars) : Prop :=
  v.a1745113960 = "g" ∨ v.a1745113960 = "h" ∨ (v.a1745113960 = "e" ∧ letter = "usr4_ni1_ne1")

/-- The cursor goes on from `x` to its right child. Branches were added to placed sets
only, unless `S` holds. -/
structure Crossed (S : Prop) (x r : ℕ) (u v : World) : Prop extends Within x u v where
  right : (v.sets x).rightSet = some r
  newRight : u.nextSet ≤ r
  existing : r < v.nextSet
  plain : Plain u x → Plain v x
  clean : Clean u v ↔ (tree u).Placed x ∧ ¬ S
  placed : Clean u v → (tree v).Placed r

/-- A branch added in between is in a set that nothing leads to. -/
def Loses (u v : World) : Prop :=
  ∃ m ∈ entries u v, u.nextSet ≤ m.set ∧ Lost m.set m.branch v

/-- The four questions for the string in the middle region, with the decisions on them. -/
structure Chain (letter : String) (x l r₁ r₂ : ℕ) (u w v₁ v₂ v₃ v : World) : Prop where
  e : ∃ l' r', Guarded l (w.view.a1745113960 == "e" && (erase w).cf)
    (¬ Overrun letter [(.m2Ne1, false), (.m2Ce2, false)]) l' r' w v₁
  g : ∃ l', Guarded x (v₁.view.a1745113960 == "g" && (erase v₁).cf)
    (¬ Overrun letter [(.m3VoidReply, true)]) l' r₁ v₁ v₂
  h : ∃ l', Guarded r₁ (v₂.view.a1745113960 == "h" && (erase v₂).cf)
    (¬ Overrun letter [(.m4Ce2, true), (.m4Ce1, true), (.m4Ne1, false)]) l' r₂ v₂ v₃
  i : ∃ l' r', Guarded r₂ (v₃.view.a1745113960 == "i" && (erase v₃).cf)
    (¬ Overrun letter [(.m5VoidReply, false)]) l' r' v₃ v
  start : w.view = u.view ∧ (erase w).cf = true
  idle₁ : Nested.Idle u.view (erase v₁)
  idle₂ : Nested.Idle u.view (erase v₂)

section
variable {r₁ r₂ : ℕ} {v₁ v₂ v₃ : World}

theorem Chain.asked_e (c : Chain letter x l r₁ r₂ u w v₁ v₂ v₃ v) :
    (w.view.a1745113960 == "e" && (erase w).cf) = true ↔ u.view.a1745113960 = "e" := by
  rw [c.start.1, c.start.2, Bool.and_true, beq_iff_eq]

/-- If the string is not `e`, nothing has happened before it is compared with `g`. -/
theorem Chain.unchanged (c : Chain letter x l r₁ r₂ u w v₁ v₂ v₃ v)
    (he : u.view.a1745113960 ≠ "e") : v₁.view = u.view ∧ (erase v₁).cf = true := by
  obtain ⟨l', r', h⟩ := c.e
  obtain ⟨hview, hcf⟩ := h.idle (Bool.eq_false_iff.mpr fun hd => he (c.asked_e.mp hd))
  exact ⟨hview.trans c.start.1, hcf.trans c.start.2⟩

theorem Chain.asked_g (c : Chain letter x l r₁ r₂ u w v₁ v₂ v₃ v) :
    (v₁.view.a1745113960 == "g" && (erase v₁).cf) = true ↔ u.view.a1745113960 = "g" := by
  constructor
  · intro h
    obtain ⟨ha, hcf⟩ := Bool.and_eq_true_iff.mp h
    have hview : v₁.view = u.view := c.idle₁ hcf
    rw [← hview]
    exact beq_iff_eq.mp ha
  · intro h
    obtain ⟨hview, hcf⟩ := c.unchanged (by rw [h]; decide)
    rw [hview, hcf, h]
    rfl

theorem Chain.asked_h (c : Chain letter x l r₁ r₂ u w v₁ v₂ v₃ v) :
    (v₂.view.a1745113960 == "h" && (erase v₂).cf) = true ↔ u.view.a1745113960 = "h" := by
  constructor
  · intro h
    obtain ⟨ha, hcf⟩ := Bool.and_eq_true_iff.mp h
    have hview : v₂.view = u.view := c.idle₂ hcf
    rw [← hview]
    exact beq_iff_eq.mp ha
  · intro h
    obtain ⟨hview, hcf⟩ := c.unchanged (by rw [h]; decide)
    have hg : ¬ u.view.a1745113960 = "g" := by
      rw [h]
      decide
    obtain ⟨l', h₂⟩ := c.g
    obtain ⟨hview₂, hcf₂⟩ := h₂.idle (Bool.eq_false_iff.mpr fun hd => hg (c.asked_g.mp hd))
    rw [hview₂, hcf₂, hview, hcf, h]
    rfl

theorem Chain.clean_iff (c : Chain letter x l r₁ r₂ u w v₁ v₂ v₃ v) (hw : Within x u w)
    (hx : x < u.nextSet) (hl : (tree u).Placed x → (tree w).Placed l) :
    (Clean w v₁ ∧ Clean v₁ v₂ ∧ Clean v₂ v₃ ∧ Clean v₃ v) ∧ (tree u).Placed x ↔
      (tree u).Placed x ∧ ¬ Strays letter u.view := by
  obtain ⟨l₁, s₁, h₁⟩ := c.e
  obtain ⟨l₂, h₂⟩ := c.g
  obtain ⟨l₃, h₃⟩ := c.h
  obtain ⟨l₄, s₄, h₄⟩ := c.i
  have hover : Overrun letter [(.m2Ne1, false), (.m2Ce2, false)] ↔ letter = "usr4_ni1_ne1" := by
    simp [Overrun, Transition.letter]
  rw [h₁.clean, h₂.clean, h₃.clean, h₄.clean, hover]
  constructor
  · intro h
    obtain ⟨⟨⟨-, hne⟩, -, ⟨hr₁, -⟩, hr₂, -⟩, hp⟩ := h
    have hg := hr₁.side (tree_right h₂.right) h₂.latest
    have hh := hr₂.side (tree_right h₃.right) h₃.latest
    refine ⟨hp, fun hs => ?_⟩
    rcases hs with ha | ha | ⟨ha, hletter⟩
    · rw [c.asked_g.mpr ha] at hg
      cases hg
    · rw [c.asked_h.mpr ha] at hh
      cases hh
    · exact hne (c.asked_e.mpr ha) hletter
  · intro h
    obtain ⟨hp, hs⟩ := h
    have hg := Bool.eq_false_iff.mpr fun hd => hs (.inl (c.asked_g.mp hd))
    have hh := Bool.eq_false_iff.mpr fun hd => hs (.inr (.inl (c.asked_h.mp hd)))
    have hp₁ : (tree v₁).Placed x := hp.kept (hw.kept.trans (existing_mono hw.nextSet) h₁.kept) hx
    have hr₁ := h₂.placed hp₁
    rw [hg, if_neg Bool.false_ne_true] at hr₁
    have hr₂ := h₃.placed hr₁
    rw [hh, if_neg Bool.false_ne_true] at hr₂
    refine ⟨⟨⟨hl hp, fun hd hletter => ?_⟩, ⟨hp₁, fun _ => not_overrun_singleton _⟩,
      ⟨hr₁, fun hd => ?_⟩, hr₂, fun _ => not_overrun_singleton _⟩, hp⟩
    · exact hs (.inr (.inr ⟨c.asked_e.mp hd, hletter⟩))
    · rw [hh] at hd
      cases hd

/-- What the block was handed as `x` keeps its place, and the branches that were added
to its first left child are lost with it. -/
theorem Chain.crossed (c : Chain letter x l r₁ r₂ u w v₁ v₂ v₃ v) (hu : Sound u)
    (hx : x < u.nextSet) (ht : Tested x true l r u w) (ha : Added x u w) :
    Crossed (Strays letter u.view) x r₁ u v ∧ Loses u v ∧ w.made <+: v.made := by
  obtain ⟨l₁, s₁, h₁⟩ := c.e
  obtain ⟨l₂, h₂⟩ := c.g
  obtain ⟨l₃, h₃⟩ := c.h
  obtain ⟨l₄, s₄, h₄⟩ := c.i
  have hl := ht.left
  have hlr := ht.order
  have hr := ht.right
  have hw := tested_within hu hx ht
  have hw₁ := hw.trans h₁.toWithin (.inr hl)
  have hx₁ : x < v₁.nextSet := hx.trans_le hw₁.nextSet
  have hr₁ : v₁.nextSet ≤ r₁ := h₂.newLeft.trans (Nat.le_of_lt h₂.order)
  have hr₂ : v₁.nextSet ≤ r₂ :=
    (h₂.nextSet.trans h₃.newLeft).trans (Nat.le_of_lt h₃.order)
  have hp := (h₂.toPassed.body hx₁ h₃.toWithin hr₁).body hx₁ h₄.toWithin hr₂
  have hwithin := hw₁.trans hp.toWithin (.inl rfl)
  have hmoments := h₁.moments.trans (h₂.moments.trans h₃.moments)
  have hclean : Clean u v ↔ (Clean w v₁ ∧ Clean v₁ v₂ ∧ Clean v₂ v₃ ∧ Clean v₃ v) ∧
      (tree u).Placed x := by
    rw [clean_append hw.moments (hmoments.trans h₄.moments), Trees.clean_iff ht ha,
      clean_append hmoments h₄.moments, clean_append h₁.moments (h₂.moments.trans h₃.moments),
      clean_append h₂.moments h₃.moments]
    tauto
  have hplaced : (tree u).Placed x → (tree w).Placed l := (tested_passed hu hx ht).placed
  refine ⟨⟨hwithin, hp.right, ?_, hp.newRight, fun h => ?_,
    hclean.trans (c.clean_iff hw hx hplaced), fun h => ?_⟩, ?_,
    (h₁.objects.trans hp.objects).made⟩
  · have hnext := hw₁.nextSet
    omega
  · have hx₂ : x < v₂.nextSet := hx₁.trans_le h₂.nextSet
    have hplain := h₂.plain (h₁.toWithin.plain (hx.trans_le hw.nextSet) (by omega) (ht.plain h))
    exact h₄.toWithin.plain (hx₂.trans_le h₃.nextSet) (by omega)
      (h₃.toWithin.plain hx₂ (by omega) hplain)
  · obtain ⟨⟨_, _, h₃', _⟩, _⟩ := hclean.mp h
    exact (((h₃.clean.mp h₃').1.kept h₃.kept h₂.newRight).kept h₄.kept
      (h₂.newRight.trans_le h₃.nextSet))
  · have hlw : l < w.nextSet := by omega
    have honly (s : Bool) (y : ℕ) (hc : (tree v₁).child s y = some l) : y = x := by
      obtain ⟨-, hcw, -⟩ := h₁.kept s y l hlw hc
      exact ((tested_decides hu ht).parent hu.closed (s := true) hcw).1
    have hlt : l < v₁.nextSet := hlw.trans_le h₁.nextSet
    obtain ⟨m, hm, rfl, hmade, hsole⟩ := h₁.sole.within h₁.moments hp.toWithin
    have hv₁ : w.moments <+: v.moments := hmoments.trans h₄.moments
    refine ⟨m, ?_, hl, hlt.trans_le hp.nextSet, hmade, hp.unlinked hlt honly, hsole⟩
    rw [entries_append hw.moments hv₁]
    exact List.mem_append_right _ hm

end

theorem middle_body_follows (hu : Sound u) (hx : x < u.nextSet) (hy : y < u.nextSet)
    (hyx : y ≠ x) (hright : (u.sets y).rightSet = some x) (hin : Input letter input u)
    (ht : Tested x true l r u w) (ha : Added x u w) (hcf : (erase u).cf = true) :
    Follows (do
        let s1 ← getLeftSet (some x)
        ifM (DirectFinal.equal (.field .a1745113960) "e" true input s1) do
          DirectFinal.calculateOutputm2 input (← getLeftSet s1)
        let failSet ← getRightSet (some y)
        ifM (DirectFinal.equal (.field .a1745113960) "g" true input failSet) do
          DirectFinal.calculateOutputm3 input (← getLeftSet failSet)
        let failSet ← getRightSet failSet
        ifM (DirectFinal.equal (.field .a1745113960) "h" true input failSet) do
          DirectFinal.calculateOutputm4 input (← getLeftSet failSet)
        let failSet ← getRightSet failSet
        ifM (DirectFinal.equal (.field .a1745113960) "i" false input failSet) do
          DirectFinal.calculateOutputm5 input (← getLeftSet failSet))
      (do
        ifM (Nested.equal Vars.a1745113960 "e") do
          Nested.calculateOutputm2 letter
        ifM (Nested.equal Vars.a1745113960 "g") do
          Nested.calculateOutputm3 letter
        ifM (Nested.equal Vars.a1745113960 "h") do
          Nested.calculateOutputm4 letter
        ifM (Nested.equal Vars.a1745113960 "i") do
          Nested.calculateOutputm5 letter) w
      (Returns fun v => ∃ r, Crossed (Strays letter u.view) x r u v ∧ Loses u v ∧
        w.made <+: v.made) := by
  have hl := ht.left
  have hlr := ht.order
  have hr := ht.right
  have hwithin := tested_within hu hx ht
  have hpassed := tested_passed hu hx ht
  have hview : w.view = u.view ∧ (erase w).cf = (erase u).cf := by
    have he := ht.erase hu.valid
    exact ⟨congrArg Nested.State.toVars he, by rw [he]⟩
  refine .left ht.leftSet ((mode_follows hwithin.sound (by omega) (hin.mono hwithin.objects)
    "e" true [(.m2Ne1, false), (.m2Ce2, false)] (List.cons_ne_nil _ _)).seq
    fun v₁ ⟨l₁, r₁, h₁⟩ he₁ => ?_)
  have hright₁ : (v₁.sets y).rightSet = some x := by
    rw [(h₁.others y (by omega) (by omega)).1, ht.others y hy hyx, hright]
  have hx₁ : x < v₁.nextSet := by
    have hnext := h₁.nextSet
    omega
  have hin₁ := hin.mono (hwithin.objects.trans h₁.objects)
  refine .right hright₁ ((mode_follows h₁.sound hx₁ hin₁
    "g" true [(.m3VoidReply, true)] (List.cons_ne_nil _ _)).seq fun v₂ ⟨l₂, r₂, h₂⟩ he₂ => ?_)
  refine .right h₂.right ((mode_follows h₂.sound h₂.newRight (hin₁.mono h₂.objects)
    "h" true [(.m4Ce2, true), (.m4Ce1, true), (.m4Ne1, false)] (List.cons_ne_nil _ _)).seq
    fun v₃ ⟨l₃, r₃, h₃⟩ _ => ?_)
  refine .right h₃.right ((mode_follows h₃.sound h₃.newRight
    (hin₁.mono (h₂.objects.trans h₃.objects))
    "i" false [(.m5VoidReply, false)] (List.cons_ne_nil _ _)).mono
    fun res v₄ ⟨hres, l₄, r₄, h₄⟩ => ⟨hres, r₂, ?_⟩)
  have hmode {p : Nested.Prog Unit} {v v' : World} (hp : Nested.Composed p)
      (hv : Nested.Idle u.view (erase v)) (he : exec p (erase v) = (.ok (), erase v')) :
      Nested.Idle u.view (erase v') := by
    have h := hp.keeps_idle u.view (erase v) hv
    rwa [he] at h
  have hidle : Nested.Idle u.view (erase w) := fun _ => hview.1
  have hidle₁ :=
    hmode (Nested.mode_composed (Nested.calculateOutputm2_composed letter) _ _) hidle he₁
  have hidle₂ :=
    hmode (Nested.mode_composed (Nested.word_composed letter .m3VoidReply) _ _) hidle₁ he₂
  exact Chain.crossed ⟨⟨l₁, r₁, h₁⟩, ⟨l₂, h₂⟩, ⟨l₃, h₃⟩, ⟨l₄, r₄, h₄⟩,
    ⟨hview.1, hview.2.trans hcf⟩, hidle₁, hidle₂⟩ hu hx ht ha

theorem middle_follows (hw : Sound w) (hx : x < w.nextSet) (hy : y < w.nextSet) (hyx : y ≠ x)
    (hright : (w.sets y).rightSet = some x) (hin : Input letter input w) :
    Follows (DirectFinal.middle input (some y) (some x)) (Nested.middle letter) w
      (Returns fun v => ∃ r,
        Crossed (inMiddle w.view = true ∧ (erase w).cf = true ∧ Strays letter w.view) x r w v ∧
        (inMiddle w.view = true → (erase w).cf = true → Loses w v) ∧
        (inMiddle w.view = false → v.view = w.view ∧ (erase v).cf = (erase w).cf) ∧
        ⟨some (.bool (inMiddle w.view)), some .and, some (.bool 1), some (.bool 2), none⟩ ∈
          recorded w v) := by
  have hc : Tests (DirectFinal.between (-164) (-19) (.field .a2108127495) true input (some x))
      (Nested.between (-164) (-19) Vars.a2108127495) x (inMiddle w.view && (erase w).cf) w :=
    between_tests hw.valid hx (hw.valid.fields .a2108127495) rfl
  refine Follows.ifM hc (fun hd v l r ht ha he => ?_) fun hd v l r ht ha he => ?_
  all_goals
    have hmade := between_made (c := .field .a2108127495) hw.valid hx (hw.valid.fields _) he
  · obtain ⟨hm, hcf⟩ := Bool.and_eq_true_iff.mp hd
    rw [hd] at ht
    refine (middle_body_follows hw hx hy hyx hright hin ht ha hcf).mono
      fun res v' ⟨hres, r', hcross, hlost, hext⟩ => ?_
    exact ⟨hres, r', { hcross with clean := by simpa [hm, hcf] using hcross.clean },
      fun _ _ => hlost, fun hm' => absurd (hm.symm.trans hm') (by decide),
      recorded_mono (List.prefix_refl _) hext hmade⟩
  · have hlr := ht.order
    have hl := ht.left
    have hp := tested_passed hw hx ht
    have hnot : ¬ (inMiddle w.view = true ∧ (erase w).cf = true ∧ Strays letter w.view) :=
      fun h => by rw [h.1, h.2.1] at hd; cases hd
    refine ⟨rfl, r, ⟨hp.toWithin, ht.rightSet, by omega, ht.right, ht.plain, ?_, fun h => ?_⟩,
      fun hm hcf => ?_, fun _ => ?_, hmade⟩
    · rw [clean_iff ht ha]
      exact ⟨fun h => ⟨h, hnot⟩, And.left⟩
    · have hr := hp.placed ((clean_iff ht ha).mp h)
      rwa [hd, if_neg Bool.false_ne_true] at hr
    · rw [hm, hcf] at hd
      cases hd
    · have he := ht.erase hw.valid
      exact ⟨congrArg Nested.State.toVars he, by rw [he]⟩

/-- Only new sets differ, and what they have as children is new too. -/
theorem within_of_new (hu : Sound u) (hv : Valid v) (hx : Extends u v) (hle : u.nextSet ≤ v.nextSet)
    (hold : ∀ y < u.nextSet, v.sets y = u.sets y ∧ v.latest y = u.latest y)
    (hnew : ∀ y, u.nextSet ≤ y → (∀ k ∈ members v y, k ∈ members u y) ∧
      ∀ s z, (tree v).child s y = some z → y < v.nextSet ∧ u.nextSet ≤ z ∧ z < v.nextSet)
    (hm : v.moments = u.moments) (ht : Untainted u → Untainted v) (x : ℕ) : Within x u v := by
  have hchild (s : Bool) (y z : ℕ) (hc : (tree v).child s y = some z) :
      (y < u.nextSet ∧ (tree u).child s y = some z) ∨
        (y < v.nextSet ∧ u.nextSet ≤ z ∧ z < v.nextSet) := by
    by_cases hy : y < u.nextSet
    · rw [tree_congr (hold y hy).1] at hc
      exact .inl ⟨hy, hc⟩
    · exact .inr ((hnew y (by omega)).2 s z hc)
  have hmem (y k : ℕ) (hk : k ∈ members v y) : k ∈ members u y := by
    by_cases hy : y < u.nextSet
    · rwa [members, (hold y hy).1] at hk
    · exact (hnew y (by omega)).1 k hk
  refine ⟨⟨hv, ⟨fun s y z hc => ?_, fun s y z hc => ?_⟩, fun y k hk => ?_⟩, hx, hle,
    fun y hy _ => hold y hy, fun s y z hz hc => ?_, fun y k hk => .inl (hmem y k hk),
    fun y hy h => by rwa [(hold y hy).1], hm ▸ List.prefix_refl _, ht⟩
  · rcases hchild s y z hc with ⟨hy, -⟩ | ⟨hy, -⟩
    · exact hy.trans_le hle
    · exact hy
  · rcases hchild s y z hc with ⟨-, hc⟩ | ⟨-, -, hz⟩
    · exact existing_mono hle (hu.closed.child s y z hc)
    · exact hz
  · exact (hu.branches y k (hmem y k hk)).trans_le hx.made_length
  · rcases hchild s y z hc with ⟨hy, hc⟩ | ⟨-, hz', -⟩
    · exact ⟨hy, hc, (hold y hy).2⟩
    · exact absurd hz (Nat.not_lt.mpr hz')

/-- A set that was just made is not a child of any. -/
theorem make_within (hw : Sound w) (x : ℕ) :
    ∃ v, exec BranchSet.make w = (.ok w.nextSet, v) ∧ erase v = erase w ∧ Within x w v ∧
      Clean w v ∧ w.nextSet < v.nextSet ∧ (tree v).Placed w.nextSet := by
  let v : World := { w.setSet w.nextSet .new with nextSet := w.nextSet + 1 }
  have hsets (y : ℕ) (hy : y ≠ w.nextSet) : v.sets y = w.sets y := Function.update_of_ne hy _ _
  have hnew : v.sets w.nextSet = .new := Function.update_self _ _ _
  have hchild (s : Bool) (y : ℕ) : (tree v).child s y = (tree w).child s y := by
    by_cases hy : y = w.nextSet
    · rw [hy, tree_new hnew s, hw.none (le_refl _) s]
    · exact tree_congr (hsets y hy) s
  have hunlinked : (tree v).Unlinked w.nextSet := by
    intro s y hc
    rw [hchild] at hc
    exact absurd (hw.closed.child s y _ hc) (lt_irrefl w.nextSet)
  refine ⟨v, rfl, rfl,
    within_of_new (v := v) hw ⟨hw.valid.fields, hw.valid.taintSet, hw.valid.members⟩
    ⟨le_refl _, fun _ _ => rfl, fun _ _ => rfl, fun _ _ => rfl, fun _ _ => rfl,
      List.prefix_refl _, rfl⟩ (Nat.le_succ _) (fun y hy => ⟨hsets y (by omega), rfl⟩)
    (fun y hy => ⟨fun k hk => ?_, fun s z hc => ?_⟩) rfl (fun h => ⟨h.var, h.a422009172,
      h.a2108127495, h.a1522448132⟩) x, clean_refl w, Nat.lt_succ_self _, hunlinked.placed⟩
  · by_cases hy' : y = w.nextSet
    · rw [members, hy', hnew] at hk
      exact absurd hk List.not_mem_nil
    · rwa [members, hsets y hy'] at hk
  · rw [hchild, hw.none hy s] at hc
    cases hc

theorem calculateOutputm6_follows (hw : Sound w) (hin : Input letter input w) (set : SetVar)
    (x : ℕ) :
    Follows (DirectFinal.calculateOutputm6 input set) (Nested.calculateOutputm6 letter) w
      (Returns fun v => Within x w v ∧ (Clean w v ↔ ¬ ((erase w).cf = true ∧
        Overrun letter [(.m6Ne1, false), (.m6VoidReply, true)]))) := by
  obtain ⟨v, hv, he, hwithin, hclean, hlt, hplaced⟩ := make_within hw x
  obtain ⟨r, v', hv', hq, hres, hwithin', hclean'⟩ :=
    words_follow [(.m6Ne1, false), (.m6VoidReply, true)] hwithin.sound hlt
      (hin.mono hwithin.objects)
  rw [he] at hq hclean'
  refine ⟨r, v', (exec_bind_ok hv).trans hv', hq, hres,
    hwithin.trans hwithin' (.inr (le_refl _)), ?_⟩
  rw [clean_append hwithin.moments hwithin'.moments, hclean' (List.cons_ne_nil _ _)]
  exact ⟨fun h => h.2.2, fun h => ⟨hclean, hplaced, h⟩⟩

/-- The call of the method for `g` passes a set that the method does not use. -/
theorem g_follows (hw : Sound w) (hx : x < w.nextSet) (hin : Input letter input w) :
    Follows (ifM (DirectFinal.equal (.field .a1745113960) "g" true input (some x)) (do
        DirectFinal.calculateOutputm6 input (← getLeftSet (some x))))
      (ifM (Nested.equal Vars.a1745113960 "g") (Nested.calculateOutputm6 letter)) w
      (Returns fun v => ∃ d C l r, Guarded x d C l r w v) := by
  have hc : Tests (DirectFinal.equal (.field .a1745113960) "g" true input (some x))
      (Nested.equal Vars.a1745113960 "g") x (w.view.a1745113960 == "g" && (erase w).cf) w :=
    equal_tests hw.valid hx (hw.valid.fields _) rfl
  refine (guard_follows (E := fun _ _ => True) (C := ¬ ((erase w).cf = true ∧
      Overrun letter [(.m6Ne1, false), (.m6VoidReply, true)])) hw hx hin hc (fun _ _ _ => trivial)
    fun _ v l hwithin hl _ _ _ hin' _ hcf =>
      .left hl ((calculateOutputm6_follows hwithin.sound hin' (some l) l).mono ?_)).mono
    fun res v ⟨hres, l, r, hg, _⟩ => ⟨hres, _, _, l, r, hg⟩
  intro res v' ⟨hres, hwithin', hclean⟩
  rw [hcf] at hclean
  exact ⟨hres, hwithin', fun _ => hclean, trivial⟩

/-- The region above 100 is asked for inside the block of the region below it. -/
theorem above_follows (hw : Sound w) (hx : x < w.nextSet) (hin : Input letter input w) :
    Follows (ifM (DirectFinal.above 100 (.field .a2108127495) input (some x)) do
        let s1 ← getLeftSet (some x)
        ifM (DirectFinal.between 103 198 (.field .a422009172) false input s1) do
          DirectFinal.calculateOutputm8 input (← getLeftSet s1))
      (ifM (Nested.above 100 Vars.a2108127495) do
        ifM (Nested.between 103 198 Vars.a422009172) do
          Nested.calculateOutputm8 letter) w
      (Returns fun v => ∃ d C l r, Guarded x d C l r w v) := by
  have hc : Tests (DirectFinal.above 100 (.field .a2108127495) input (some x))
      (Nested.above 100 Vars.a2108127495) x (100 < w.view.a2108127495 && (erase w).cf) w :=
    above_tests hw.valid hx (hw.valid.fields .a2108127495) rfl
  refine (guard_follows (E := fun _ _ => True) (C := True) hw hx hin hc (fun _ _ _ => trivial)
    fun _ v l hwithin hl _ hlt _ hin' _ _ => .left hl ?_).mono
    fun res v ⟨hres, l, r, hg, _⟩ => ⟨hres, _, _, l, r, hg⟩
  have hv := hwithin.sound
  have hc' : Tests (DirectFinal.between 103 198 (.field .a422009172) false input (some l))
      (Nested.between 103 198 Vars.a422009172) l
      ((103 < v.view.a422009172 && 198 ≥ v.view.a422009172) && (erase v).cf) v :=
    between_tests hv.valid hlt (hv.valid.fields .a422009172) rfl
  refine (guard_follows (E := fun _ _ => True) (C := True) hv hlt hin' hc' (fun _ _ _ => trivial)
    fun _ v l hwithin hl _ hlt _ hin' _ _ => .left hl
      ((words_follow [(.m8VoidReply, false)] hwithin.sound hlt hin').mono ?_)).mono
    fun res v' ⟨hres, l', r', hg, _⟩ => ⟨hres, hg.toWithin, fun hp => ?_, trivial⟩
  · intro res v' ⟨hres, hwithin', hclean⟩
    refine ⟨hres, hwithin', fun hp => iff_of_true ?_ trivial, trivial⟩
    exact (hclean (List.cons_ne_nil _ _)).mpr ⟨hp, fun h => not_overrun_singleton _ h.2⟩
  · exact iff_of_true (hg.clean.mpr ⟨hp, fun _ => trivial⟩) trivial

/-- The check throws if `cf` still holds, and makes a record of that. -/
theorem check_follows (hw : Sound w) (hx : x < w.nextSet) :
    Follows (DirectFinal.check input (some x)) Nested.check w fun _ v => Within x w v := by
  obtain ⟨l, r, v, hv, hs⟩ := myIf_split hx (.field .cf) input
  have ht := tested_of_split hw.valid (.refl x w) (fun _ => rfl) hs
  have hwithin := tested_within hw hx ht
  have hq : exec (Nested.decision fun _ cf => cf) (erase w) =
      (.ok (w.boolean (.field .cf)).val, erase v) := by
    rw [erase_split hw.valid hs]
    rfl
  cases hcf : (w.boolean (.field .cf)).val <;> rw [hcf] at hv hq
  · exact ⟨_, v, exec_ifM_of_false hv, exec_ifM_of_false hq, hwithin⟩
  · refine ⟨_, _, (exec_ifM_of_true hv).trans rfl, (exec_ifM_of_true hq).trans rfl, ?_⟩
    have hn := notes_noted x ⟨none, none, none, none, some Original.noTransition⟩ v
    have hvalid : Valid (noted x ⟨none, none, none, none, some Original.noTransition⟩ v) :=
      ⟨hwithin.sound.valid.fields, hwithin.sound.valid.taintSet, hwithin.sound.valid.members⟩
    exact hwithin.trans (within_of_notes hwithin.sound hn hvalid fun h =>
      ⟨h.var, h.a422009172, h.a2108127495, h.a1522448132⟩) (.inl rfl)

def inUpper (v : Vars) : Bool := -19 < v.a2108127495 && 100 ≥ v.a2108127495

/-- The block goes on with the right child although the condition was true. -/
theorem upper_follows (hw : Sound w) (hx : x < w.nextSet) (hin : Input letter input w) :
    Follows (DirectFinal.upper input (some x)) (Nested.upper letter) w fun _ v => Within x w v ∧
      (Clean w v ↔ (tree w).Placed x ∧ ¬ (inUpper w.view && (erase w).cf) = true) := by
  have hc : Tests (DirectFinal.between (-19) 100 (.field .a2108127495) false input (some x))
      (Nested.between (-19) 100 Vars.a2108127495) x (inUpper w.view && (erase w).cf) w :=
    between_tests hw.valid hx (hw.valid.fields .a2108127495) rfl
  refine Follows.ifM hc (fun hd v l r ht ha _ => ?_) fun hd v l r ht ha _ => ?_
  · have hp := tested_passed hw hx ht
    have hr := ht.right
    have hnew := ht.left.trans (Nat.le_of_lt ht.order)
    refine .right ht.rightSet ((g_follows hp.sound hr (hin.mono ht.objects)).seq
      fun v₁ ⟨_, _, l₁, r₁, h₁⟩ _ => ?_)
    have hin₁ := (hin.mono ht.objects).mono h₁.objects
    refine .right h₁.right ((mode_follows h₁.sound h₁.newRight hin₁
      "h" true [(.m7Ne1, false), (.m7VoidReply, true)] (List.cons_ne_nil _ _)).seq
      fun v₂ ⟨l₂, r₂, h₂⟩ _ => ?_)
    have hin₂ := hin₁.mono h₂.objects
    refine .right h₂.right ((above_follows h₂.sound h₂.newRight hin₂).seq
      fun v₃ ⟨_, _, l₃, r₃, h₃⟩ _ => ?_)
    refine .right h₃.right ((check_follows h₃.sound h₃.newRight).mono fun _ v₄ h₄ => ?_)
    have hr₁ := h₁.newLeft.trans (Nat.le_of_lt h₁.order)
    have hr₂ := h₂.newLeft.trans (Nat.le_of_lt h₂.order)
    have hr₃ := h₃.newLeft.trans (Nat.le_of_lt h₃.order)
    -- from the right child on, every set is one made later
    have hrest := ((h₁.toWithin.trans h₂.toWithin (.inr hr₁)).trans h₃.toWithin
      (.inr (h₁.nextSet.trans hr₂))).trans h₄ (.inr ((h₁.nextSet.trans h₂.nextSet).trans hr₃))
    refine ⟨hp.toWithin.trans hrest (.inr hnew), fun hclean => ?_, fun h => absurd hd h.2⟩
    have hmoments := h₂.moments.trans (h₃.moments.trans h₄.moments)
    rw [clean_append hp.moments hrest.moments, clean_append h₁.moments hmoments] at hclean
    rw [hd] at hp
    exact absurd (h₁.clean.mp hclean.2.1).1 hp.right_not_placed
  · refine ⟨tested_within hw hx ht, ?_⟩
    rw [clean_iff ht ha, hd]
    exact ⟨fun h => ⟨h, Bool.false_ne_true⟩, And.left⟩

theorem clean_of_moments (h : v.moments = u.moments) : Clean u v := by
  intro m hm
  rw [entries, h, List.drop_length] at hm
  exact absurd hm List.not_mem_nil

/-- The call begins with a new `cf`, which holds. -/
theorem start_within (hw : Sound w) (x : ℕ) :
    ∃ v, exec (setField .cf (MyBool.new2 true "cf")) w = (.ok (), v) ∧
      erase v = { erase w with cf := true, cfTainted := false } ∧ Within x w v ∧
      tree v = tree w ∧ v.nextSet = w.nextSet ∧ v.moments = w.moments ∧ v.sets = w.sets := by
  let v := (w.grown .myBool).setBool (.made w.next) ⟨true, some "cf"⟩
  have hm : Bodies.Made x (.made w.next) false w v :=
    Bodies.made_of_quiet hw.valid (quiet_newBool _) rfl rfl (fun _ => rfl) false
  have hval : (v.bools (.made w.next)).val = true := by simp [v, World.setBool]
  have htree : tree (Bodies.assigned .cf (.made w.next) v) = tree w := rfl
  have hvalid : Valid (Bodies.assigned .cf (.made w.next) v) := by
    refine ⟨fun g => ?_, hm.valid.taintSet, hm.valid.members⟩
    rw [Bodies.assigned_fields]
    split_ifs
    · exact hm.owned
    · exact hm.valid.fields g
  refine ⟨Bodies.assigned .cf (.made w.next) v, Bodies.exec_setField rfl, ?_, ?_, htree,
    rfl, rfl, rfl⟩
  · rw [Bodies.erase_assigned_cf, hval, hm.tainted, hm.erase hw.valid]
  · have hn : Notes x w (Bodies.assigned .cf (.made w.next) v) :=
      ⟨⟨hm.notes.objects.next, hm.notes.objects.ints, hm.notes.objects.bools,
        hm.notes.objects.strings, hm.notes.objects.tainted, hm.notes.objects.made,
        hm.notes.objects.var⟩, rfl, rfl, rfl, fun _ _ => rfl, .refl _, fun _ => .inl, id, [],
        by simp; rfl⟩
    refine within_of_notes hw hn hvalid fun h => ?_
    have hold (f : Field) (hf : w.tainted (w.fields f) = false) : v.tainted (w.fields f) = false :=
      (hm.notes.objects.tainted _ (hw.valid.fields f)).trans hf
    exact ⟨fun n => (hm.taintedVar n).trans (h.var n), hold _ h.a422009172, hold _ h.a2108127495,
      hold _ h.a1522448132⟩

/-- The inputs for which the cursor never is on the wrong side. -/
def Straight (letter : String) (v : Vars) : Prop :=
  ¬ v.a2108127495 ≤ -164 ∧ ¬ (inMiddle v = true ∧ Strays letter v) ∧ inUpper v = false

/-- What a call with the set `y` leaves. -/
structure Called (letter : String) (y : ℕ) (u v : World) : Prop extends Within y u v where
  clean : Clean u v ↔ (tree u).Placed y ∧ Straight letter u.view
  plain : Plain u y → Plain v y
  plainChild : ∀ s x, (tree v).child s y = some x → Plain v x
  loses : inMiddle u.view = true → Loses u v
  made : inMiddle u.view = true →
    ⟨some (.bool true), some .and, some (.bool 1), some (.bool 2), none⟩ ∈ recorded u v

theorem not_low_of_inMiddle {v : Vars} (h : inMiddle v = true) : ¬ v.a2108127495 ≤ -164 := by
  have hlt := (Bool.and_eq_true_iff.mp h).1
  rw [decide_eq_true_eq] at hlt
  exact Int32.not_le.mpr hlt

theorem not_inUpper_of_inMiddle {v : Vars} (h : inMiddle v = true) : ¬ inUpper v = true := by
  have hle := (Bool.and_eq_true_iff.mp h).2
  rw [decide_eq_true_eq] at hle
  intro hup
  have hlt := (Bool.and_eq_true_iff.mp hup).1
  rw [decide_eq_true_eq] at hlt
  exact Int32.not_le.mpr hlt hle

/-- The regions of a call one after the other, with the worlds in between. -/
structure Stages (letter : String) (y l r r₂ : ℕ) (w w₀ v₁ v₂ v : World) : Prop where
  existing : y < w₀.nextSet
  start : Within y w w₀
  sets : w₀.sets = w.sets
  moments : w₀.moments = w.moments
  tree : tree w₀ = tree w
  view : w₀.view = w.view
  cf : (erase w₀).cf = true
  low : Guarded y (w₀.view.a2108127495 ≤ -164 && (erase w₀).cf) True l r w₀ v₁
  lowPlain : Plain v₁ l
  middle : Crossed (inMiddle v₁.view = true ∧ (erase v₁).cf = true ∧ Strays letter v₁.view) r r₂
    v₁ v₂
  lost : inMiddle v₁.view = true → (erase v₁).cf = true → Loses v₁ v₂
  idle : inMiddle v₁.view = false → v₂.view = v₁.view ∧ (erase v₂).cf = (erase v₁).cf
  idle₂ : v₁.view = w.view → Nested.Idle w.view (erase v₂)
  made : ⟨some (.bool (inMiddle v₁.view)), some .and, some (.bool 1), some (.bool 2), none⟩ ∈
    recorded v₁ v₂
  upper : Within r₂ v₂ v
  upperClean : Clean v₂ v ↔
    (Trees.tree v₂).Placed r₂ ∧ ¬ (inUpper v₂.view && (erase v₂).cf) = true

section
variable {r₂ : ℕ} {w₀ v₁ v₂ : World}

theorem Stages.existing₁ (h : Stages letter y l r r₂ w w₀ v₁ v₂ v) : y < v₁.nextSet :=
  h.existing.trans_le h.low.nextSet

theorem Stages.newRight (h : Stages letter y l r r₂ w w₀ v₁ v₂ v) : w₀.nextSet ≤ r :=
  h.low.newLeft.trans (Nat.le_of_lt h.low.order)

theorem Stages.before_middle (h : Stages letter y l r r₂ w w₀ v₁ v₂ v) : Within y w v₁ :=
  h.start.trans h.low.toWithin (.inl rfl)

theorem Stages.within (h : Stages letter y l r r₂ w w₀ v₁ v₂ v) : Within y w v := by
  have hr := h.start.nextSet.trans h.newRight
  have hr₂ := h.before_middle.nextSet.trans h.middle.newRight
  exact (h.before_middle.trans h.middle.toWithin (.inr hr)).trans h.upper (.inr hr₂)

/-- Before the middle region nothing has happened, unless the low one was entered. -/
theorem Stages.low_idle (h : Stages letter y l r r₂ w w₀ v₁ v₂ v)
    (hlow : ¬ w.view.a2108127495 ≤ -164) :
    (decide (w₀.view.a2108127495 ≤ -164) && (erase w₀).cf) = false ∧
      v₁.view = w.view ∧ (erase v₁).cf = true := by
  have hd : (decide (w₀.view.a2108127495 ≤ -164) && (erase w₀).cf) = false := by
    rw [h.view, decide_eq_false hlow, Bool.false_and]
  obtain ⟨hview, hcf⟩ := h.low.idle hd
  exact ⟨hd, hview.trans h.view, hcf.trans h.cf⟩

theorem Stages.clean_iff_all (h : Stages letter y l r r₂ w w₀ v₁ v₂ v) :
    Clean w v ↔ Clean w₀ v₁ ∧ Clean v₁ v₂ ∧ Clean v₂ v := by
  have hrest := h.middle.moments.trans h.upper.moments
  rw [clean_append h.start.moments (h.low.moments.trans hrest), clean_append h.low.moments hrest,
    clean_append h.middle.moments h.upper.moments]
  exact and_iff_right (clean_of_moments h.moments)

theorem Stages.straight_of_clean (h : Stages letter y l r r₂ w w₀ v₁ v₂ v) (hc : Clean w v) :
    (Trees.tree w).Placed y ∧ Straight letter w.view := by
  obtain ⟨hlow, hmiddle, hupper⟩ := h.clean_iff_all.mp hc
  obtain ⟨hp, -⟩ := h.low.clean.mp hlow
  obtain ⟨hpr, hs⟩ := h.middle.clean.mp hmiddle
  obtain ⟨-, hu⟩ := h.upperClean.mp hupper
  have hd := hpr.side (tree_right h.low.right) h.low.latest
  rw [h.cf, Bool.and_true, decide_eq_false_iff_not, h.view] at hd
  obtain ⟨-, hview₁, hcf₁⟩ := h.low_idle hd
  rw [hview₁, hcf₁] at hs
  refine ⟨h.tree ▸ hp, hd, fun hm => hs ⟨hm.1, rfl, hm.2⟩, Bool.eq_false_iff.mpr fun hup => hu ?_⟩
  have hm : inMiddle v₁.view = false := by
    rw [hview₁, Bool.eq_false_iff]
    exact fun hm => absurd hup (not_inUpper_of_inMiddle hm)
  obtain ⟨hview₂, hcf₂⟩ := h.idle hm
  rw [hview₂, hview₁, hcf₂, hcf₁, hup, Bool.and_true]

theorem Stages.clean_of_straight (h : Stages letter y l r r₂ w w₀ v₁ v₂ v)
    (hp : (Trees.tree w).Placed y) (hs : Straight letter w.view) : Clean w v := by
  obtain ⟨hl, hm, hup⟩ := hs
  obtain ⟨hd, hview₁, hcf₁⟩ := h.low_idle hl
  have hlow : Clean w₀ v₁ := h.low.clean.mpr ⟨h.tree ▸ hp, fun _ => trivial⟩
  have hpr := h.low.placed (h.tree ▸ hp)
  rw [hd, if_neg Bool.false_ne_true] at hpr
  have hmiddle : Clean v₁ v₂ := by
    refine h.middle.clean.mpr ⟨hpr, ?_⟩
    rw [hview₁]
    exact fun hs => hm ⟨hs.1, hs.2.2⟩
  have hupper : Clean v₂ v := by
    refine h.upperClean.mpr ⟨h.middle.placed hmiddle, fun hu => ?_⟩
    obtain ⟨hu, hcf₂⟩ := Bool.and_eq_true_iff.mp hu
    have hview₂ : v₂.view = w.view := h.idle₂ hview₁ hcf₂
    rw [hview₂, hup] at hu
    cases hu
  exact h.clean_iff_all.mpr ⟨hlow, hmiddle, hupper⟩

theorem Stages.plain (h : Stages letter y l r r₂ w w₀ v₁ v₂ v) (hp : Plain w y) : Plain v y := by
  have hy₁ := h.existing₁
  have hr := h.newRight
  have hr₂ := h.middle.newRight
  have hex := h.existing
  have hplain := h.low.plain (hp.congr (by rw [h.sets]) h.start.objects.made)
  exact h.upper.plain (hy₁.trans_le h.middle.nextSet) (by omega)
    (h.middle.toWithin.plain hy₁ (by omega) hplain)

theorem Stages.plain_child (h : Stages letter y l r r₂ w w₀ v₁ v₂ v) {s : Bool} {x : ℕ}
    (hx : (Trees.tree v).child s y = some x) : Plain v x := by
  have hy₁ := h.existing₁
  have hr := h.newRight
  have hex := h.existing
  have hrlt := h.low.newRight
  have hlr := h.low.order
  have hnext₂ := h.middle.nextSet
  have hnew₂ := h.middle.newRight
  have hsets : v.sets y = v₁.sets y := by
    rw [(h.upper.others y (hy₁.trans_le hnext₂) (by omega)).1,
      (h.middle.others y hy₁ (by omega)).1]
  rw [tree_congr hsets] at hx
  cases s with
  | true =>
    rw [tree_left h.low.left, Option.some.injEq] at hx
    subst hx
    exact h.upper.plain (by omega) (by omega)
      (h.middle.toWithin.plain (by omega) (by omega) h.lowPlain)
  | false =>
    rw [tree_right h.low.right, Option.some.injEq] at hx
    subst hx
    exact h.upper.plain (by omega) (by omega) (h.middle.plain h.low.plainRight)

theorem Stages.loses (h : Stages letter y l r r₂ w w₀ v₁ v₂ v) (hm : inMiddle w.view = true) :
    Loses w v := by
  obtain ⟨-, hview₁, hcf₁⟩ := h.low_idle (not_low_of_inMiddle hm)
  have hnext₁ := h.before_middle.nextSet
  obtain ⟨m, hm', hs, hlost⟩ := h.lost (hview₁ ▸ hm) hcf₁
  refine ⟨m, ?_, by omega, hlost.within h.upper⟩
  rw [entries_append h.before_middle.moments (h.middle.moments.trans h.upper.moments),
    entries_append h.middle.moments h.upper.moments]
  exact List.mem_append_right _ (List.mem_append_left _ hm')

theorem Stages.called (h : Stages letter y l r r₂ w w₀ v₁ v₂ v) : Called letter y w v where
  toWithin := h.within
  clean := ⟨h.straight_of_clean, fun hc => h.clean_of_straight hc.1 hc.2⟩
  plain := h.plain
  plainChild _ _ := h.plain_child
  loses := h.loses
  made hm := by
    obtain ⟨-, hview₁, -⟩ := h.low_idle (not_low_of_inMiddle hm)
    have hmade := h.made
    rw [hview₁, hm] at hmade
    exact recorded_mono h.before_middle.objects.made h.upper.objects.made hmade

end

theorem calculateOutput_follows (hw : Sound w) (hy : y < w.nextSet) (hin : Input letter input w) :
    Follows (DirectFinal.calculateOutput input (some y)) (Nested.calculateOutput letter) w
      fun _ v => Called letter y w v := by
  obtain ⟨w₀, h₀, he₀, hwithin₀, htree₀, hnext₀, hmoments₀, hsets₀⟩ := start_within hw y
  have hy₀ : y < w₀.nextSet := hnext₀ ▸ hy
  have hstart : Follows (setField .cf (MyBool.new2 true "cf"))
      (modify fun s => { s with cf := true, cfTainted := false }) w (Returns fun v => v = w₀) :=
    ⟨_, w₀, h₀, by rw [he₀]; rfl, rfl, rfl⟩
  refine hstart.seq fun v hv _ => hv ▸ ?_
  have hin₀ := hin.mono hwithin₀.objects
  refine (low_follows hwithin₀.sound hy₀ hin₀).seq fun v₁ ⟨l, r, h₁, hl₁⟩ he₁ => .right h₁.right ?_
  have hr := h₁.newLeft.trans (Nat.le_of_lt h₁.order)
  refine (middle_follows h₁.sound h₁.newRight (hy₀.trans_le h₁.nextSet) (by omega) h₁.right
    (hin₀.mono h₁.objects)).seq fun v₂ ⟨r₂, h₂, hlost, hidle, hmade⟩ he₂ => .right h₂.right ?_
  refine (upper_follows h₂.sound h₂.existing (hin₀.mono (h₁.objects.trans h₂.objects))).mono
    fun _ v₃ ⟨h₃, hclean₃⟩ => ?_
  have hidle₂ (h : v₁.view = w.view) : Nested.Idle w.view (erase v₂) := by
    have hk := (Nested.middle_composed letter).keeps_idle w.view (erase v₁) fun _ => h
    rwa [he₂] at hk
  have hstages : Stages letter y l r r₂ w w₀ v₁ v₂ v₃ :=
    ⟨hy₀, hwithin₀, hsets₀, hmoments₀, htree₀, congrArg Nested.State.toVars he₀, by rw [he₀], h₁,
      hl₁, h₂, hlost, hidle, hidle₂, hmade, h₃, hclean₃⟩
  exact hstages.called

end EcaEngines.Regions
