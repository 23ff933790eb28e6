import EcaEngines.Blocks

/-!
# What the tests of an engine may change

Between two transitions an engine only evaluates conditions. They write scratch
booleans, branches and the record of decisions, and answer as the variables and
`cf` tell them. An engine whose tests are of this kind fires the transition of
the mode and the input, from a world that differs from the one at the start in
these respects only.
-/
namespace EcaEngines.Guards
open Imperative FirstMatch Dispatch Instrumented Transitions Blocks
open Original (Throwable Vars Reply noTransition)

/-- `w'` differs from `w` only in what tests write. -/
def Same (w w' : World) : Prop :=
  w' = { w with
    bool := w'.bool
    made := w'.made
    branches := w'.branches
    decisions := w'.decisions }

theorem Same.refl (w : World) : Same w w := rfl

theorem Same.trans {u v w : World} (h : Same u v) (k : Same v w) : Same u w := by
  unfold Same at *
  rw [h] at k
  exact k

theorem Same.view {w w' : World} (h : Same w w') : w'.view = w.view := by rw [h]; rfl

theorem Same.cf {w w' : World} (h : Same w w') : w'.cf = w.cf := by rw [h]

theorem Same.out {w w' : World} (h : Same w w') : w'.out = w.out := by rw [h]

theorem Same.steps {w w' : World} (h : Same w w') : w'.steps = w.steps := by rw [h]

theorem Same.int {w w' : World} (h : Same w w') (r : IntRef) : w'.int r = w.int r := by
  rw [h]
  cases r <;> rfl

theorem Same.fields {w w' : World} (h : Same w w') : w'.a422009172 = w.a422009172 ∧
    w'.a2108127495 = w.a2108127495 ∧ w'.a1522448132 = w.a1522448132 ∧
    w'.a1745113960 = w.a1745113960 := by
  rw [h]
  exact ⟨rfl, rfl, rfl, rfl⟩

/-- The condition computes `f` of the variables and `cf`. -/
def Tests (c : Prog Bool) (f : Vars → Bool → Bool) : Prop :=
  ∀ w, ∃ w', exec c w = (.ok (f w.view w.cf.val), w') ∧ Same w w'

/-- The world after the first statement of `calculateOutput`. -/
def start (w : World) : World := { w with cf := .new2 true "cf" }

def phases (w : World) : Phases World Transition where
  idle := Same (start w)
  acted t w' := ∃ w₁, Same (start w) w₁ ∧ Same (exec (block .copied t) w₁).2 w'

section
variable {w : World} {c : Prog Bool} {f : Vars → Bool → Bool}

theorem Tests.decides (P : Prop) [Decidable P] (hc : Tests c f)
    (hidle : f w.view true = true ↔ P) (hacted : ∀ v, f v false = false) :
    (phases w).Decides c P where
  idle w₁ h := by
    obtain ⟨w', he, hs⟩ := hc w₁
    refine ⟨w', ?_, h.trans hs⟩
    have hb : f w.view true = decide P := Bool.eq_iff_iff.mpr (hidle.trans decide_eq_true_iff.symm)
    rw [he, h.view, h.cf]
    exact Prod.ext (congrArg Except.ok hb) rfl
  acted := by
    rintro t w₂ ⟨w₁, h₁, h₂⟩
    obtain ⟨w', he, hs⟩ := hc w₂
    exact ⟨w', by rw [he, h₂.cf, block_cf, hacted], w₁, h₁, h₂.trans hs⟩

theorem acts (t : Transition) (w₁ : World) (h : (phases w).idle w₁) :
    Leads (block .copied t) w₁ ((phases w).acted t) :=
  ⟨_, Prod.ext (block_returns t w₁) rfl, w₁, h, Same.refl _⟩

/-- A condition of the source is a function of the variables and `cf`, here and below. -/
theorem Tests.word {i : String} (t : Transition)
    (hc : Tests c fun _ cf => i == t.letter && cf) :
    (phases w).Takes (ifM c (block .copied t)) (t.on i) :=
  (hc.decides (i = t.letter) (by simp) (by simp)).act fun _ => acts t

theorem Tests.cf_word {i : String} (t : Transition)
    (hc : Tests c fun _ cf => cf && i == t.letter) :
    (phases w).Takes (ifM c (block .copied t)) (t.on i) :=
  (hc.decides (i = t.letter) (by simp) (by simp)).act fun _ => acts t

theorem Tests.low (hc : Tests c fun v cf => cf && v.a2108127495 ≤ -164) :
    (phases w).Decides c (Region.low.Holds cuts w.view.a2108127495) :=
  hc.decides _ (by simp [Region.Holds, cuts]) (by simp)

theorem Tests.middle
    (hc : Tests c fun v cf => cf && (-164 < v.a2108127495 && -19 ≥ v.a2108127495)) :
    (phases w).Decides c (Region.middle.Holds cuts w.view.a2108127495) :=
  hc.decides _ (by simp [Region.Holds, cuts]) (by simp)

theorem Tests.upper
    (hc : Tests c fun v cf => (-19 < v.a2108127495 && 100 ≥ v.a2108127495) && cf) :
    (phases w).Decides c (Region.upper.Holds cuts w.view.a2108127495) :=
  hc.decides _ (by simp [Region.Holds, cuts]) (by simp)

theorem Tests.high (hc : Tests c fun v cf => cf && 100 < v.a2108127495) :
    (phases w).Decides c (Region.high.Holds cuts w.view.a2108127495) :=
  hc.decides _ (by simp [Region.Holds, cuts]) (by simp)

variable {p : Prog Unit} {i : String}

/-- The `if` around the call of a method. -/
theorem Tests.row {m : Mode} (hc : Tests c f) (hp : (phases w).Takes p (find i m))
    (hidle : f w.view true = true ↔ Side m w.view) (hacted : ∀ v, f v false = false) :
    (phases w).Takes (ifM c p) (row (fun m => Side m w.view) (find i) m) :=
  (hc.decides (Side m w.view) hidle hacted).nest fun _ => hp

theorem Tests.m1 (hc : Tests c fun v cf => cf && (-83 < v.a1522448132 && 18 ≥ v.a1522448132))
    (hp : (phases w).Takes p (find i .m1)) :
    (phases w).Takes (ifM c p) (Dispatch.row (fun m => Side m w.view) (find i) .m1) :=
  hc.row hp (by simp [Side]) (by simp)

theorem Tests.m8 (hc : Tests c fun v cf => (103 < v.a422009172 && 198 ≥ v.a422009172) && cf)
    (hp : (phases w).Takes p (find i .m8)) :
    (phases w).Takes (ifM c p) (Dispatch.row (fun m => Side m w.view) (find i) .m8) :=
  hc.row hp (by simp [Side]) (by simp)

theorem Tests.cf_string {m : Mode} {s : String} (hs : ∀ v, Side m v = (v.a1745113960 = s))
    (hc : Tests c fun v cf => cf && v.a1745113960 == s) (hp : (phases w).Takes p (find i m)) :
    (phases w).Takes (ifM c p) (Dispatch.row (fun m => Side m w.view) (find i) m) :=
  hc.row hp (by simp [hs]) (by simp)

theorem Tests.string_cf {m : Mode} {s : String} (hs : ∀ v, Side m v = (v.a1745113960 = s))
    (hc : Tests c fun v cf => v.a1745113960 == s && cf) (hp : (phases w).Takes p (find i m)) :
    (phases w).Takes (ifM c p) (Dispatch.row (fun m => Side m w.view) (find i) m) :=
  hc.row hp (by simp [hs]) (by simp)

end

/-- How one call ends: rejected, or with the block of a transition run in
between tests. -/
inductive Outcome (w : World) : Except Throwable Unit × World → Option Transition → Prop
  | rejected {w' : World} : Same (start w) w' → Outcome w (.error noTransition, w') none
  | fired {t : Transition} {w₁ w' : World} : Same (start w) w₁ →
      Same (exec (block .copied t) w₁).2 w' → Outcome w (.ok (), w') (some t)

/-- The engine makes the lookup of the original machine, in every world. -/
def Implements (engine : MyString → Prog Unit) : Prop :=
  ∀ input w, Outcome w (exec (engine input) w) (fired w.view input.val)

/-- The end of a call that fires nothing. -/
def Rejects (w : World) (r : Except Throwable Unit) (w' : World) : Prop :=
  r = .error noTransition ∧ Same (start w) w'

theorem outcome_of_ends {w : World} {p : Prog Unit} {o : Option Transition}
    (h : (phases w).Ends (Rejects w) p o) :
    Outcome w (exec (setCf (.new2 true "cf") >>= fun _ => p) w) o := by
  rw [exec_bind_ok (exec_setCf _ _)]
  have h' := h.idle (start w) (Same.refl _)
  change Outcome w (exec p (start w)) o
  generalize exec p (start w) = r at h' ⊢
  obtain ⟨r, w'⟩ := r
  cases o with
  | none =>
    obtain ⟨rfl, hs⟩ := h'
    exact .rejected hs
  | some t =>
    obtain ⟨rfl, w₁, h₁, h₂⟩ := h'
    exact .fired h₁ h₂

/-- The check that closes `calculateOutput`. -/
theorem Tests.check {w : World} {c : Prog Bool} (hc : Tests c fun _ cf => cf) :
    (phases w).Ends (Rejects w) (ifM c (throw noTransition)) none :=
  (hc.decides True (by simp) (by simp)).check fun _ hs => ⟨rfl, hs⟩

end EcaEngines.Guards
