import EcaEngines.Operations
import EcaEngines.Nested

/-!
# The conditions of the recording engine

A world stands for a state of the engine without records. A condition of the
engine answers as the corresponding one there, and in between it records into its
set and gives it new children.
-/
namespace EcaEngines.Conditions
open Imperative Recording Effects Operations
open Original (Throwable Vars)

variable {u v w : World} {x : ℕ}

/-- The state of the engine without records that a world stands for. -/
def erase (w : World) : Nested.State where
  toVars := w.view
  cf := (w.boolean (.field .cf)).val
  cfTainted := w.tainted (w.fields .cf)
  stringTainted := w.tainted (w.fields .a1745113960)
  tainted n := w.tainted (.bool n)
  out := w.out
  decisions := w.decisions

/-- Conditions change the taint of registers and take decisions. -/
theorem erase_of (hu : Valid u) (h : Extends u v) (hf : v.fields = u.fields) (ho : v.out = u.out) :
    erase v = { erase u with
      tainted := fun n => v.tainted (.bool n)
      decisions := v.decisions } := by
  have hint (f : Field) : v.int (.field f) = u.int (.field f) := by
    rw [World.int, eval_congr hf]
    exact h.ints _ (hu.fields f)
  have hstring : (v.string (.field .a1745113960)).val = (u.string (.field .a1745113960)).val := by
    rw [World.string, eval_congr hf]
    exact h.strings _ (hu.fields _)
  have hcf : v.boolean (.field .cf) = u.boolean (.field .cf) := by
    rw [World.boolean, eval_congr hf]
    exact h.bools _ (hu.fields _)
  have htaint (f : Field) : v.tainted (v.fields f) = u.tainted (u.fields f) := by
    rw [hf]
    exact h.tainted _ (hu.fields f)
  simp only [erase, World.view, hint, hstring, hcf, htaint, ho]

/-- A condition on `x` was evaluated: `x` has new children, and no other set that
existed has changed. -/
structure Tested (x : ℕ) (d : Bool) (l r : ℕ) (u v : World) : Prop where
  valid : Valid v
  objects : Extends u v
  latest : v.latest = Function.update u.latest x (some d)
  leftSet : (v.sets x).leftSet = some l
  rightSet : (v.sets x).rightSet = some r
  left : u.nextSet ≤ l
  order : l < r
  right : r < v.nextSet
  others : ∀ y < u.nextSet, y ≠ x → v.sets y = u.sets y
  fresh : ∀ y, u.nextSet ≤ y → y < v.nextSet → v.sets y = .new
  beyond : ∀ y, v.nextSet ≤ y → y ≠ x → v.sets y = u.sets y
  branches : ∀ k ∈ members v x, k ∈ members u x ∨ (u.made.length ≤ k ∧ k < v.made.length)
  instantiated : (u.sets x).branches.isSome → (v.sets x).branches.isSome
  plain : Plain u x → Plain v x
  moments : ∃ ms, v.moments = u.moments ++ ms ∧ ∀ m ∈ ms, At x u m
  fields : v.fields = u.fields
  out : v.out = u.out
  taintedVar : ∀ n, v.tainted (.var n) = u.tainted (.var n)

theorem Tested.erase {d : Bool} {l r : ℕ} (hu : Valid u) (h : Tested x d l r u v) :
    erase v = { erase u with
      tainted := fun n => v.tainted (.bool n)
      decisions := v.decisions } := erase_of hu h.objects h.fields h.out

theorem Tested.untainted {d : Bool} {l r : ℕ} (hu : Valid u) (h : Tested x d l r u v)
    (ht : Untainted u) : Untainted v := by
  have hfield (f : Field) : v.tainted (v.fields f) = u.tainted (u.fields f) := by
    rw [h.fields]
    exact h.objects.tainted _ (hu.fields f)
  exact ⟨fun n => (h.taintedVar n).trans (ht.var n), (hfield _).trans ht.a422009172,
    (hfield _).trans ht.a2108127495, (hfield _).trans ht.a1522448132⟩

theorem tested_of_split {d : Bool} {l r : ℕ} (hu : Valid u) (h : Quiet x u v)
    (ht : ∀ n, v.tainted (.var n) = u.tainted (.var n)) (k : Split x d l r v w) :
    Tested x d l r u w where
  valid := k.valid (h.valid hu)
  objects := h.notes.objects.trans k.objects
  latest := by rw [k.latest, h.notes.latest]
  leftSet := by rw [k.self]
  rightSet := by rw [k.self]
  left := h.notes.nextSet ▸ k.left
  order := k.order
  right := k.right
  others y hy hne := by rw [k.others y (h.notes.nextSet ▸ hy) hne, h.notes.others y hne]
  fresh y hy hlt := k.fresh y (h.notes.nextSet ▸ hy) hlt
  beyond y hy hne := by rw [k.beyond y hy, h.notes.others y hne]
  branches n hn := by
    rw [members, k.self] at hn
    rw [k.made]
    exact h.notes.branches n hn
  instantiated hx := by
    rw [k.self]
    exact h.notes.instantiated hx
  plain hp n hn := by
    rw [members, k.self] at hn
    rw [k.made]
    exact h.plain hp n hn
  moments := by
    obtain ⟨ms, hms, hat⟩ := h.notes.moments
    exact ⟨ms, by rw [k.moments, hms], hat⟩
  fields := k.fields.trans h.fields
  out := k.out.trans h.out
  taintedVar n := by
    rw [← ht n]
    simp only [World.tainted, k.taintSet]

theorem erase_decided {a : ℕ} {b t : Bool} (hu : Valid u) (h : Decided x a b t u v) :
    erase v = (erase u).flow a t := by
  rw [erase_of hu h.quiet.notes.objects h.quiet.fields h.quiet.out, h.quiet.notes.decisions]
  simp only [h.tainted]
  rfl

/-- A comparison without taint cannot be seen. -/
theorem erase_compared {a : ℕ} {b : Bool} (hu : Valid u) (h : Decided x a b false u v) :
    erase v = erase u := by
  rw [erase_decided hu h]
  simp only [Nested.State.flow, Bool.false_and, Bool.or_false]

theorem erase_split {d : Bool} {l r : ℕ} (hu : Valid u) (h : Split x d l r u v) :
    erase v = (erase u).decided d := by
  rw [erase_of hu h.objects h.fields h.out, h.decisions]
  simp only [World.tainted, h.taintSet]
  rfl

/-- A condition of the engine that answers `d` as `q` does, and records something. -/
def Tests (c : Prog Bool) (q : Nested.Prog Bool) (x : ℕ) (d : Bool) (w : World) : Prop :=
  ∃ l r v, exec c w = (.ok d, v) ∧ exec q (erase w) = (.ok d, erase v) ∧
    Tested x d l r w v ∧ Added x w v

/-- How every condition ends, after comparisons that have left the value `c` in
register `b`. -/
theorem concluded (hu : Valid u) (hx : x < u.nextSet) (hq : Quiet x u v)
    (ht : ∀ n, v.tainted (.var n) = u.tainted (.var n)) {a b : ℕ} {c : Bool}
    (hc : (v.bools (.bool b)).val = c) (cfFirst : Bool) (input : Arg) :
    ∃ l r w, exec (do
        DirectFinal.andCf (.bool a) (.bool b) cfFirst (some x)
        I.myIf (.bool a) input (some x)) v = (.ok (c && (erase v).cf), w) ∧
      erase w = ((erase v).andCf a b).decided (c && (erase v).cf) ∧
      Tested x (c && (erase v).cf) l r u w ∧ Added x u w := by
  have hv := hq.valid hu
  obtain ⟨w₁, h₁, d₁, br, -, m, hm, hat, hold, hnew⟩ := andCf_decided (x := x) hv a b cfFirst
  have hq₁ := hq.trans d₁.quiet
  obtain ⟨l, r, w₂, h₂, hs⟩ := myIf_split (hq₁.notes.nextSet ▸ hx) (.bool a) input
  have hval : (w₁.boolean (.bool a)).val = (c && (erase v).cf) := by
    rw [← hc]
    exact d₁.val
  rw [hval] at h₂ hs
  have ht₁ (n : ℕ) : w₁.tainted (.var n) = u.tainted (.var n) := (d₁.taintedVar n).trans (ht n)
  refine ⟨l, r, w₂, (exec_bind_ok h₁).trans h₂, ?_, tested_of_split hu hq₁ ht₁ hs, ?_⟩
  · rw [erase_split (hq₁.valid hu) hs, erase_decided hv d₁]
    rfl
  · have hlen := hq.notes.objects.made_length
    have hmem : m ∈ entries u w₂ := by
      obtain ⟨ms, hms, -⟩ := hq.notes.moments
      obtain ⟨ns, hns, -⟩ := d₁.quiet.notes.moments
      rw [entries_append ⟨ms, hms.symm⟩ ⟨ns, (hs.moments.trans hns).symm⟩]
      refine List.mem_append_right _ ?_
      simpa only [entries, hs.moments] using hm
    exact ⟨m, hmem, hat.of_same hq.notes.links hq.notes.latest, by omega,
      by rwa [hs.made]⟩

theorem equal_tests (hw : Valid w) (hx : x < w.nextSet) {b input : Arg} {word : String}
    {cfFirst : Bool} {f : Vars → String} (hb : Owned w (w.eval b))
    (hf : f w.view = (w.string b).val) :
    Tests (DirectFinal.equal b word cfFirst input (some x)) (Nested.equal f word) x
      (f w.view == word && (erase w).cf) w := by
  obtain ⟨w₁, h₁, d₁⟩ := myEqualsString_decided (x := x) (a := 1) hb word
  obtain ⟨l, r, w₂, h₂, he, ht, hm⟩ :=
    concluded (a := 2) hw hx d₁.quiet d₁.taintedVar d₁.val cfFirst input
  rw [erase_compared hw d₁, ← hf] at h₂ he ht
  refine ⟨l, r, w₂, (exec_bind_ok h₁).trans h₂, ?_, ht, hm⟩
  rw [he]
  rfl

theorem above_tests (hw : Valid w) (hx : x < w.nextSet) {c input : Arg} {k : Int32}
    {f : Vars → Int32} (hc : Owned w (w.eval c)) (hf : f w.view = (w.int c).val) :
    Tests (DirectFinal.above k c input (some x)) (Nested.above k f) x
      (k < f w.view && (erase w).cf) w := by
  obtain ⟨w₁, h₁, d₁⟩ := myLessInt_decided (x := x) (a := 1) hc k
  obtain ⟨l, r, w₂, h₂, he, ht, hm⟩ :=
    concluded (a := 2) hw hx d₁.quiet d₁.taintedVar d₁.val true input
  rw [erase_compared hw d₁, ← hf] at h₂ he ht
  refine ⟨l, r, w₂, (exec_bind_ok h₁).trans h₂, ?_, ht, hm⟩
  rw [he]
  rfl

theorem atMost_tests (hw : Valid w) (hx : x < w.nextSet) {b input : Arg} {k : Int32}
    {f : Vars → Int32} (hb : Owned w (w.eval b)) (hf : f w.view = (w.int b).val) :
    Tests (DirectFinal.atMost b k input (some x)) (Nested.atMost f k) x
      (f w.view ≤ k && (erase w).cf) w := by
  obtain ⟨w₁, h₁, d₁⟩ := myLessEqualInt_decided (x := x) (a := 1) hb k (.given (some x))
  obtain ⟨l, r, w₂, h₂, he, ht, hm⟩ :=
    concluded (a := 2) hw hx d₁.quiet d₁.taintedVar d₁.val true input
  rw [erase_compared hw d₁, ← hf] at h₂ he ht
  refine ⟨l, r, w₂, (exec_bind_ok h₁).trans h₂, ?_, ht, hm⟩
  rw [he]
  rfl

/-- The two comparisons with the bounds, and their conjunction in register 3, before
the condition goes on with `k`. -/
theorem within_bounds (hw : Valid w) {c : Arg} (hc : Owned w (w.eval c)) (lo hi : Int32) :
    ∃ v, (∀ k : Prog Bool, exec (do
        I.myLessInt (.bool 1) lo c (.given (some x))
        I.myGreaterEqualInt (.bool 2) hi c (.given (some x))
        I.myAnd (.bool 3) (.bool 1) (.bool 2) (.given (some x))
        k) w = exec k v) ∧
      Quiet x w v ∧ (∀ n, v.tainted (.var n) = w.tainted (.var n)) ∧
        (v.bools (.bool 3)).val = (lo < (w.int c).val && hi ≥ (w.int c).val) ∧
      erase v = (erase w).flow 3 ((erase w).tainted 1 || (erase w).tainted 2) ∧
      ⟨some (.bool (lo < (w.int c).val && hi ≥ (w.int c).val)), some .and,
        some (.bool 1), some (.bool 2), none⟩ ∈ recorded w v := by
  obtain ⟨w₁, h₁, d₁⟩ := myLessInt_decided (x := x) (a := 1) hc lo
  have hw₁ := d₁.quiet.valid hw
  have hint : w₁.int c = w.int c := by
    rw [World.int, eval_congr d₁.quiet.fields]
    exact d₁.quiet.notes.objects.ints _ hc
  have hc₁ : Owned w₁ (w₁.eval c) := by
    rw [eval_congr d₁.quiet.fields]
    exact hc.mono d₁.quiet.notes.objects.next
  obtain ⟨w₂, h₂, d₂⟩ := myGreaterEqualInt_decided (x := x) (a := 2) hc₁ hi
  have hw₂ := d₂.quiet.valid hw₁
  obtain ⟨w₃, h₃, d₃, hr⟩ := myAnd_decided (x := x) hw₂ 3 (.bool 1) (.bool 2)
  have hq := (d₁.quiet.trans d₂.quiet).trans d₃.quiet
  have hval : ((w₂.boolean (.bool 1)).val && (w₂.boolean (.bool 2)).val) =
      (decide (lo < (w.int c).val) && decide (hi ≥ (w.int c).val)) := by
    have h₁ : (w₂.boolean (.bool 1)).val = decide (lo < (w.int c).val) := by
      rw [← d₁.val, ← d₂.bools 1 (by decide)]
      rfl
    have h₂ : (w₂.boolean (.bool 2)).val = decide (hi ≥ (w.int c).val) := by
      rw [← hint, ← d₂.val]
      rfl
    rw [h₁, h₂]
  rw [hval] at d₃ hr
  have ht (n : ℕ) : w₃.tainted (.var n) = w.tainted (.var n) := by
    rw [d₃.taintedVar n, d₂.taintedVar n, d₁.taintedVar n]
  refine ⟨w₃, fun k => ?_, hq, ht, d₃.val, ?_, recorded_mono
    (d₁.quiet.notes.objects.trans d₂.quiet.notes.objects).made (List.prefix_refl _) hr.made⟩
  · rw [exec_bind_ok h₁, exec_bind_ok h₂, exec_bind_ok h₃]
  · have he : erase w₂ = erase w := by rw [erase_compared hw₁ d₂, erase_compared hw d₁]
    rw [erase_decided hw₂ d₃, ← he]
    rfl

theorem between_tests (hw : Valid w) (hx : x < w.nextSet) {c input : Arg} {lo hi : Int32}
    {cfFirst : Bool} {f : Vars → Int32} (hc : Owned w (w.eval c))
    (hf : f w.view = (w.int c).val) :
    Tests (DirectFinal.between lo hi c cfFirst input (some x)) (Nested.between lo hi f) x
      ((lo < f w.view && hi ≥ f w.view) && (erase w).cf) w := by
  obtain ⟨w₁, h₁, hq, ht, hval, he₁, -⟩ := within_bounds (x := x) hw hc lo hi
  obtain ⟨l, r, w₂, h₂, he, ht, hm⟩ := concluded (a := 4) hw hx hq ht hval cfFirst input
  rw [he₁, ← hf] at h₂ he ht
  refine ⟨l, r, w₂, (h₁ _).trans h₂, ?_, ht, hm⟩
  rw [he]
  rfl

/-- The conjunction of the two comparisons is recorded with its value. -/
theorem between_made (hw : Valid w) (hx : x < w.nextSet) {c input : Arg} {lo hi : Int32}
    {cfFirst d : Bool} (hc : Owned w (w.eval c))
    (h : exec (DirectFinal.between lo hi c cfFirst input (some x)) w = (.ok d, v)) :
    ⟨some (.bool (lo < (w.int c).val && hi ≥ (w.int c).val)), some .and,
      some (.bool 1), some (.bool 2), none⟩ ∈ recorded w v := by
  obtain ⟨w₁, h₁, hq, -, hval, -, hmade⟩ := within_bounds (x := x) hw hc lo hi
  obtain ⟨l, r, w₂, h₂, -, ht, -⟩ := concluded (a := 4) (hq.valid hw)
    (hq.notes.nextSet ▸ hx) (.refl x w₁) (fun _ => rfl) hval cfFirst input
  have heq := congrArg Prod.snd (h.symm.trans ((h₁ _).trans h₂))
  change v = w₂ at heq
  rw [heq]
  exact recorded_mono (List.prefix_refl _) ht.objects.made hmade

end EcaEngines.Conditions
