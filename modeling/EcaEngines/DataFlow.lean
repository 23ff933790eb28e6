import Mathlib.Data.List.Basic

/-!
# Flow of values through a sequence of assignments

An assignment computes one variable from some others. Whether a variable that has been
overwritten still counts as computed from what it was computed from before is left open.
Variables carry marks, which spread along the assignments if a variable that is computed from
a marked one is marked, and no mark is taken away.
-/
namespace EcaEngines.DataFlow

variable {ν : Type} {keep : Bool}

/-- `dest` is computed from `sources`. -/
structure Link (ν : Type) where
  dest : ν
  sources : List ν

/-- What the value of `s` has gone into after the link. -/
def Link.Passes (keep : Bool) (l : Link ν) (s r : ν) : Prop :=
  (r = s ∧ (keep = true ∨ s ≠ l.dest)) ∨ (r = l.dest ∧ s ∈ l.sources)

/-- The value of `s` has gone into `r` by a chain of the links. -/
def Flows (keep : Bool) : List (Link ν) → ν → ν → Prop
  | [], s, r => r = s
  | l :: ls, s, r => ∃ t, l.Passes keep s t ∧ Flows keep ls t r

theorem flows_append (ls ks : List (Link ν)) (s r : ν) :
    Flows keep (ls ++ ks) s r ↔ ∃ t, Flows keep ls s t ∧ Flows keep ks t r := by
  induction ls generalizing s with
  | nil => simp [Flows]
  | cons l ls ih =>
    simp only [List.cons_append, Flows, ih]
    constructor
    · intro ⟨p, hp, t, hpt, htr⟩
      exact ⟨t, ⟨p, hp, hpt⟩, htr⟩
    · intro ⟨t, ⟨p, hp, hpt⟩, htr⟩
      exact ⟨p, hp, t, hpt, htr⟩

theorem flows_singleton (l : Link ν) (s r : ν) : Flows keep [l] s r ↔ l.Passes keep s r := by
  simp only [Flows]
  constructor
  · rintro ⟨t, ht, rfl⟩
    exact ht
  · intro h
    exact ⟨r, h, rfl⟩

/-- The marks of before have spread along the links. -/
def Spreads (ls : List (Link ν)) (before after : ν → Prop) : Prop :=
  ∀ r, after r ↔ ∃ s, before s ∧ Flows true ls s r

section
variable {l : Link ν} {ls ks : List (Link ν)} {p q r : ν → Prop}

theorem Spreads.refl (p : ν → Prop) : Spreads [] p p :=
  fun s => ⟨fun h => ⟨s, h, rfl⟩, fun ⟨_, h, hs⟩ => hs ▸ h⟩

theorem Spreads.trans (h : Spreads ls p q) (k : Spreads ks q r) : Spreads (ls ++ ks) p r := by
  intro x
  rw [k x]
  simp only [h _, flows_append]
  constructor
  · rintro ⟨t, ⟨s, hs, hst⟩, htx⟩
    exact ⟨s, hs, t, hst, htx⟩
  · rintro ⟨s, hs, t, hst, htx⟩
    exact ⟨t, ⟨s, hs, hst⟩, htx⟩

/-- Along one link only its destination can get a mark. -/
theorem spreads_singleton_iff :
    Spreads [l] p q ↔ ∀ r, q r ↔ p r ∨ (r = l.dest ∧ ∃ s ∈ l.sources, p s) := by
  refine forall_congr' fun r => iff_congr Iff.rfl ?_
  simp only [flows_singleton]
  constructor
  · rintro ⟨s, hs, ⟨rfl, -⟩ | ⟨hr, hmem⟩⟩
    · exact .inl hs
    · exact .inr ⟨hr, s, hmem, hs⟩
  · rintro (hr | ⟨hr, s, hmem, hs⟩)
    · exact ⟨r, hr, .inl ⟨rfl, .inl rfl⟩⟩
    · exact ⟨s, hs, .inr ⟨hr, hmem⟩⟩

/-- What is computed from nothing gets no mark. -/
theorem spreads_nil (dest : ν) (p : ν → Prop) : Spreads [⟨dest, []⟩] p p :=
  spreads_singleton_iff.mpr fun _ => by simp

/-- No source is marked. -/
theorem spreads_of_forall_not (h : ∀ s ∈ l.sources, ¬ p s) : Spreads [l] p p :=
  spreads_singleton_iff.mpr fun _ =>
    ⟨.inl, fun hr => hr.resolve_right fun ⟨_, s, hs, hp⟩ => h s hs hp⟩

/-- A source is marked, and so is the destination then. -/
theorem spreads_of_exists (h : ∃ s ∈ l.sources, p s) : Spreads [l] p fun r => p r ∨ r = l.dest :=
  spreads_singleton_iff.mpr fun _ => or_congr_right ⟨fun hr => ⟨hr, h⟩, And.left⟩

end

end EcaEngines.DataFlow
