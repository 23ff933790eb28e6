import Mathlib.Logic.Relation
import Mathlib.Data.Set.Basic

/-!
# Forests of decisions

Every node may have a child on either side, and a latest decision. A decision on a
node gives it two new children, whatever it had before. A node is placed if on
every path to it each step goes to the side of the latest decision. Nothing here
depends on which program is verified.
-/
namespace EcaEngines.Decisions
open Relation

variable {ν : Type} {old : Set ν} {x y z : ν}

/-- The side `true` is the one for success. -/
@[ext]
structure Forest (ν : Type) where
  child : Bool → ν → Option ν
  latest : ν → Option Bool

namespace Forest

variable {F G H : Forest ν}

def Linked (F : Forest ν) (x y : ν) : Prop := ∃ s, F.child s x = some y

/-- `z` is `y` or lies below it. -/
def Below (F : Forest ν) (y z : ν) : Prop := ReflTransGen F.Linked y z

def Placed (F : Forest ν) (z : ν) : Prop :=
  ∀ s x y d, F.child s x = some y → F.Below y z → F.latest x = some d → d = s

/-- A node placed below a child shows the decision on the parent. -/
theorem Placed.side {s d : Bool} (h : F.Placed z) (hc : F.child s x = some z)
    (hd : F.latest x = some d) : d = s := h s x z d hc .refl hd

/-- No node has the child `z`. -/
def Unlinked (F : Forest ν) (z : ν) : Prop := ∀ s x, F.child s x ≠ some z

/-- Only the node itself is above a node without parents. -/
theorem Unlinked.eq_of_below (h : F.Unlinked z) (hb : F.Below y z) : y = z := by
  rcases hb.cases_tail with heq | ⟨x, -, s, hs⟩
  · exact heq.symm
  · exact absurd hs (h s x)

theorem Unlinked.placed (h : F.Unlinked z) : F.Placed z := by
  intro s x y d hc hb _
  rw [h.eq_of_below hb] at hc
  exact absurd hc (h s x)

/-- Links between old nodes are not new, and neither are the decisions above them. -/
def Kept (old : Set ν) (F G : Forest ν) : Prop :=
  ∀ s x y, y ∈ old → G.child s x = some y →
    x ∈ old ∧ F.child s x = some y ∧ G.latest x = F.latest x

theorem Kept.trans {old' : Set ν} (hold : old ⊆ old') (h : Kept old F G) (k : Kept old' G H) :
    Kept old F H := by
  intro s x y hy hc
  obtain ⟨-, hg, hlatest⟩ := k s x y (hold hy) hc
  obtain ⟨hx, hf, hlatest'⟩ := h s x y hy hg
  exact ⟨hx, hf, hlatest.trans hlatest'⟩

theorem Kept.below (h : Kept old F G) (hz : z ∈ old) (hb : G.Below y z) :
    y ∈ old ∧ F.Below y z := by
  induction hb using ReflTransGen.head_induction_on with
  | refl => exact ⟨hz, .refl⟩
  | head hl _ ih =>
    obtain ⟨s, hs⟩ := hl
    obtain ⟨hx, hf, -⟩ := h s _ _ ih.1 hs
    exact ⟨hx, .head ⟨s, hf⟩ ih.2⟩

/-- An old node stays placed. -/
theorem Placed.kept (hp : F.Placed z) (h : Kept old F G) (hz : z ∈ old) : G.Placed z := by
  intro s x y d hc hb hd
  obtain ⟨hy, hf⟩ := h.below hz hb
  obtain ⟨-, hc', hlatest⟩ := h s x y hy hc
  exact hp s x y d hc' hf (hlatest ▸ hd)

theorem Unlinked.kept (hu : F.Unlinked z) (h : Kept old F G) (hz : z ∈ old) : G.Unlinked z :=
  fun s x hc => hu s x (h s x z hz hc).2.1

/-- Old nodes are the only ones with children or decisions, and these are old too. -/
structure Closed (old : Set ν) (F : Forest ν) : Prop where
  parent : ∀ s x y, F.child s x = some y → x ∈ old
  child : ∀ s x y, F.child s x = some y → y ∈ old

theorem Kept.refl (h : Closed old F) : Kept old F F :=
  fun s x y _ hc => ⟨h.parent s x y hc, hc, rfl⟩

/-- The decision `d` on `x` gives it the children `new`. -/
structure Decides (old : Set ν) (x : ν) (d : Bool) (new : Bool → ν) (F G : Forest ν) : Prop where
  child : ∀ s, G.child s x = some (new s)
  latest : G.latest x = some d
  others : ∀ y, y ≠ x → (∀ s, G.child s y = F.child s y) ∧ G.latest y = F.latest y
  fresh : ∀ s, new s ∉ old
  distinct : ∀ s t, new s = new t → s = t

variable {d : Bool} {new : Bool → ν}

/-- Only `x` has a new child. -/
theorem Decides.parent (h : Decides old x d new F G) (hF : Closed old F) {s t : Bool}
    (hc : G.child t y = some (new s)) : y = x ∧ t = s := by
  by_cases hy : y = x
  · subst hy
    rw [h.child t, Option.some.injEq] at hc
    exact ⟨rfl, h.distinct t s hc⟩
  · rw [(h.others y hy).1 t] at hc
    exact absurd (hF.child t y _ hc) (h.fresh s)

theorem Decides.kept (h : Decides old x d new F G) (hF : Closed old F) : Kept old F G := by
  intro s y z hz hc
  by_cases hy : y = x
  · subst hy
    rw [h.child s, Option.some.injEq] at hc
    exact absurd (hc ▸ hz) (h.fresh s)
  · obtain ⟨hchild, hlatest⟩ := h.others y hy
    rw [hchild s] at hc
    exact ⟨hF.parent s y z hc, hc, hlatest⟩

/-- The child on the side of the decision is placed if the node was. -/
theorem Decides.placed (h : Decides old x d new F G) (hF : Closed old F) (hx : x ∈ old)
    (hp : F.Placed x) : G.Placed (new d) := by
  intro s y z e hc hb he
  rcases hb.cases_tail with heq | ⟨w, hb', t, ht⟩
  · obtain ⟨rfl, rfl⟩ := h.parent hF (heq ▸ hc)
    have hd := h.latest
    rw [he, Option.some.injEq] at hd
    exact hd
  · obtain ⟨rfl, rfl⟩ := h.parent hF ht
    have hk := h.kept hF
    obtain ⟨hz, hbelow⟩ := hk.below hx hb'
    obtain ⟨-, hc', hlatest⟩ := hk s y z hz hc
    exact hp s y z e hc' hbelow (hlatest ▸ he)

end Forest

end EcaEngines.Decisions
