import EcaEngines.Bodies
import EcaEngines.Decisions

/-!
# The tree of branch sets

The children of the branch sets and the latest decisions on them form a forest. A
condition of the engine takes a decision on one set, and a body changes no link.
So a program that works on one set and on sets it makes itself leaves the links
between all other sets as they were.
-/
namespace EcaEngines.Trees
open Imperative Recording Effects Operations Conditions Bodies Decisions

variable {u v w : World} {x y z l r : ℕ} {d : Bool}

/-- The left child is the one for success. -/
def forest (sets : ℕ → BranchSet) (latest : ℕ → Option Bool) : Forest ℕ where
  child s y := if s then (sets y).leftSet else (sets y).rightSet
  latest := latest

def tree (w : World) : Forest ℕ := forest w.sets w.latest

theorem forest_congr {s t : ℕ → BranchSet} (h : SameLinks s t) (latest : ℕ → Option Bool) :
    forest s latest = forest t latest := by
  unfold forest
  congr 1
  funext b y
  rw [(h y).1, (h y).2]

theorem tree_left (h : (w.sets x).leftSet = some l) : (tree w).child true x = some l := h

theorem tree_right (h : (w.sets x).rightSet = some r) : (tree w).child false x = some r := h

theorem tree_congr (hs : v.sets y = u.sets y) (s : Bool) :
    (tree v).child s y = (tree u).child s y := by
  simp only [tree, forest, hs]

theorem tree_new (h : w.sets y = .new) (s : Bool) : (tree w).child s y = none := by
  cases s <;> simp [tree, forest, h, BranchSet.new]

/-- The sets that have been made. -/
def existing (w : World) : Set ℕ := {y | y < w.nextSet}

/-- A world as a program can meet it: what exists refers to what exists. -/
structure Sound (w : World) : Prop where
  valid : Valid w
  closed : (tree w).Closed (existing w)
  branches : ∀ y, ∀ k ∈ members w y, k < w.made.length

/-- Of the sets that existed, only `x` may have changed. -/
structure Within (x : ℕ) (u v : World) : Prop where
  sound : Sound v
  objects : Extends u v
  nextSet : u.nextSet ≤ v.nextSet
  others : ∀ y < u.nextSet, y ≠ x → v.sets y = u.sets y ∧ v.latest y = u.latest y
  kept : Forest.Kept (existing u) (tree u) (tree v)
  branches : ∀ y, ∀ k ∈ members v y, k ∈ members u y ∨ u.made.length ≤ k
  instantiated : ∀ y < u.nextSet, (u.sets y).branches.isSome → (v.sets y).branches.isSome
  moments : u.moments <+: v.moments
  untainted : Untainted u → Untainted v

theorem existing_mono (h : u.nextSet ≤ v.nextSet) : existing u ⊆ existing v :=
  fun _ hy => lt_of_lt_of_le hy h

theorem Within.refl (hw : Sound w) (x : ℕ) : Within x w w where
  sound := hw
  objects := .refl w
  nextSet := le_refl _
  others _ _ _ := ⟨rfl, rfl⟩
  kept := .refl hw.closed
  branches _ _ := .inl
  instantiated _ _ := id
  moments := List.prefix_refl _
  untainted := id

/-- The second part may work on the same set or on a new one. -/
theorem Within.trans (h : Within x u v) (k : Within y v w) (hy : y = x ∨ u.nextSet ≤ y) :
    Within x u w where
  sound := k.sound
  objects := h.objects.trans k.objects
  nextSet := h.nextSet.trans k.nextSet
  others n hn hx := by
    have hv : n < v.nextSet := hn.trans_le h.nextSet
    have hne : n ≠ y := by omega
    obtain ⟨hs, hl⟩ := h.others n hn hx
    obtain ⟨hs', hl'⟩ := k.others n hv hne
    exact ⟨hs'.trans hs, hl'.trans hl⟩
  kept := h.kept.trans (existing_mono h.nextSet) k.kept
  branches n b hb := by
    have hlen := h.objects.made_length
    rcases k.branches n b hb with hb | hb
    · exact h.branches n b hb
    · exact .inr (by omega)
  instantiated n hn hx := k.instantiated n (hn.trans_le h.nextSet) (h.instantiated n hn hx)
  moments := h.moments.trans k.moments
  untainted hu := k.untainted (h.untainted hu)

theorem Within.plain (h : Within y u v) (hx : x < u.nextSet) (hne : x ≠ y) (hp : Plain u x) :
    Plain v x := hp.congr (h.others x hx hne).1 h.objects.made

/-- What only gives `x` new branches. -/
theorem within_of_notes (hu : Sound u) (h : Notes x u v) (hv : Valid v)
    (ht : Untainted u → Untainted v) : Within x u v := by
  have htree : tree v = tree u := by
    unfold tree
    rw [forest_congr h.links, h.latest]
  have hexisting : existing v = existing u := by
    unfold existing
    rw [h.nextSet]
  have hbranches (y : ℕ) (k : ℕ) (hk : k ∈ members v y) :
      k ∈ members u y ∨ (u.made.length ≤ k ∧ k < v.made.length) := by
    by_cases hy : y = x
    · subst hy
      exact h.branches k hk
    · rw [members, h.others y hy] at hk
      exact .inl hk
  obtain ⟨ms, hms, -⟩ := h.moments
  refine ⟨⟨hv, ?_, fun y k hk => ?_⟩, h.objects, h.nextSet.ge,
    fun y _ hy => ⟨h.others y hy, congrFun h.latest y⟩, ?_, fun y k hk => ?_, fun y _ hi => ?_,
    ⟨ms, hms.symm⟩, ht⟩
  · rw [htree, hexisting]
    exact hu.closed
  · have hlen := h.objects.made_length
    rcases hbranches y k hk with hk | hk
    · have hlt := hu.branches y k hk
      omega
    · exact hk.2
  · rw [htree]
    exact .refl hu.closed
  · exact (hbranches y k hk).imp id And.left
  · by_cases hy : y = x
    · subst hy
      exact h.instantiated hi
    · rwa [h.others y hy]

theorem tree_of_notes (h : Notes x u v) : tree v = tree u := by
  unfold tree
  rw [forest_congr h.links, h.latest]

theorem Sound.none (hu : Sound u) (hy : u.nextSet ≤ y) (s : Bool) : (tree u).child s y = none := by
  cases hc : (tree u).child s y with
  | none => rfl
  | some z => exact absurd (hu.closed.parent s y z hc) (Nat.not_lt.mpr hy)

theorem tested_child (hu : Sound u) (h : Tested x d l r u v) (hy : y ≠ x) (s : Bool) :
    (tree v).child s y = (tree u).child s y := by
  by_cases hlt : y < u.nextSet
  · exact tree_congr (h.others y hlt hy) s
  · by_cases hv : y < v.nextSet
    · rw [tree_new (h.fresh y (by omega) hv) s, hu.none (by omega) s]
    · exact tree_congr (h.beyond y (by omega) hy) s

theorem tested_decides (hu : Sound u) (h : Tested x d l r u v) :
    Forest.Decides (existing u) x d (fun s => if s then l else r) (tree u) (tree v) where
  child s := by
    cases s with
    | true => exact h.leftSet
    | false => exact h.rightSet
  latest := by
    change v.latest x = some d
    rw [h.latest, Function.update_self]
  others y hy := by
    refine ⟨tested_child hu h hy, ?_⟩
    change v.latest y = u.latest y
    rw [h.latest, Function.update_of_ne hy]
  fresh s hs := by
    have hl := h.left
    have hlr := h.order
    have hlt : (if s then l else r) < u.nextSet := hs
    cases s <;> simp only [if_true, Bool.false_eq_true, if_false] at hlt <;> omega
  distinct s t hst := by
    have hlr := h.order
    cases s <;> cases t <;> first | rfl | simp only [if_true, Bool.false_eq_true, if_false] at hst
    all_goals omega

/-- Only `x` has new branches. -/
theorem tested_branches (h : Tested x d l r u v) (hy : y ≠ x) {k : ℕ} (hk : k ∈ members v y) :
    k ∈ members u y := by
  have hsets : v.sets y = u.sets y ∨ v.sets y = .new := by
    by_cases hlt : y < u.nextSet
    · exact .inl (h.others y hlt hy)
    · by_cases hv : y < v.nextSet
      · exact .inr (h.fresh y (by omega) hv)
      · exact .inl (h.beyond y (by omega) hy)
  rcases hsets with hs | hs
  · rwa [members, hs] at hk
  · rw [members, hs] at hk
    exact absurd hk List.not_mem_nil

theorem tested_new_branches (h : Tested x d l r u v) {k : ℕ} (hk : k ∈ members v y) :
    k ∈ members u y ∨ (u.made.length ≤ k ∧ k < v.made.length) := by
  by_cases hy : y = x
  · subst hy
    exact h.branches k hk
  · exact .inl (tested_branches h hy hk)

theorem tested_nextSet (h : Tested x d l r u v) : u.nextSet ≤ v.nextSet := by
  have hl := h.left
  have hlr := h.order
  have hr := h.right
  omega

theorem tested_sound (hu : Sound u) (hx : x < u.nextSet) (h : Tested x d l r u v) : Sound v where
  valid := h.valid
  closed := by
    have hnext := tested_nextSet h
    have hlr := h.order
    have hr := h.right
    have hd := tested_decides hu h
    constructor
    · intro s y z hc
      by_cases hy : y = x
      · subst hy
        exact hx.trans_le hnext
      · rw [tested_child hu h hy] at hc
        exact existing_mono hnext (hu.closed.parent s y z hc)
    · intro s y z hc
      by_cases hy : y = x
      · subst hy
        rw [hd.child s, Option.some.injEq] at hc
        subst hc
        change (if s then l else r) < v.nextSet
        split_ifs <;> omega
      · rw [tested_child hu h hy] at hc
        exact existing_mono hnext (hu.closed.child s y z hc)
  branches y k hk := by
    have hlen := h.objects.made_length
    rcases tested_new_branches h hk with hk | hk
    · have hlt := hu.branches y k hk
      omega
    · exact hk.2

theorem tested_within (hu : Sound u) (hx : x < u.nextSet) (h : Tested x d l r u v) :
    Within x u v where
  sound := tested_sound hu hx h
  objects := h.objects
  nextSet := tested_nextSet h
  others y hy hne := by
    refine ⟨h.others y hy hne, ?_⟩
    rw [h.latest, Function.update_of_ne hne]
  kept := (tested_decides hu h).kept hu.closed
  branches y k hk := (tested_new_branches h hk).imp id And.left
  instantiated y hy hi := by
    by_cases hyx : y = x
    · subst hyx
      exact h.instantiated hi
    · rwa [h.others y hy hyx]
  moments := by
    obtain ⟨ms, hms, -⟩ := h.moments
    exact ⟨ms, hms.symm⟩
  untainted := h.untainted hu.valid

/-- Every branch added in between went to a set that was placed. -/
def Clean (u v : World) : Prop :=
  ∀ m ∈ entries u v, (forest m.sets m.latest).Placed m.set

theorem clean_append (h : u.moments <+: v.moments) (k : v.moments <+: w.moments) :
    Clean u w ↔ Clean u v ∧ Clean v w := by
  unfold Clean
  rw [entries_append h k]
  exact List.forall_mem_append

theorem clean_refl (w : World) : Clean w w := by
  intro m hm
  simp [entries] at hm

theorem placed_iff_of_at {m : Moment} (h : At x w m) :
    (forest m.sets m.latest).Placed m.set ↔ (tree w).Placed x := by
  rw [h.set, h.latest, forest_congr h.links]
  rfl

theorem clean_of_at {ms : List Moment} (hms : v.moments = u.moments ++ ms)
    (h : ∀ m ∈ ms, At x u m) (hp : (tree u).Placed x) : Clean u v := by
  intro m hm
  rw [entries, hms, List.drop_left] at hm
  exact (placed_iff_of_at (h m hm)).mpr hp

/-- A condition on `x` adds branches to `x`. -/
theorem clean_iff (h : Tested x d l r u v) (ha : Added x u v) :
    Clean u v ↔ (tree u).Placed x := by
  constructor
  · intro hc
    obtain ⟨m, hm, hat, -⟩ := ha
    exact (placed_iff_of_at hat).mp (hc m hm)
  · intro hp
    obtain ⟨ms, hms, hat⟩ := h.moments
    exact clean_of_at hms hat hp

/-- The `if` on `x` with the decision `d` is over, and its body worked on the new
children of `x`. -/
structure Passed (x : ℕ) (d : Bool) (l r : ℕ) (u v : World) : Prop extends Within x u v where
  left : (v.sets x).leftSet = some l
  right : (v.sets x).rightSet = some r
  latest : v.latest x = some d
  newLeft : u.nextSet ≤ l
  order : l < r
  newRight : r < v.nextSet
  placed : (tree u).Placed x → (tree v).Placed (if d then l else r)

theorem tested_passed (hu : Sound u) (hx : x < u.nextSet) (h : Tested x d l r u v) :
    Passed x d l r u v where
  toWithin := tested_within hu hx h
  left := h.leftSet
  right := h.rightSet
  latest := (tested_decides hu h).latest
  newLeft := h.left
  order := h.order
  newRight := h.right
  placed := (tested_decides hu h).placed hu.closed hx

/-- The body works on new sets. -/
theorem Passed.body (hx : x < u.nextSet) (h : Passed x d l r u v) (k : Within z v w)
    (hz : u.nextSet ≤ z) : Passed x d l r u w := by
  have hne : x ≠ z := by omega
  obtain ⟨hs, hlatest⟩ := k.others x (hx.trans_le h.nextSet) hne
  have hr : (if d then l else r) < v.nextSet := by
    have hlr := h.order
    have hlt := h.newRight
    split_ifs <;> omega
  exact ⟨h.toWithin.trans k (.inr hz), by rw [hs, h.left], by rw [hs, h.right],
    by rw [hlatest, h.latest], h.newLeft, h.order, h.newRight.trans_le k.nextSet,
    fun hp => (h.placed hp).kept k.kept hr⟩

/-- The right child is on the wrong side after a success. -/
theorem Passed.right_not_placed (h : Passed x true l r u v) : ¬ (tree v).Placed r := by
  intro hp
  have hside := hp.side (tree_right h.right) h.latest
  cases hside

/-- A branch was added to `x`, and is in no other set. -/
def Sole (x : ℕ) (u v : World) : Prop :=
  ∃ m ∈ entries u v, m.set = x ∧ m.branch < v.made.length ∧ ∀ y, m.branch ∈ members v y → y = x

theorem sole_of_added (hu : Sound u) (h : Tested x d l r u v) (ha : Added x u v) : Sole x u v := by
  obtain ⟨m, hm, hat, hold, hnew⟩ := ha
  refine ⟨m, hm, hat.set, hnew, fun y hy => ?_⟩
  by_contra hne
  have hlt := hu.branches y _ (tested_branches h hne hy)
  omega

theorem Sole.within (h : Sole x u v) (hp : u.moments <+: v.moments) (k : Within z v w) :
    Sole x u w := by
  obtain ⟨m, hm, hset, hlt, honly⟩ := h
  refine ⟨m, ?_, hset, hlt.trans_le k.objects.made_length, fun y hy => ?_⟩
  · rw [entries_append hp k.moments]
    exact List.mem_append_left _ hm
  · rcases k.branches y m.branch hy with hb | hb
    · exact honly y hb
    · omega

/-- A child that only `x` had is gone once `x` is decided. -/
theorem Passed.unlinked (h : Passed x d l r u v) (hz : z < u.nextSet)
    (honly : ∀ s y, (tree u).child s y = some z → y = x) : (tree v).Unlinked z := by
  intro s y hc
  obtain ⟨-, hu, -⟩ := h.kept s y z hz hc
  have hy := honly s y hu
  subst hy
  have hl := h.newLeft
  have hlr := h.order
  cases s with
  | true =>
    rw [tree_left h.left, Option.some.injEq] at hc
    omega
  | false =>
    rw [tree_right h.right, Option.some.injEq] at hc
    omega

/-- The branch `b` is in the set `s` only, and no set has the child `s`. -/
structure Lost (s b : ℕ) (w : World) : Prop where
  set : s < w.nextSet
  branch : b < w.made.length
  unlinked : (tree w).Unlinked s
  only : ∀ y, b ∈ members w y → y = s

theorem Lost.within {s b : ℕ} (h : Lost s b u) (k : Within x u v) : Lost s b v where
  set := h.set.trans_le k.nextSet
  branch := h.branch.trans_le k.objects.made_length
  unlinked := h.unlinked.kept k.kept h.set
  only y hy := by
    rcases k.branches y b hy with hb | hb
    · exact h.only y hb
    · exact absurd h.branch (Nat.not_lt.mpr hb)

end EcaEngines.Trees
