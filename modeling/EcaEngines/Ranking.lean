import Mathlib.Data.List.Nodup
import Mathlib.Data.List.Pairwise

/-!
# Positions from the end

The position of an element in a list sorted by a strict order can be told from any arrangement of
the list: it is the number of elements that come after it. So a segment of the sorted list can be
described without sorting.
-/
namespace EcaEngines.Ranking

variable {α : Type} {r : α → α → Prop} [DecidableRel r]

/-- The number of elements of the list that come after `a`. -/
def followers (r : α → α → Prop) [DecidableRel r] (l : List α) (a : α) : ℕ := l.countP (r a ·)

theorem followers_perm {l l' : List α} (h : l.Perm l') (a : α) :
    followers r l a = followers r l' a := h.countP_eq _

section
variable (hr : ∀ a b, r a b → ¬ r b a)
include hr

theorem followers_of_pairwise {pre post : List α} {a : α} (h : (pre ++ a :: post).Pairwise r) :
    followers r (pre ++ a :: post) a = post.length := by
  obtain ⟨-, htail, hcross⟩ := List.pairwise_append.mp h
  have hpre : pre.countP (r a ·) = 0 := by
    rw [List.countP_eq_zero]
    intro b hb hab
    exact hr b a (hcross b hb a List.mem_cons_self) (of_decide_eq_true hab)
  have hpost : post.countP (r a ·) = post.length := by
    rw [List.countP_eq_length]
    intro b hb
    exact decide_eq_true (List.rel_of_pairwise_cons htail hb)
  have hself : ¬ r a a := fun haa => hr a a haa haa
  unfold followers
  rw [List.countP_append, List.countP_cons, hpre, hpost]
  simp [hself]

variable {A W B : List α} {a : α}

/-- A segment consists of the elements with the right number of followers. -/
theorem mem_segment_iff (h : (A ++ W ++ B).Pairwise r) (ha : a ∈ A ++ W ++ B) :
    a ∈ W ↔ B.length ≤ followers r (A ++ W ++ B) a ∧
      followers r (A ++ W ++ B) a < W.length + B.length := by
  have hcount (pre post : List α) (he : A ++ W ++ B = pre ++ a :: post) :
      followers r (A ++ W ++ B) a = post.length := by
    rw [he] at h ⊢
    exact followers_of_pairwise hr h
  constructor
  · intro hW
    obtain ⟨p, q, rfl⟩ := List.append_of_mem hW
    have hc := hcount (A ++ p) (q ++ B) (by simp)
    rw [hc]
    simp only [List.length_append, List.length_cons]
    omega
  · rintro ⟨hle, hlt⟩
    simp only [List.mem_append] at ha
    obtain (hA | hW) | hB := ha
    · obtain ⟨p, q, rfl⟩ := List.append_of_mem hA
      have hc := hcount p (q ++ W ++ B) (by simp)
      rw [hc] at hlt
      simp only [List.length_append] at hlt
      omega
    · exact hW
    · obtain ⟨p, q, rfl⟩ := List.append_of_mem hB
      have hc := hcount (A ++ W ++ p) q (by simp)
      rw [hc] at hle
      simp only [List.length_append, List.length_cons] at hle
      omega

omit [DecidableRel r] in
/-- A segment ascends and is nowhere exceeded from outside if no element exceeds another of the
segment, except a later one of the segment itself. -/
theorem ascending_iff (h : (A ++ W ++ B).Pairwise r) (d : α → ℕ) :
    (W.Pairwise (fun a b => d a ≤ d b) ∧ ∀ a ∈ A ++ B, ∀ b ∈ W, d a ≤ d b) ↔
      ∀ a ∈ A ++ W ++ B, ∀ b ∈ W, (a ∈ W → r a b) → d a ≤ d b := by
  obtain ⟨hAW, -, hB⟩ := List.pairwise_append.mp h
  obtain ⟨-, hW, hA⟩ := List.pairwise_append.mp hAW
  constructor
  · rintro ⟨hd, hout⟩ a ha b hb hab
    by_cases haW : a ∈ W
    · have hboth : W.Pairwise fun a b => (r a b → d a ≤ d b) ∧ (r b a → d b ≤ d a) :=
        hW.imp₂ (fun a b hab hle => ⟨fun _ => hle, fun hba => absurd hba (hr a b hab)⟩) hd
      have hsymm : Std.Symm fun a b => (r a b → d a ≤ d b) ∧ (r b a → d b ≤ d a) :=
        ⟨fun _ _ h => ⟨h.2, h.1⟩⟩
      have hself : ∀ a ∈ W, (r a a → d a ≤ d a) ∧ (r a a → d a ≤ d a) :=
        fun _ _ => ⟨fun _ => Nat.le_refl _, fun _ => Nat.le_refl _⟩
      have hall := List.Pairwise.forall_of_forall hself hboth haW hb
      exact hall.1 (hab haW)
    · simp only [List.mem_append] at ha
      obtain (hA' | hW') | hB' := ha
      · exact hout a (List.mem_append_left _ hA') b hb
      · exact absurd hW' haW
      · exact hout a (List.mem_append_right _ hB') b hb
  · intro hall
    refine ⟨hW.imp_of_mem fun ha hb hab => ?_, fun a ha b hb => ?_⟩
    · exact hall _ (List.mem_append_left _ (List.mem_append_right _ ha)) _ hb fun _ => hab
    · have haW : a ∉ W := by
        intro haW
        obtain hA' | hB' := List.mem_append.mp ha
        · exact hr a a (hA a hA' a haW) (hA a hA' a haW)
        · have haa := hB a (List.mem_append_right _ haW) a hB'
          exact hr a a haa haa
      refine hall a ?_ b hb fun haW' => absurd haW' haW
      obtain hA' | hB' := List.mem_append.mp ha
      · exact List.mem_append_left _ (List.mem_append_left _ hA')
      · exact List.mem_append_right _ hB'

end

/-- Equal elements keep their order: before `b` are the smaller ones, and the equal ones that
stood before it. -/
def Before (f : α → ℕ) (a b : α × ℕ) : Prop := f b.1 < f a.1 ∨ f a.1 = f b.1 ∧ a.2 < b.2

instance (f : α → ℕ) : DecidableRel (Before f) := fun a b =>
  inferInstanceAs (Decidable (f b.1 < f a.1 ∨ f a.1 = f b.1 ∧ a.2 < b.2))

theorem before_asymm (f : α → ℕ) (a b : α × ℕ) (h : Before f a b) : ¬ Before f b a := by
  unfold Before at *
  omega

/-- The stable sort of a list, its elements with their positions. -/
theorem exists_sorted (f : α → ℕ) (l : List α) :
    ∃ m : List (α × ℕ), m.Perm l.zipIdx ∧ m.Pairwise (Before f) ∧
      m.map Prod.fst = l.mergeSort fun a b => decide (f b ≤ f a) := by
  have htrans (a b c : α) (hab : decide (f b ≤ f a)) (hbc : decide (f c ≤ f b)) :
      decide (f c ≤ f a) := by
    simp only [decide_eq_true_eq] at *
    omega
  have htotal (a b : α) : decide (f b ≤ f a) || decide (f a ≤ f b) := by
    simp only [Bool.or_eq_true, decide_eq_true_eq]
    omega
  refine ⟨l.zipIdx.mergeSort (List.zipIdxLE fun a b => decide (f b ≤ f a)),
    List.mergeSort_perm _ _, ?_, List.mergeSort_zipIdx⟩
  have hperm := List.mergeSort_perm l.zipIdx (List.zipIdxLE fun a b => decide (f b ≤ f a))
  have hsorted := List.pairwise_mergeSort (List.zipIdxLE_trans htrans)
    (List.zipIdxLE_total htotal) l.zipIdx
  have hnodup : (l.zipIdx.map Prod.snd).Nodup := by
    rw [List.zipIdx_map_snd]
    exact List.nodup_range'
  have hne := List.pairwise_map.mp ((hperm.map Prod.snd).nodup_iff.mpr hnodup)
  refine hsorted.imp₂ (fun a b hle hne => ?_) hne
  unfold Before
  simp only [List.zipIdxLE] at hle
  split_ifs at hle with h₁ h₂ <;> simp only [decide_eq_true_eq] at *
  all_goals omega

end EcaEngines.Ranking
