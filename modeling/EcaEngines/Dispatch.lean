import EcaEngines.FirstMatch
import Mathlib.Order.Basic

/-!
# The control structure of the engines

Every version of the machine, in Java and in C, tests four regions of one
variable in turn, and inside a region the conditions of the methods that belong
to it. A method is called a mode here. If the guards exclude each other the
nested search is a lookup of the mode.
-/
namespace EcaEngines.Dispatch
open Imperative FirstMatch

/-- The methods `calculateOutputm1` to `calculateOutputm8`. -/
inductive Mode where
  | m1 | m2 | m3 | m4 | m5 | m6 | m7 | m8
deriving DecidableEq, Repr

/-- The four regions of the variable tested first. -/
inductive Region where
  | low | middle | upper | high
deriving DecidableEq, Repr

/-- Where one region ends and the next begins. -/
structure Cuts where
  low : Int32
  middle : Int32
  upper : Int32

def Cuts.Ordered (c : Cuts) : Prop := c.low.toInt ≤ c.middle.toInt ∧ c.middle.toInt ≤ c.upper.toInt

instance (c : Cuts) : Decidable c.Ordered := inferInstanceAs (Decidable (_ ∧ _))

def Region.Holds (c : Cuts) : Region → Int32 → Prop
  | .low, a => a ≤ c.low
  | .middle, a => c.low < a ∧ a ≤ c.middle
  | .upper, a => c.middle < a ∧ a ≤ c.upper
  | .high, a => c.upper < a

def Mode.region : Mode → Region
  | .m1 => .low
  | .m2 | .m3 | .m4 | .m5 => .middle
  | .m6 | .m7 => .upper
  | .m8 => .high

instance (c : Cuts) : ∀ (r : Region) (a : Int32), Decidable (r.Holds c a)
  | .low, a => inferInstanceAs (Decidable (a ≤ c.low))
  | .middle, a => inferInstanceAs (Decidable (c.low < a ∧ a ≤ c.middle))
  | .upper, a => inferInstanceAs (Decidable (c.middle < a ∧ a ≤ c.upper))
  | .high, a => inferInstanceAs (Decidable (c.upper < a))

/-- The regions exclude each other. -/
theorem Region.holds_iff {c : Cuts} (hc : c.Ordered) {r r' : Region} {a : Int32}
    (h : r.Holds c a) : r'.Holds c a ↔ r' = r := by
  obtain ⟨h₁, h₂⟩ := hc
  constructor
  · intro h'
    cases r <;> cases r' <;>
      simp only [Region.Holds, Int32.le_iff_toInt_le, Int32.lt_iff_toInt_lt] at h h' <;>
      first | rfl | omega
  · rintro rfl
    exact h

section
variable {τ : Type} (holds : Region → Prop) [DecidablePred holds]
  (side : Mode → Prop) [DecidablePred side] (find : Mode → Option τ)

/-- The row of a mode. -/
def row (m : Mode) : Option τ := if side m then find m else none

/-- What the nested tests find, in their order. -/
def search : Option τ :=
  (inRegion .low (row side find .m1)).or
    ((inRegion .middle ((row side find .m2).or ((row side find .m3).or
      ((row side find .m4).or (row side find .m5))))).or
      ((inRegion .upper ((row side find .m6).or (row side find .m7))).or
        ((inRegion .high (row side find .m8)).or none)))
where
  inRegion (r : Region) (o : Option τ) : Option τ := if holds r then o else none

variable {holds side find}

theorem search_of_guard {m : Mode} (hr : ∀ r, holds r ↔ r = m.region)
    (hs : ∀ n : Mode, n.region = m.region → (side n ↔ n = m)) :
    search holds side find = find m := by
  have hrow (n : Mode) (hn : n.region = m.region) :
      row side find n = if n = m then find n else none := by
    unfold row
    simp only [hs n hn]
  unfold search search.inRegion
  simp only [hr]
  cases m <;> simp only [Mode.region] at hrow <;> simp [Mode.region, hrow]

theorem search_of_none (h : ∀ m : Mode, ¬ (holds m.region ∧ side m)) :
    search holds side find = none := by
  have hrow (m : Mode) (hm : holds m.region) : row side find m = none :=
    if_neg fun hs => h m ⟨hm, hs⟩
  have hsplit (r : Region) (o : Option τ) (ho : holds r → o = none) :
      search.inRegion holds r o = none := by
    unfold search.inRegion
    split_ifs with hr
    · exact ho hr
    · rfl
  unfold search
  rw [hsplit .low _ fun hr => hrow .m1 hr,
    hsplit .middle _ fun hr => by simp [hrow .m2 hr, hrow .m3 hr, hrow .m4 hr, hrow .m5 hr],
    hsplit .upper _ fun hr => by simp [hrow .m6 hr, hrow .m7 hr],
    hsplit .high _ fun hr => hrow .m8 hr]
  rfl

variable {χ σ : Type} {φ : Phases σ τ} {Q : Except χ Unit → σ → Prop}
  {low middle upper high : Imp χ σ Bool} {p₁ p₂ p₃ p₄ p₅ p₆ p₇ p₈ last : Imp χ σ Unit}

/-- The control structure itself, with the check that closes it as `last`. A
method matters only in the region that calls it. -/
theorem dispatch_ends (hlow : φ.Decides low (holds .low))
    (h₁ : holds .low → φ.Takes p₁ (row side find .m1))
    (hmiddle : φ.Decides middle (holds .middle))
    (h₂ : holds .middle → φ.Takes p₂ (row side find .m2))
    (h₃ : holds .middle → φ.Takes p₃ (row side find .m3))
    (h₄ : holds .middle → φ.Takes p₄ (row side find .m4))
    (h₅ : holds .middle → φ.Takes p₅ (row side find .m5))
    (hupper : φ.Decides upper (holds .upper))
    (h₆ : holds .upper → φ.Takes p₆ (row side find .m6))
    (h₇ : holds .upper → φ.Takes p₇ (row side find .m7))
    (hhigh : φ.Decides high (holds .high))
    (h₈ : holds .high → φ.Takes p₈ (row side find .m8)) (hlast : φ.Ends Q last none) :
    φ.Ends Q (do
      ifM low p₁
      ifM middle do
        p₂
        p₃
        p₄
        p₅
      ifM upper do
        p₆
        p₇
      ifM high p₈
      last) (search holds side find) :=
  (hlow.nest h₁).seq
    ((hmiddle.nest fun h => (h₂ h).seq ((h₃ h).seq ((h₄ h).seq (h₅ h)))).seq
      ((hupper.nest fun h => (h₆ h).seq (h₇ h)).seq ((hhigh.nest h₈).seq hlast)))

end

end EcaEngines.Dispatch
