import EcaEngines.Loops

/-!
# What only grows

While inputs are processed an object keeps its class, a string its word and its name, and a
set its branches, in their order, with new ones at the end. So do the branches made.
-/
namespace EcaEngines.Growth
open Imperative Recording Effects DirectFinal
open BranchSet (getLeftSet getRightSet make deref addBranch addLeftSet addRightSet)
open Original (Throwable noTransition)
open Transitions (Transition)

variable {u v w : World}

structure Grows (u v : World) : Prop where
  next : u.next ≤ v.next
  nextSet : u.nextSet ≤ v.nextSet
  classes : ∀ r, Owned u r → v.classes r = u.classes r
  val : ∀ r, Owned u r → (v.strings r).val = (u.strings r).val
  varName : ∀ r, Owned u r → (v.strings r).varName = (u.strings r).varName
  members : ∀ y < u.nextSet, members u y <+: members v y
  made : u.made <+: v.made

theorem Grows.refl (w : World) : Grows w w :=
  ⟨le_refl _, le_refl _, fun _ _ => rfl, fun _ _ => rfl, fun _ _ => rfl,
    fun _ _ => List.prefix_refl _, List.prefix_refl _⟩

theorem Grows.trans (h : Grows u v) (k : Grows v w) : Grows u w where
  next := h.next.trans k.next
  nextSet := h.nextSet.trans k.nextSet
  classes r hr := (k.classes r (hr.mono h.next)).trans (h.classes r hr)
  val r hr := (k.val r (hr.mono h.next)).trans (h.val r hr)
  varName r hr := (k.varName r (hr.mono h.next)).trans (h.varName r hr)
  members y hy := (h.members y hy).trans (k.members y (hy.trans_le h.nextSet))
  made := h.made.trans k.made

/-- Wherever the program ends. -/
abbrev Growing {α : Type} (p : Prog α) : Prop := Moves Grows (fun _ => False) p

section
variable {α β : Type} {p : Prog α} {k : α → Prog β} {c : Prog Bool} {q : Prog Unit}

end

end EcaEngines.Growth
