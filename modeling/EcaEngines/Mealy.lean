import EcaEngines.Reactive

/-!
# Machines with modes

A machine over modes presents a reactive system if every state is in a mode that
answers each input as the state does. Then the system behaves as the machine: states
are told apart by the words that tell their modes apart, and a word that takes every
mode to the same one makes the system forget what came before.
-/
namespace EcaEngines.Mealy
open Reactive

variable {σ τ μ ι κ ω : Type}

/-- Every word is answered alike. -/
def Alike (step : System σ ι ω) (step' : System τ ι ω) (s : σ) (t : τ) : Prop :=
  ∀ is, responses step s is = responses step' t is

/-- The words of `tests` tell any two modes apart. -/
def Characterizes (machine : System μ κ ω) (tests : List (List κ)) : Prop :=
  ∀ m n, (∀ is ∈ tests, responses machine m is = responses machine n is) → m = n

/-- The word takes every mode to `m`. -/
def Synchronizes (machine : System μ κ ω) (word : List κ) (m : μ) : Prop :=
  ∀ n, after machine n word = m

/-- Nothing leaves `m`, and nothing is answered there but `r`. -/
def Absorbs (machine : System μ κ ω) (m : μ) (r : ω) : Prop := ∀ i, machine m i = (r, m)

theorem Absorbs.after {machine : System μ κ ω} {m : μ} {r : ω} (h : Absorbs machine m r)
    (is : List κ) : after machine m is = m := by
  induction is with
  | nil => rfl
  | cons i is ih => rw [after_cons, h i, ih]

theorem Absorbs.responses {machine : System μ κ ω} {m : μ} {r : ω} (h : Absorbs machine m r)
    (is : List κ) : responses machine m is = is.map fun _ => r := by
  induction is with
  | nil => rfl
  | cons i is ih => rw [responses_cons, h i, ih, List.map_cons]

/-- States in a mode answer as the mode does, and pass to states in the next mode. -/
structure Presents (machine : System μ κ ω) (letter : ι → κ) (step : System σ ι ω)
    (In : μ → σ → Prop) : Prop where
  response : ∀ {m s} i, In m s → (step s i).1 = (machine m (letter i)).1
  next : ∀ {m s} i, In m s → In (machine m (letter i)).2 (step s i).2

section
variable {machine : System μ κ ω} {letter : ι → κ} {step : System σ ι ω} {In : μ → σ → Prop}
variable {step' : System τ ι ω} {In' : μ → τ → Prop} {s : σ} {t : τ} {m n : μ}

theorem Presents.run (h : Presents machine letter step In) (hs : In m s) (is : List ι) :
    responses step s is = responses machine m (is.map letter) ∧
      In (after machine m (is.map letter)) (after step s is) := by
  induction is generalizing s m with
  | nil => exact ⟨rfl, hs⟩
  | cons i is ih =>
    obtain ⟨hr, ha⟩ := ih (h.next i hs)
    rw [List.map_cons, responses_cons, responses_cons, h.response i hs, hr]
    exact ⟨rfl, ha⟩

theorem Presents.alike (h : Presents machine letter step In)
    (h' : Presents machine letter step' In') (hs : In m s) (ht : In' m t) :
    Alike step step' s t := fun is => by rw [(h.run hs is).1, (h'.run ht is).1]

/-- States are alike exactly in the same mode, and the tests find that out. -/
theorem Presents.alike_iff (h : Presents machine letter step In)
    (h' : Presents machine letter step' In') {tests : List (List ι)}
    (hc : Characterizes machine (tests.map (List.map letter))) (hs : In m s) (ht : In' n t) :
    (Alike step step' s t ↔ m = n) ∧
      ((∀ is ∈ tests, responses step s is = responses step' t is) ↔ m = n) := by
  have htests (hall : ∀ is ∈ tests, responses step s is = responses step' t is) : m = n := by
    refine hc m n fun js hjs => ?_
    obtain ⟨is, his, rfl⟩ := List.mem_map.mp hjs
    rw [← (h.run hs is).1, ← (h'.run ht is).1, hall is his]
  refine ⟨⟨fun ha => htests fun is _ => ha is, ?_⟩, ⟨htests, ?_⟩⟩
  · rintro rfl
    exact h.alike h' hs ht
  · rintro rfl is -
    exact h.alike h' hs ht is

/-- After a synchronizing word the states of both systems are alike. -/
theorem Presents.synchronized (h : Presents machine letter step In)
    (h' : Presents machine letter step' In') {word : List ι} {m₀ : μ}
    (hw : Synchronizes machine (word.map letter) m₀) (hs : In m s) (ht : In' n t) :
    In m₀ (after step s word) ∧ Alike step step' (after step s word) (after step' t word) := by
  have hm := (h.run hs word).2
  have hn := (h'.run ht word).2
  rw [hw] at hm hn
  exact ⟨hm, h.alike h' hm hn⟩

/-- Nothing gets a state out of an absorbing mode. -/
theorem Presents.absorbed (h : Presents machine letter step In) {r : ω} (ha : Absorbs machine m r)
    (hs : In m s) (is : List ι) :
    responses step s is = is.map (fun _ => r) ∧ In m (after step s is) := by
  obtain ⟨hr, hin⟩ := h.run hs is
  rw [ha.responses, List.map_map] at hr
  rw [ha.after] at hin
  exact ⟨hr, hin⟩

end

end EcaEngines.Mealy
