import EcaEngines.Calls
import EcaEngines.Experiments

/-!
# The modes of the recording engine

After a reset the engine of `Ass1Redo/T1Final` is a machine of the same eight modes,
with two differences. Inputs without a transition are rejected in two modes only and
pass unnoticed in the others, and the mode above 100 is never left: there the engine
neither prints nor throws.
-/
namespace EcaEngines.Silence
open Imperative Reactive Mealy Dispatch Transitions Modes Recording Effects Simulation
open DirectFinal Lookups Calls
open Original (Vars Reply)

variable {u v w : World}

def machine : System Mode String Reply
  | .m8, _ => (⟨[], false⟩, .m8)
  | m, i =>
    match next m i with
    | some (word, m') => (⟨[word], false⟩, m')
    | none => (⟨[], m.region = .upper⟩, m)

theorem machine_of_ne {m : Mode} (hm : m ≠ .m8) (i : String) : machine m i =
    match next m i with
    | some (word, m') => (⟨[word], false⟩, m')
    | none => (⟨[], m.region = .upper⟩, m) := by
  cases m <;> first | exact absurd rfl hm | rfl

theorem machine_absorbs : Absorbs machine .m8 ⟨[], false⟩ := fun _ => rfl

theorem machine_characterized : Characterizes machine Experiments.experiments := by
  intro m n h
  have h₁ := h _ (List.mem_cons_self ..)
  have h₂ := h _ (List.mem_cons_of_mem _ (List.mem_cons_self ..))
  revert h₁ h₂
  cases m <;> cases n <;> decide

/-- What a caller sees of a call that catches the exception. -/
def replied : System World (String × Heap) Reply := fun w c =>
  let r := heard w c
  (.of r.1.1 r.1.2.1, r.2)

/-- A world in a mode. -/
structure In (m : Mode) (w : World) : Prop where
  valid : Valid w
  inv : Inv m w.view

theorem In.modeOf {m : Mode} (h : In m w) : modeOf w.view = some m :=
  modeOf_eq_some_iff.mpr h.inv.guard

/-- The answer of the engine in a mode. -/
theorem answer_of_inv {m : Mode} {v : Vars} (h : Inv m v) (letter : String) :
    Reply.of (answer v letter).1 (answer v letter).2.1 = (machine m letter).1 ∧
      Inv (machine m letter).2 (answer v letter).2.2 := by
  have hholds (r : Region) : r.Holds cuts v.a2108127495 ↔ r = m.region :=
    Region.holds_iff (by decide) h.guard.1
  have htaken : taken v letter = if m.region = .high then none else find letter m := by
    simp only [taken, hholds, fired_of_guard h.guard, eq_comm]
  by_cases hm : m = .m8
  · subst hm
    have hnone : taken v letter = none := htaken
    have hupper : ¬ Region.upper.Holds cuts v.a2108127495 := fun hu => by
      cases (hholds .upper).mp hu
    simp only [answer, hnone, if_neg hupper]
    exact ⟨rfl, h⟩
  · have hhigh : m.region ≠ .high := by cases m <;> first | exact absurd rfl hm | decide
    rw [if_neg hhigh] at htaken
    rw [machine_of_ne hm, next_eq, answer, htaken]
    cases hf : find letter m with
    | none =>
      refine ⟨?_, h⟩
      by_cases hu : m.region = .upper
      · simp [Reply.of, (hholds .upper).mpr hu.symm, hu]
        rfl
      · simp [Reply.of, mt (hholds .upper).mp (Ne.symm hu), hu]
        rfl
    | some t =>
      obtain ⟨rfl, -⟩ := find_eq_some_iff.mp hf
      exact ⟨rfl, (safe t h).1⟩

theorem replied_presented : Presents machine Prod.fst replied In where
  response {m w} c h := by
    obtain ⟨letter, heap⟩ := c
    obtain ⟨hanswer, -, -⟩ := heard_spec h.valid letter heap
    have hreply : (replied w (letter, heap)).1 =
        .of (heard w (letter, heap)).1.1 (heard w (letter, heap)).1.2.1 := rfl
    rw [hreply, hanswer]
    exact (answer_of_inv h.inv letter).1
  next {m w} c h := by
    obtain ⟨letter, heap⟩ := c
    obtain ⟨-, hvalid, hview⟩ := heard_spec h.valid letter heap
    exact ⟨hvalid, hview ▸ (answer_of_inv h.inv letter).2⟩

theorem in_reset (w : World) : In .m4 (exec reset w).2 := by
  obtain ⟨hvalid, hview⟩ := reset_ready w
  exact ⟨hvalid, hview ▸ inv_start⟩

/-- After `reset()` the engine is the machine, whatever branch sets are passed. -/
theorem replied_mealy (w : World) (calls : List (String × Heap)) :
    responses replied (exec reset w).2 calls = responses machine .m4 (calls.map Prod.fst) ∧
      modeOf (after replied (exec reset w).2 calls).view =
        some (after machine .m4 (calls.map Prod.fst)) := by
  obtain ⟨hr, hin⟩ := replied_presented.run (in_reset w) calls
  exact ⟨hr, hin.modeOf⟩

theorem map_fst_heaped (h : Heap) (is : List String) :
    (is.map fun i => (i, h)).map Prod.fst = is := by
  rw [List.map_map]
  exact List.map_id is

/-- The experiments with a branch set for every call. -/
theorem experiments_characterize (h : Heap) :
    Characterizes machine
      ((Experiments.experiments.map (List.map fun i => (i, h))).map (List.map Prod.fst)) := by
  have hmap := List.map_congr_left fun is (_ : is ∈ Experiments.experiments) => map_fst_heaped h is
  rw [List.map_map, Function.comp_def, hmap, List.map_id']
  exact machine_characterized

/-- After a reset two engines that were used in any way, with any branch sets, answer
every later word alike exactly if they are in the same mode. -/
theorem replied_alike_iff (u w : World) (is js : List (String × Heap)) :
    let s := after replied (exec reset u).2 is
    let t := after replied (exec reset w).2 js
    Alike replied replied s t ↔ modeOf s.view = modeOf t.view := by
  intro s t
  have hs := (replied_presented.run (in_reset u) is).2
  have ht := (replied_presented.run (in_reset w) js).2
  rw [hs.modeOf, ht.modeOf, Option.some.injEq]
  exact (replied_presented.alike_iff replied_presented (experiments_characterize Heap.single)
    hs ht).1

theorem view_of_silent {c : String × Heap} (h : In .m8 w) : (replied w c).2.view = w.view := by
  obtain ⟨letter, heap⟩ := c
  obtain ⟨-, -, hview⟩ := heard_spec h.valid letter heap
  have hnone : taken w.view letter = none := if_pos h.inv.guard.1
  have hanswer : (answer w.view letter).2.2 = w.view := by
    rw [answer, hnone]
  exact hview.trans hanswer

theorem after_silent (h : In .m8 w) (calls : List (String × Heap)) :
    (after replied w calls).view = w.view := by
  induction calls generalizing w with
  | nil => rfl
  | cons c calls ih =>
    rw [after_cons, ih (replied_presented.next c h), view_of_silent h]

/-- Once above 100 the engine neither prints nor throws, and no variable changes. -/
theorem silent_forever (w : World) (calls rest : List (String × Heap))
    (h : modeOf (after replied (exec reset w).2 calls).view = some .m8) :
    let u := after replied (exec reset w).2 calls
    responses replied u rest = rest.map (fun _ => ⟨[], false⟩) ∧
      (after replied u rest).view = u.view := by
  intro u
  obtain ⟨-, hin⟩ := replied_presented.run (in_reset w) calls
  have hm : after machine .m4 (calls.map Prod.fst) = .m8 :=
    Option.some.inj (hin.modeOf.symm.trans h)
  rw [hm] at hin
  exact ⟨(replied_presented.absorbed machine_absorbs hin rest).1, after_silent hin rest⟩

/-- A word that takes every mode there. -/
def quieting : List String :=
  ["usr4_ai1_VoidReply", "ai1_ce2", "usr4_ai1_VoidReply", "usr2_ai1_VoidReply", "ai1_ce1",
    "usr4_ni1_ne1"]

theorem machine_quieted : Synchronizes machine quieting .m8 := by
  intro m
  cases m <;> decide

/-- Some calls take the engine to one mode from wherever it is exactly if that is the
mode above 100. No sequence of calls has the effect of a reset. -/
theorem exists_homing_iff (w : World) (m : Mode) :
    (∃ calls, ∀ before,
      modeOf (after replied (after replied (exec reset w).2 before) calls).view = some m) ↔
        m = .m8 := by
  constructor
  · rintro ⟨calls, h⟩
    let before := ["ai1_ce1", "usr4_ni1_ne1"].map fun i => (i, Heap.single)
    have hin := (replied_presented.run (in_reset w) before).2
    rw [map_fst_heaped, show after machine .m4 ["ai1_ce1", "usr4_ni1_ne1"] = .m8 by decide] at hin
    have hcalls := (replied_presented.absorbed machine_absorbs hin calls).2
    exact Option.some.inj ((h before).symm.trans hcalls.modeOf)
  · rintro rfl
    refine ⟨quieting.map fun i => (i, Heap.single), fun before => ?_⟩
    have hin := (replied_presented.run (in_reset w) before).2
    have hquiet := (replied_presented.run hin (quieting.map fun i => (i, Heap.single))).2
    rw [map_fst_heaped, machine_quieted] at hquiet
    exact hquiet.modeOf

/-- In no state, reachable or not, is the word of the method above 100 printed. -/
theorem heard_words (hw : Valid w) (letter : String) (h : Heap) :
    "ni1_ne1__ai1_VoidReply" ∉ (heard w (letter, h)).1.2.1 := by
  rw [(heard_spec hw letter h).1, answer]
  cases ht : taken w.view letter with
  | none => exact List.not_mem_nil
  | some t =>
    have hlow : ¬ Region.high.Holds cuts w.view.a2108127495 := fun hh => by
      rw [taken, if_pos hh] at ht
      cases ht
    have hfired : fired w.view letter = some t := by rwa [taken, if_neg hlow] at ht
    obtain ⟨m, hm, hfind⟩ := Option.bind_eq_some_iff.mp hfired
    obtain ⟨rfl, -⟩ := find_eq_some_iff.mp hfind
    change "ni1_ne1__ai1_VoidReply" ∉ [t.word]
    rw [List.mem_singleton]
    cases t <;> first | exact absurd (modeOf_eq_some_iff.mp hm).1 hlow | decide

/-- The two inputs that lead there, and one more. -/
theorem silent_forever_start :
    let calls := [("ai1_ce1", Heap.single), ("usr4_ni1_ne1", Heap.single)]
    responses replied (after replied (exec reset Runs.start).2 calls)
      [("usr4_ai1_VoidReply", Heap.single)] = [⟨[], false⟩] := by
  refine (silent_forever Runs.start _ [("usr4_ai1_VoidReply", Heap.single)] ?_).1
  exact (replied_presented.run (in_reset Runs.start) _).2.modeOf.trans (by decide)

end EcaEngines.Silence
