import EcaEngines.Mealy
import EcaEngines.TaskOne
import EcaEngines.Versions

/-!
# Experiments on the engines

The table of the modes is a machine that presents every engine. Two words are enough
to tell its eight modes apart, and a word of four inputs takes all of them to the mode
after `reset()`. So the modes are exactly what can be heard of the past of an engine.
-/
namespace EcaEngines.Experiments
open Reactive Mealy Dispatch Instrumented Transitions Modes Guards Engine Reachable
open Original (Reply)
open TaskOne (Program Command)

def machine : System Mode String Reply := fun m i =>
  match next m i with
  | some (word, m') => (⟨[word], false⟩, m')
  | none => (⟨[], true⟩, m)

/-- Two words whose answers tell the modes apart. -/
def experiments : List (List String) :=
  [["usr2_ai1_VoidReply"], ["usr4_ni1_ne1", "usr4_ai1_VoidReply"]]

/-- A word that takes every mode to the one after `reset()`. -/
def homing : List String :=
  ["usr4_ai1_VoidReply", "ai1_ce2", "usr4_ai1_VoidReply", "usr2_ai1_VoidReply"]

theorem machine_characterized : Characterizes machine experiments := by
  intro m n h
  have h₁ := h _ (List.mem_cons_self ..)
  have h₂ := h _ (List.mem_cons_of_mem _ (List.mem_cons_self ..))
  revert h₁ h₂
  cases m <;> cases n <;> decide

theorem machine_homed : Synchronizes machine homing .m4 := by
  intro m
  cases m <;> decide

/-- From every mode a word leads to every other. -/
def path : Mode → List String
  | .m1 => ["ai1_ce1", "usr4_ai1_VoidReply", "ai1_ce2", "usr4_ni1_ne1", "usr4_ai1_VoidReply"]
  | .m2 => ["ai1_ce1", "usr4_ai1_VoidReply"]
  | .m3 => ["ai1_ce1", "usr4_ai1_VoidReply", "ai1_ce2", "usr4_ni1_ne1"]
  | .m4 => []
  | .m5 => ["usr4_ni1_ne1"]
  | .m6 => ["ai1_ce1"]
  | .m7 => ["ai1_ce1", "usr4_ai1_VoidReply", "ai1_ce2"]
  | .m8 => ["ai1_ce1", "usr4_ni1_ne1"]

theorem after_path (m n : Mode) : after machine n (homing ++ path m) = m := by
  rw [after_append, machine_homed n]
  cases m <;> decide

section
variable {p q : Program} {s t : World}

theorem call_presented (h : Implements p.calculateOutput) :
    Presents machine MyString.val (call p.calculateOutput) fun m w => Inv m w.view where
  response {m w} i hw := by
    have hf := call_follows h hw i
    unfold machine
    cases hn : next m i.val with
    | none =>
      rw [hn] at hf
      exact hf.1
    | some r =>
      rw [hn] at hf
      exact hf.1
  next {m w} i hw := by
    have hf := call_follows h hw i
    unfold machine
    cases hn : next m i.val with
    | none =>
      rw [hn] at hf
      rw [hf.2.view]
      exact hw
    | some r =>
      rw [hn] at hf
      exact hf.2

/-- What a program leaves after a first `reset()` and any calls and resets. -/
def Reached (p : Program) (w : World) : Prop := ∃ u cs, w = after p.step (reset u) cs

theorem step_moded (h : Implements p.calculateOutput) (w : World) (c : Command) (hw : Moded w) :
    Moded (p.step w c).2 := by
  cases c with
  | calculateOutput input => exact call_moded h w input hw
  | reset => exact moded_reset _

theorem Reached.moded (h : Implements p.calculateOutput) (hs : Reached p s) : Moded s := by
  obtain ⟨u, cs, rfl⟩ := hs
  exact after_invariant (step_moded h) (moded_reset u) cs

theorem modeOf_of_inv {m : Mode} (h : Inv m s.view) : modeOf s.view = some m :=
  modeOf_eq_some_iff.mpr h.guard

/-- The experiments with objects for the words. -/
def objects (words : List (List String)) : List (List MyString) := words.map (List.map .new)

theorem map_val_new (is : List String) : (is.map MyString.new).map MyString.val = is := by
  rw [List.map_map]
  exact List.map_id is

theorem objects_characterize :
    Characterizes machine ((objects experiments).map (List.map MyString.val)) := by
  have hmap : (objects experiments).map (List.map MyString.val) = experiments := by
    rw [objects, List.map_map]
    exact List.map_congr_left (fun is _ => map_val_new is) |>.trans (List.map_id _)
  rw [hmap]
  exact machine_characterized

/-- Two engines that were used in any way answer every later word alike exactly if they
are in the same mode, and the two experiments find it out. Every mode can follow. -/
theorem reached_alike_iff (hp : Implements p.calculateOutput) (hq : Implements q.calculateOutput)
    (hs : Reached p s) (ht : Reached q t) :
    (Alike (call p.calculateOutput) (call q.calculateOutput) s t ↔
      modeOf s.view = modeOf t.view) ∧
    ((∀ is ∈ objects experiments, responses (call p.calculateOutput) s is =
        responses (call q.calculateOutput) t is) ↔ modeOf s.view = modeOf t.view) ∧
    ∀ m : Mode, ∃ is, modeOf (after (call p.calculateOutput) s is).view = some m := by
  obtain ⟨m, hm⟩ := hs.moded hp
  obtain ⟨n, hn⟩ := ht.moded hq
  have hpresents := call_presented hp
  have hiff := hpresents.alike_iff (call_presented hq) objects_characterize hm hn
  rw [modeOf_of_inv hm, modeOf_of_inv hn, Option.some.injEq]
  refine ⟨hiff.1, hiff.2, fun m' => ⟨(homing ++ path m').map .new, ?_⟩⟩
  have hrun := (hpresents.run hm ((homing ++ path m').map .new)).2
  rw [map_val_new, after_path] at hrun
  exact modeOf_of_inv hrun

theorem reached_reset (p : Program) (w : World) : Reached p (reset w) := ⟨w, [], rfl⟩

/-- The two analyses of the first task after their resets. -/
theorem reached_alike_iff_reset :
    (Alike (call TaskOne.Cond.calculateOutput) (call TaskOne.Direct.calculateOutput)
      (reset TaskOne.Cond.start) (reset TaskOne.Direct.start) ↔
        modeOf (reset TaskOne.Cond.start).view = modeOf (reset TaskOne.Direct.start).view) :=
  (reached_alike_iff TaskOne.Cond_implements TaskOne.Direct_implements (reached_reset _ _)
    (reached_reset _ _)).1

/-- Whatever happened before, the homing word takes an engine to the mode after
`reset()`, and no later answer depends on what happened before. -/
theorem reached_homed (hp : Implements p.calculateOutput) (hq : Implements q.calculateOutput)
    (hs : Reached p s) (ht : Reached q t) :
    modeOf (after (call p.calculateOutput) s (homing.map .new)).view =
        modeOf Original.Vars.start ∧
      Alike (call p.calculateOutput) (call q.calculateOutput)
        (after (call p.calculateOutput) s (homing.map .new))
        (after (call q.calculateOutput) t (homing.map .new)) := by
  obtain ⟨m, hm⟩ := hs.moded hp
  obtain ⟨n, hn⟩ := ht.moded hq
  have hw : Synchronizes machine ((homing.map MyString.new).map MyString.val) .m4 := by
    rw [map_val_new]
    exact machine_homed
  obtain ⟨hin, halike⟩ := (call_presented hp).synchronized (call_presented hq) hw hm hn
  exact ⟨(modeOf_of_inv hin).trans (modeOf_eq_some_iff.mpr inv_start.guard).symm, halike⟩

theorem reached_homed_start :
    modeOf (after (call TaskOne.Cond.calculateOutput) (reset TaskOne.Cond.start)
      (homing.map .new)).view = modeOf Original.Vars.start :=
  (reached_homed TaskOne.Cond_implements TaskOne.Direct_implements
    (reached_reset TaskOne.Cond TaskOne.Cond.start)
    (reached_reset TaskOne.Direct TaskOne.Direct.start)).1

end

section
open Versions
open CVersion (State)

/-- A reply of the engine with the codes for its words. -/
def coded (r : Reply) (i : Input) : CVersion.Reply :=
  ⟨r.words.filterMap codeOf, if r.rejected then [i.code] else [], false⟩

def codedMachine : System Mode Input CVersion.Reply := fun m i =>
  let r := machine m i.word
  (coded r.1 i, r.2)

/-- The engine as it would be heard through the mapping file. -/
def codedEngine : System World Input CVersion.Reply := fun w i =>
  let r := call Fuzzer.CalculateOutput w i.object
  (coded r.1 i, r.2)

/-- The C program on the codes of the inputs. -/
def codedC : System State Input CVersion.Reply := fun s i => CVersion.call s i.code

theorem codedEngine_presented :
    Presents codedMachine id codedEngine fun m w => Inv m w.view where
  response {m w} i hw := by
    have hr : (call Fuzzer.CalculateOutput w i.object).1 = (machine m i.word).1 :=
      (call_presented (p := ⟨Fuzzer.CalculateOutput, w⟩) Fuzzer.CalculateOutput_implements).response
        i.object hw
    exact congrArg (coded · i) hr
  next {m w} i hw :=
    (call_presented (p := ⟨Fuzzer.CalculateOutput, w⟩) Fuzzer.CalculateOutput_implements).next
      i.object hw

theorem codedC_presented :
    Presents codedMachine id codedC fun m s => CModes.Inv (counterpart m) s.toVars where
  response {m s} i hs := by
    have hc := CModes.call_follows hs i.code
    have hm := find_counterpart m i
    unfold codedMachine machine coded
    change (CVersion.call s i.code).1 = _
    rw [id]
    cases hn : next m i.word with
    | none =>
      rw [hn] at hm
      rw [Option.map_eq_none_iff.mp hm] at hc
      exact hc.1
    | some r =>
      rw [hn] at hm
      obtain ⟨t, hf, ht⟩ := Option.map_eq_some_iff.mp hm
      rw [hf] at hc
      have hcode : codeOf r.1 = some t.code := (Prod.mk.inj ht).1.symm
      rw [hc.1]
      simp only [List.filterMap_cons, hcode, List.filterMap_nil, Bool.false_eq_true, if_false]
  next {m s} i hs := by
    have hc := CModes.call_follows hs i.code
    have hm := find_counterpart m i
    unfold codedMachine machine
    change CModes.Inv _ (CVersion.call s i.code).2.toVars
    rw [id]
    cases hn : next m i.word with
    | none =>
      rw [hn] at hm
      rw [Option.map_eq_none_iff.mp hm] at hc
      rw [hc.2]
      exact hs
    | some r =>
      rw [hn] at hm
      obtain ⟨t, hf, ht⟩ := Option.map_eq_some_iff.mp hm
      rw [hf] at hc
      have htarget : t.target = counterpart r.2 := (Prod.mk.inj ht).2
      rw [← htarget]
      exact hc.2

def codedExperiments : List (List Input) :=
  [[.usr2_ai1_VoidReply], [.usr4_ni1_ne1, .usr4_ai1_VoidReply]]

def codedHoming : List Input :=
  [.usr4_ai1_VoidReply, .ai1_ce2, .usr4_ai1_VoidReply, .usr2_ai1_VoidReply]

theorem codedMachine_characterized :
    Characterizes codedMachine (codedExperiments.map (List.map id)) := by
  intro m n h
  have h₁ := h _ (List.mem_cons_self ..)
  have h₂ := h _ (List.mem_cons_of_mem _ (List.mem_cons_self ..))
  revert h₁ h₂
  cases m <;> cases n <;> decide

theorem codedMachine_homed : Synchronizes codedMachine (codedHoming.map id) .m4 := by
  intro m
  cases m <;> decide

theorem counterpart_injective : Function.Injective counterpart := by
  intro m n
  cases m <;> cases n <;> decide

theorem paired_iff {m n : Mode} {w : World} {s : State} (hw : Inv m w.view)
    (hs : CModes.Inv (counterpart n) s.toVars) : Paired w s ↔ m = n := by
  constructor
  · rintro ⟨k, hk, hs'⟩
    have hkm : k = m := (inv_unique hw).mp hk.guard
    have hkn : counterpart k = counterpart n :=
      hs.unique (CModes.holds_of_mem_span hs'.region) hs'.side
    exact hkm.symm.trans (counterpart_injective hkn)
  · rintro rfl
    exact ⟨m, hw, hs⟩

theorem exists_counterpart (m : Mode) : ∃ n, counterpart n = m := by
  cases m with
  | m1 => exact ⟨.m7, rfl⟩
  | m2 => exact ⟨.m6, rfl⟩
  | m3 => exact ⟨.m5, rfl⟩
  | m4 => exact ⟨.m3, rfl⟩
  | m5 => exact ⟨.m8, rfl⟩
  | m6 => exact ⟨.m4, rfl⟩
  | m7 => exact ⟨.m1, rfl⟩
  | m8 => exact ⟨.m2, rfl⟩

/-- After any inputs to either of them, also unknown ones, the engine and the C program
answer every later word alike exactly if their modes are counterparts. The experiments
find it out, and the homing word brings it about. -/
theorem versions_alike_iff (w : World) (is : List MyString) (ks : List Int32) :
    let u := after (call Fuzzer.CalculateOutput) (reset w) is
    let s := after CVersion.call State.start ks
    (Alike codedEngine codedC u s ↔ Paired u s) ∧
      ((∀ e ∈ codedExperiments, responses codedEngine u e = responses codedC s e) ↔ Paired u s) ∧
      Paired (after codedEngine u codedHoming) (after codedC s codedHoming) ∧
      Alike codedEngine codedC (after codedEngine u codedHoming) (after codedC s codedHoming) := by
  intro u s
  obtain ⟨m, hu⟩ := moded_after Fuzzer.CalculateOutput_implements w is
  obtain ⟨k, hk⟩ : CModes.Moded s :=
    after_invariant (fun s k hs => (CModes.call_defined s k hs).2) CModes.moded_start ks
  obtain ⟨n, rfl⟩ := exists_counterpart k
  have hiff := codedEngine_presented.alike_iff codedC_presented codedMachine_characterized hu hk
  have hengine := (codedEngine_presented.run hu codedHoming).2
  have hc := (codedC_presented.run hk codedHoming).2
  rw [codedMachine_homed] at hengine hc
  rw [← paired_iff hu hk] at hiff
  exact ⟨hiff.1, hiff.2, ⟨.m4, hengine, hc⟩,
    codedEngine_presented.alike codedC_presented hengine hc⟩

end

end EcaEngines.Experiments
