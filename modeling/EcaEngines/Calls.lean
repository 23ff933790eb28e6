import EcaEngines.Lookups
import EcaEngines.Runs

/-!
# Calls of the recording engine after a reset

Every call gets a branch set of a heap that is given with it. Neither that heap nor
the contents of the static registers, nor `taintSet`, show in what the machine does.
-/
namespace EcaEngines.Calls
open Imperative Reactive Recording Effects Conditions Trees Simulation Regions DirectFinal Loops
open Runs Nested Lookups Transitions
open Original (Throwable Vars noTransition)

variable {u v w : World} {letter : String}

/-- The same but for taint. -/
structure Same (s t : Nested.State) : Prop where
  vars : s.toVars = t.toVars
  cf : s.cf = t.cf
  out : s.out = t.out
  decisions : s.decisions = t.decisions

theorem agrees_decision (f : Vars → Bool → Bool) : Agrees Same (decision f) := by
  have hf {s t : Nested.State} (h : Same s t) : f s.toVars s.cf = f t.toVars t.cf := by
    rw [h.vars, h.cf]
  refine (agrees_modify fun s t h => ?_).bind fun _ => agrees_test fun s t h => hf h
  refine ⟨h.vars, h.cf, h.out, ?_⟩
  change s.decisions ++ [f s.toVars s.cf] = t.decisions ++ [f t.toVars t.cf]
  rw [h.decisions, hf h]

theorem agrees_of_composed {p : Nested.Prog Unit} (h : Composed p) : Agrees Same p := by
  refine h.agrees (fun p hp => ?_) fun c hc => ?_
  · cases hp with
    | block t =>
      refine agrees_modify fun s t' h => ⟨?_, rfl, ?_, h.decisions⟩
      · change t.fire s.toVars = t.fire t'.toVars
        rw [h.vars]
      · change s.out ++ [t.word] = t'.out ++ [t.word]
        rw [h.out]
    | throw => exact fun s t h => ⟨rfl, h⟩
  · cases hc with
    | cf f => exact agrees_decision f
    | andCf f =>
      refine (agrees_modify fun s t h => ?_).bind fun _ => agrees_decision f
      exact ⟨h.vars, h.cf, h.out, h.decisions⟩
    | andAndCf f =>
      refine (agrees_modify fun s t h => ?_).bind fun _ => agrees_decision f
      exact ⟨h.vars, h.cf, h.out, h.decisions⟩

/-- The first assignment of the call forgets `cf`. -/
theorem agrees_calculateOutput (letter : String) {s t : Nested.State} (hv : s.toVars = t.toVars)
    (ho : s.out = t.out) (hd : s.decisions = t.decisions) :
    (exec (Nested.calculateOutput letter) s).1 = (exec (Nested.calculateOutput letter) t).1 ∧
      Same (exec (Nested.calculateOutput letter) s).2
        (exec (Nested.calculateOutput letter) t).2 := by
  have hbody := (agrees_of_composed (low_composed letter)).bind fun _ =>
    (agrees_of_composed (middle_composed letter)).bind fun _ =>
    agrees_of_composed (upper_composed letter)
  rw [calculateOutput_start, calculateOutput_start]
  exact hbody _ _ ⟨hv, rfl, ho, hd⟩

/-- Branch sets and branches, with the set that is passed to a call. -/
structure Heap where
  sets : ℕ → BranchSet
  nextSet : ℕ
  made : List Branch
  latest : ℕ → Option Bool
  closed : (forest sets latest).Closed {y | y < nextSet}
  branches : ∀ y, ∀ k ∈ (sets y).branches.getD [], k < made.length
  branchSet : ℕ
  passed : branchSet < nextSet

/-- The world in which a call begins, with nothing printed and nothing decided. -/
def handed (h : Heap) (w : World) : World :=
  { w with
    sets := h.sets
    nextSet := h.nextSet
    made := h.made
    latest := h.latest
    out := []
    decisions := []
    moments := [] }

structure Response where
  answer : Answer
  decisions : List Bool

/-- One call, with a new object for the input. -/
def call : System World (String × Heap) Response := fun w c =>
  let r := exec (do
    let input ← MyString.new2 c.1 true
    DirectFinal.calculateOutput (.ref input) (some c.2.branchSet)) (handed c.2 w)
  (⟨(r.1, r.2.out, r.2.view), r.2.decisions⟩, r.2)

/-- What a call does to the state without records. -/
theorem call_spec (hw : Valid w) (letter : String) (h : Heap) :
    let s : Nested.State := { erase w with out := [], decisions := [] }
    let r := exec (Nested.calculateOutput letter) s
    (call w (letter, h)).1 = ⟨(r.1, r.2.out, r.2.toVars), r.2.decisions⟩ ∧
      Valid (call w (letter, h)).2 ∧ erase (call w (letter, h)).2 = r.2 := by
  have hsound : Sound (handed h w) := ⟨⟨hw.fields, hw.taintSet, hw.members⟩, h.closed, h.branches⟩
  obtain ⟨u, hu, hm, hval⟩ := newString4_made hsound.valid h.branchSet letter "" true
  have hwithin := within_of_made hsound hm
  have hin : Input letter (.ref (.made w.next)) u := ⟨_, rfl, hm.owned, hval⟩
  obtain ⟨r, v, hv, hq, hcalled⟩ := calculateOutput_follows hwithin.sound
    (h.passed.trans_le hwithin.nextSet) hin
  rw [hm.erase hsound.valid] at hq
  have hcall : call w (letter, h) = (⟨(r, v.out, v.view), v.decisions⟩, v) := by
    have hrun : exec (do
        let input ← MyString.new2 letter true
        DirectFinal.calculateOutput (.ref input) (some h.branchSet)) (handed h w) = (r, v) :=
      (exec_bind_ok hu).trans hv
    simp only [call, hrun]
  intro s r'
  have hr : r' = (r, erase v) := hq
  rw [hcall, hr]
  exact ⟨rfl, hcalled.sound.valid, rfl⟩

/-- The reset before a run of either phase. -/
def restart : Phase → Recording.Prog Unit
  | .training => trainingReset
  | .measured => reset

theorem reset_ready (w : World) : Valid (exec reset w).2 ∧ (exec reset w).2.view = Vars.start := by
  have hrun : (exec reset w).2 = restarted { w with taintSet := some ∅, var := true } :=
    congrArg Prod.snd (exec_reset w)
  rw [hrun]
  refine ⟨restarted_valid fun n hn => ?_, restarted_view _⟩
  simp [World.tainted] at hn

theorem restart_ready (phase : Phase) (hw : Bounded w) :
    Valid (exec (restart phase) w).2 ∧ (exec (restart phase) w).2.view = Vars.start := by
  cases phase with
  | training =>
    have hrun : (exec (restart .training) w).2 = restarted (prepared w) :=
      congrArg Prod.snd (exec_trainingReset w)
    rw [hrun]
    exact ⟨restarted_valid (prepared_bounded hw), restarted_view _⟩
  | measured => exact reset_ready w

theorem call_agrees (hu : Valid u) (hw : Valid w) (hview : u.view = w.view) (letter : String)
    (h k : Heap) : (call u (letter, h)).1 = (call w (letter, k)).1 ∧
      Valid (call u (letter, h)).2 ∧ Valid (call w (letter, k)).2 ∧
      (call u (letter, h)).2.view = (call w (letter, k)).2.view := by
  obtain ⟨hresponse, hvalid, herase⟩ := call_spec hu letter h
  obtain ⟨hresponse', hvalid', herase'⟩ := call_spec hw letter k
  obtain ⟨hresult, hsame⟩ := agrees_calculateOutput letter
    (s := { erase u with out := [], decisions := [] })
    (t := { erase w with out := [], decisions := [] }) hview rfl rfl
  refine ⟨?_, hvalid, hvalid', ?_⟩
  · rw [hresponse, hresponse', hresult, hsame.out, hsame.vars, hsame.decisions]
  · exact (congrArg Nested.State.toVars herase).trans
      (hsame.vars.trans (congrArg Nested.State.toVars herase').symm)

theorem responses_agree (hu : Valid u) (hw : Valid w) (hview : u.view = w.view)
    (calls : List (String × Heap × Heap)) :
    responses call u (calls.map fun c => (c.1, c.2.1)) =
      responses call w (calls.map fun c => (c.1, c.2.2)) := by
  induction calls generalizing u w with
  | nil => rfl
  | cons c calls ih =>
    obtain ⟨letter, h, k⟩ := c
    obtain ⟨hresponse, hu', hw', hview'⟩ := call_agrees hu hw hview letter h k
    simp only [List.map_cons, responses_cons, hresponse, ih hu' hw' hview']

/-- After either reset, results, words, decisions and variables depend on the inputs
only, and neither on the static state nor on the branch sets that are passed. -/
theorem restart_noninterference (phase : Phase) (u w : {w : World // Bounded w})
    (calls : List (String × Heap × Heap)) :
    responses call (exec (restart phase) u.1).2 (calls.map fun c => (c.1, c.2.1)) =
      responses call (exec (restart phase) w.1).2 (calls.map fun c => (c.1, c.2.2)) := by
  obtain ⟨hu, hview⟩ := restart_ready phase u.2
  obtain ⟨hw, hview'⟩ := restart_ready phase w.2
  exact responses_agree hu hw (hview.trans hview'.symm) calls

/-- The calls without the decisions, which the original machine does not show. -/
def heard : System World (String × Heap) Answer := fun w c => ((call w c).1.answer, (call w c).2)

def original : System Original.State String Answer := fun s letter =>
  let r := exec (Original.calculateOutput letter) { s with out := [] }
  ((r.1, r.2.out, r.2.toVars), r.2)

theorem original_spec (s : Original.State) (letter : String) :
    (original s letter).1 = originalAnswer s.toVars letter ∧
      (original s letter).2.toVars = (originalAnswer s.toVars letter).2.2 := by
  unfold original originalAnswer
  rw [exec_calculateOutput]
  cases fired s.toVars letter <;> exact ⟨rfl, rfl⟩

theorem heard_spec (hw : Valid w) (letter : String) (h : Heap) :
    (heard w (letter, h)).1 = answer w.view letter ∧ Valid (heard w (letter, h)).2 ∧
      (heard w (letter, h)).2.view = (answer w.view letter).2.2 := by
  obtain ⟨hresponse, hvalid, herase⟩ := call_spec hw letter h
  obtain ⟨hr, hout, hvars⟩ := calculateOutput_answer letter
    { erase w with out := [], decisions := [] }
  refine ⟨?_, hvalid, (congrArg Nested.State.toVars herase).trans hvars⟩
  have hanswer : (heard w (letter, h)).1 = (call w (letter, h)).1.answer := rfl
  rw [hanswer, hresponse, ← hr, hout, hvars]
  rfl

/-- The two machines answer alike exactly as long as the nested engine covers what
the original one is asked. -/
theorem heard_eq_original_iff (w : World) (calls : List (String × Heap)) :
    responses heard (exec reset w).2 calls =
        responses original Original.State.start (calls.map Prod.fst) ↔
      Along original (fun s letter => Covers s.toVars letter) Original.State.start
        (calls.map Prod.fst) := by
  refine responses_eq_iff_along
    (R := fun (u : World) (s : Original.State) => Valid u ∧ u.view = s.toVars)
    (J := fun c letter => c.1 = letter) ?_ ?_ (reset_ready w) ?_
  · rintro u s ⟨_, h⟩ letter ⟨hu, hview⟩ rfl hcovers
    obtain ⟨hanswer, hvalid, hview'⟩ := heard_spec hu _ h
    obtain ⟨horiginal, hvars⟩ := original_spec s _
    have heq := (answer_eq_iff _ _).mpr hcovers
    rw [hview, heq] at hanswer hview'
    exact ⟨hanswer.trans horiginal.symm, hvalid, hview'.trans hvars.symm⟩
  · rintro u s ⟨_, h⟩ letter ⟨hu, hview⟩ rfl hnot heq
    obtain ⟨hanswer, -, -⟩ := heard_spec hu _ h
    obtain ⟨horiginal, -⟩ := original_spec s _
    rw [hanswer, horiginal, hview] at heq
    exact hnot ((answer_eq_iff _ _).mp heq)
  · exact List.forall₂_map_right_iff.mpr (List.forall₂_same.mpr fun _ _ => rfl)

/-- `new BranchSet()` and nothing else. -/
def Heap.single : Heap where
  sets _ := .new
  nextSet := 1
  made := []
  latest _ := none
  closed := by
    constructor <;> intro s x y hc <;> cases s <;> cases hc
  branches y k hk := absurd hk List.not_mem_nil
  branchSet := 0
  passed := Nat.one_pos

/-- The original machine rejects this input at the start, and the nested engine does not. -/
theorem heard_ne_original :
    responses heard (exec reset start).2 [("usr2_ai1_VoidReply", Heap.single)] ≠
      responses original Original.State.start ["usr2_ai1_VoidReply"] := by
  obtain ⟨hvalid, hview⟩ := reset_ready start
  obtain ⟨hanswer, -, -⟩ := heard_spec hvalid "usr2_ai1_VoidReply" Heap.single
  obtain ⟨horiginal, -⟩ := original_spec Original.State.start "usr2_ai1_VoidReply"
  intro h
  have heq := (List.cons_eq_cons.mp h).1
  rw [hanswer, horiginal, hview] at heq
  have hcovers : ¬ Covers Vars.start "usr2_ai1_VoidReply" := by decide
  exact hcovers ((answer_eq_iff _ _).mp heq)

end EcaEngines.Calls
