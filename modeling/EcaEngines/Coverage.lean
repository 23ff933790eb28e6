import EcaEngines.Displays
import EcaEngines.Runs

/-!
# What the branch sets say

One call keeps its branches on the side of the decisions only in some states. The
training phase loses branches as soon as it processes an input. The measured run
never meets a null, and neither does the display after it.
-/
namespace EcaEngines.Coverage
open Imperative Recording Effects Operations Conditions Trees Simulation Regions DirectFinal Loops
open Runs Displays
open Original (Throwable Vars)

variable {u v w : World} {x y l r : ℕ} {d : Bool} {letter : String} {input : Arg}

/-- A call of `calculateOutput` with an input and a set that exist. -/
structure Call where
  world : World
  sound : Sound world
  letter : String
  input : Arg
  reads : Input letter input world
  branchSet : ℕ
  made : branchSet < world.nextSet

def Call.after (c : Call) : World := (exec (calculateOutput c.input (some c.branchSet)) c.world).2

/-- When the branch was added to `m.set`, every set with that set in or below its left
child had been decided true, and every one with it in or below its right child false. -/
def Encodes (m : Moment) : Prop :=
  ∀ s y decision, m.latest s = some decision → (forest m.sets m.latest).Below y m.set →
    ((m.sets s).leftSet = some y → decision = true) ∧
    ((m.sets s).rightSet = some y → decision = false)

theorem encodes_iff_placed (m : Moment) :
    Encodes m ↔ (forest m.sets m.latest).Placed m.set := by
  constructor
  · intro h s x y d hc hb hd
    obtain ⟨hleft, hright⟩ := h x y d hd hb
    cases s with
    | true => exact hleft hc
    | false => exact hright hc
  · intro h x y d hd hb
    exact ⟨fun hc => h true x y d hc hb hd, fun hc => h false x y d hc hb hd⟩

theorem Call.encodes_iff_clean (c : Call) :
    (∀ m ∈ entries c.world c.after, Encodes m) ↔ Clean c.world c.after := by
  simp only [encodes_iff_placed]
  rfl

theorem Call.called (c : Call) : Called c.letter c.branchSet c.world c.after := by
  obtain ⟨res, v, hv, -, h⟩ := calculateOutput_follows c.sound c.made c.reads
  rw [Call.after, hv]
  exact h

/-- The tree shows the decisions exactly if it did so above the set that was passed, and
no `if` is taken whose right child is asked next. -/
theorem encodes_iff (c : Call) : (∀ m ∈ entries c.world c.after, Encodes m) ↔
    (tree c.world).Placed c.branchSet ∧ Straight c.letter c.world.view :=
  c.encodes_iff_clean.trans c.called.clean

/-- What `main` has done when the first input of a measured run is about to be processed. -/
def opening (letter : String) : Prog Unit := do
  reset
  let _ ← fuzz [letter]
  let _ ← newBranches

theorem opening_ready (letter : String) : Sound (exec (opening letter) start).2 ∧
    Input letter (.ref (.made 20)) (exec (opening letter) start).2 ∧
    (exec (opening letter) start).2.view = Vars.start := by
  have hreset := reset_later start_sound
  obtain ⟨inputs, u, hu, hfuzz, he, hin⟩ := fuzz_inputs hreset.sound 0 [letter]
  obtain ⟨x, l, r, v, hv, hb⟩ := newBranches_branched u
  have hwithin := hb.within hfuzz.sound 0
  have hopening : exec (opening letter) start = (.ok (), v) := by
    unfold opening
    rw [exec_bind_ok (exec_reset start), exec_bind_ok hu, exec_bind_ok hv, exec_pure]
  obtain rfl : [Ref.made 20] = inputs := Except.ok.inj (congrArg Prod.fst hu)
  rw [hopening]
  refine ⟨hwithin.sound, ?_, ?_⟩
  · cases hin with
    | cons h _ => exact h.mono hwithin.objects
  · exact (congrArg Nested.State.toVars (hb.erase.trans he)).trans (restarted_view _)

/-- The input `ai1_ce1` and the set of the phase, which is then the first one. -/
def firstCall : Call where
  world := (exec (opening "ai1_ce1") start).2
  sound := (opening_ready _).1
  letter := "ai1_ce1"
  input := .ref (.made 20)
  reads := (opening_ready _).2.1
  branchSet := 0
  made := by decide

/-- The string is `h`, so the middle region takes an `if` and goes on with the right child. -/
theorem firstCall_not_encodes :
    ¬ ∀ m ∈ entries firstCall.world firstCall.after, Encodes m := by
  intro h
  have hstraight := (firstCall.called.clean.mp (firstCall.encodes_iff_clean.mp h)).2
  have hview : firstCall.world.view = Vars.start := (opening_ready _).2.2
  refine hstraight.2.1 ⟨?_, .inr (.inl ?_)⟩
  · rw [hview]
    exact inMiddle_start
  · rw [hview]
    rfl

/-- Following `getBranches`, `getLeftSet` and `getRightSet` from `x` leads to the branch. -/
def Reached (w : World) (x b : ℕ) : Prop := ∃ s, (tree w).Below x s ∧ b ∈ members w s

theorem not_reached_of_lost {s b : ℕ} (h : Lost s b w) (hne : s ≠ x) : ¬ Reached w x b := by
  rintro ⟨y, hbelow, hmem⟩
  have hy := h.only y hmem
  subst hy
  exact hne (h.unlinked.eq_of_below hbelow).symm

/-- Branches in other sets than the one of the phase stay reachable only if there is
nothing to process. -/
theorem reached_iff (runs : List (List String)) :
    ∃ x v, exec (training runs) start = (.ok (some x), v) ∧
      ((∀ m ∈ entries start v, m.set ≠ x → Reached v x m.branch) ↔ ∀ vals ∈ runs, vals = []) := by
  obtain ⟨x, v, hv, -, -, hran⟩ := training_ran start_sound runs
  refine ⟨x, v, hv, fun h => ?_, fun h => ?_⟩
  · by_contra hne
    have hbusy : ∃ vals ∈ runs, vals ≠ [] := by
      push Not at hne
      exact hne
    obtain ⟨m, hm, hset, hlost⟩ := (hran.marked hbusy).lost
    exact not_reached_of_lost hlost hset (h m hm hset)
  · intro m hm
    have hidle : ¬ ∃ vals ∈ runs, vals ≠ [] := fun ⟨vals, hmem, hne⟩ => hne (h vals hmem)
    rw [entries, hran.moments hidle, List.drop_length] at hm
    exact absurd hm List.not_mem_nil

theorem not_reached_after_one : ∃ x v, exec (training [["ai1_ce1"]]) start = (.ok (some x), v) ∧
    ¬ ∀ m ∈ entries start v, m.set ≠ x → Reached v x m.branch := by
  obtain ⟨x, v, hv, -, -, hran⟩ := training_ran start_sound [["ai1_ce1"]]
  obtain ⟨m, hm, hset, hlost⟩ :=
    (hran.marked ⟨_, List.mem_singleton_self _, List.cons_ne_nil _ _⟩).lost
  exact ⟨x, v, hv, fun h => not_reached_of_lost hlost hset (h m hm hset)⟩

/-- The sets that `printBranchSet` prints. -/
def Visited (w : World) (x y : ℕ) : Prop := y = x ∨ ∃ s, (tree w).child s x = some y

section
variable (toString : World → Ref → String)

/-- The lines for the branch at a position, if there is one whose members are set. -/
def linesAt (w : World) (k : ℕ) : List String :=
  match w.made[k]? with
  | some ⟨some outcome, operation, some lVar, some rVar, ex⟩ =>
    branchLines toString w ⟨some outcome, operation, some lVar, some rVar, ex⟩ lVar rVar outcome
  | _ => []

/-- The lines for the branches of a set, in their order. -/
def memberLines (w : World) (x : ℕ) : List String := (members w x).flatMap (linesAt toString w)

/-- The lines for a child. -/
def sideLines (w : World) (unset : String) : SetVar → List String
  | none => [unset]
  | some x => memberLines toString w x

/-- What a display of the set has to consist of: its branches, and those of its children. -/
def setLines (w : World) (x : ℕ) : List String :=
  ["Branch set number: -9223372036854775808", "-----BRANCHES INFO-----"] ++
    memberLines toString w x ++
    "-----LEFT BRANCH SET INFO-----" :: sideLines toString w "leftSet == null" (w.sets x).leftSet ++
    "-----RIGHT BRANCH SET INFO-----" ::
      sideLines toString w "rightSet == null" (w.sets x).rightSet

theorem printBranch_shown {b : Branch} {k : ℕ} (hb : w.made[k]? = some b) (h : Shown b) :
    exec (printBranch toString b) w = (.ok (linesAt toString w k), w) := by
  obtain ⟨outcome, operation, lVar, rVar, ex⟩ := b
  obtain ⟨hl, hr, ho⟩ := h
  obtain ⟨l, rfl⟩ := Option.isSome_iff_exists.mp hl
  obtain ⟨r, rfl⟩ := Option.isSome_iff_exists.mp hr
  obtain ⟨o, rfl⟩ := Option.isSome_iff_exists.mp ho
  rw [linesAt, hb]
  rfl

theorem printAll_shown {ks : List ℕ} (h : ∀ k ∈ ks, ∃ b, w.made[k]? = some b ∧ Shown b) :
    exec (printAll toString ks) w = (.ok (ks.flatMap (linesAt toString w)), w) := by
  induction ks with
  | nil => rfl
  | cons k ks ih =>
    rw [List.forall_mem_cons] at h
    obtain ⟨⟨b, hb, hshown⟩, hrest⟩ := h
    unfold printAll
    rw [exec_bind_ok (exec_get w), hb]
    refine (exec_bind_ok (printBranch_shown toString hb hshown)).trans ?_
    rw [exec_bind_ok (ih hrest), exec_pure, List.flatMap_cons]

theorem printSide_plain (unset : String) {child : SetVar} (h : ∀ y, child = some y → Plain w y) :
    exec (printSide toString unset child) w = (.ok (sideLines toString w unset child), w) := by
  cases child with
  | none => rfl
  | some y => exact printAll_shown toString (h y rfl)

theorem printBranchSet_displayed (h : Displayed x w) :
    exec (printBranchSet toString x) w = (.ok (setLines toString w x), w) := by
  obtain ⟨branches, hb⟩ := Option.isSome_iff_exists.mp h.branches
  have hself := h.self
  rw [Plain, members, hb] at hself
  have hleft := printSide_plain toString "leftSet == null" (h.child true)
  have hright := printSide_plain toString "rightSet == null" (h.child false)
  unfold printBranchSet
  refine (exec_bind_ok (exec_get w)).trans ?_
  rw [hb]
  refine (exec_bind_ok (printAll_shown toString hself)).trans ?_
  refine (exec_bind_ok hleft).trans ((exec_bind_ok hright).trans ?_)
  rw [exec_pure, setLines, memberLines, members, hb]
  simp only [List.append_assoc, List.cons_append, List.nil_append, Option.getD_some]
  rfl

/-- In the measured run no set is null where it is used, and its display prints all that it
visits. -/
theorem measured_displays (runs : List (List String)) (vals : List String) :
    ∃ t v x w, exec (training runs) start = (.ok t, v) ∧
      exec (measured vals) v = (.ok (some x), w) ∧
      exec (displayReachedCodeBranches toString (some x)) w =
        (.ok (setLines toString w x), w) ∧
      ∀ y, Visited w x y → ∀ k ∈ members w y, ∃ b, w.made[k]? = some b ∧ Shown b := by
  obtain ⟨t, v, hv, -, -, htrained⟩ := training_ran start_sound runs
  obtain ⟨x, w, hw, -, -, hd⟩ := measured_ran htrained.later.sound vals
  refine ⟨some t, v, x, w, hv, hw, printBranchSet_displayed toString hd, fun y hy => ?_⟩
  obtain rfl | ⟨s, hs⟩ := hy
  · exact hd.self
  · exact hd.child s y hs

end

end EcaEngines.Coverage
