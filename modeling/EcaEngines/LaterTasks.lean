import EcaEngines.Printed
import EcaEngines.Screen

/-!
# What the later tasks print

`main` of `instm183_LTL_CTLBranchDistance` and of `instm183_LTL_CTLFuzzer`, with all they write for
the inputs that the fuzzer has drawn. The text of `CalculateOutput` is the same in both.
-/
namespace EcaEngines.LaterTasks
open Imperative Reactive Transitions Modes Blocks Screen
open Instrumented hiding Prog
open Fuzzer hiding CalculateOutput check
open Original (Throwable noTransition)

/-- The text of `CalculateOutput`, with what its parts write. -/
def CalculateOutput (input : MyString) : Prog Unit := Text.CalculateOutput lift input

/-- What is written aside, the program of the third task is run. -/
theorem CalculateOutput_projects (input : MyString) :
    Projects Screen.Main.world (CalculateOutput input) (Fuzzer.CalculateOutput input) :=
  Text.CalculateOutput_projects lift input fun _ => projects_lift

section
variable (v : Original.Vars) (err : List String) (input : MyString)

theorem CalculateOutputm1_follows :
    (stages v err).Follows (Text.CalculateOutputm1 lift input) (method input.val .m1) :=
  Decides.word .m1VoidReply fun _ => ⟨_, _, rfl, rfl, rfl, rfl⟩

theorem CalculateOutputm2_follows :
    (stages v err).Follows (Text.CalculateOutputm2 lift input) (method input.val .m2) :=
  Scripts.Stages.Follows.seq (Decides.word .m2Ne1 fun _ => ⟨_, _, rfl, rfl, rfl, rfl⟩)
    (Decides.word .m2Ce2 fun _ => ⟨_, _, rfl, rfl, rfl, rfl⟩)

theorem CalculateOutputm3_follows :
    (stages v err).Follows (Text.CalculateOutputm3 lift input) (method input.val .m3) :=
  Decides.cf_word .m3VoidReply fun _ => ⟨_, _, rfl, rfl, rfl, rfl⟩

theorem CalculateOutputm4_follows :
    (stages v err).Follows (Text.CalculateOutputm4 lift input) (method input.val .m4) :=
  Scripts.Stages.Follows.seq (Decides.cf_word .m4Ce2 fun _ => ⟨_, _, rfl, rfl, rfl, rfl⟩)
    (Scripts.Stages.Follows.seq (Decides.cf_word .m4Ce1 fun _ => ⟨_, _, rfl, rfl, rfl, rfl⟩)
      (Decides.word .m4Ne1 fun _ => ⟨_, _, rfl, rfl, rfl, rfl⟩))

theorem CalculateOutputm5_follows :
    (stages v err).Follows (Text.CalculateOutputm5 lift input) (method input.val .m5) :=
  Decides.word .m5VoidReply fun _ => ⟨_, _, rfl, rfl, rfl, rfl⟩

theorem CalculateOutputm6_follows :
    (stages v err).Follows (Text.CalculateOutputm6 lift input) (method input.val .m6) :=
  Scripts.Stages.Follows.seq (Decides.word .m6Ne1 fun _ => ⟨_, _, rfl, rfl, rfl, rfl⟩)
    (Decides.cf_word .m6VoidReply fun _ => ⟨_, _, rfl, rfl, rfl, rfl⟩)

theorem CalculateOutputm7_follows :
    (stages v err).Follows (Text.CalculateOutputm7 lift input) (method input.val .m7) :=
  Scripts.Stages.Follows.seq (Decides.word .m7Ne1 fun _ => ⟨_, _, rfl, rfl, rfl, rfl⟩)
    (Decides.cf_word .m7VoidReply fun _ => ⟨_, _, rfl, rfl, rfl, rfl⟩)

theorem CalculateOutputm8_follows :
    (stages v err).Follows (Text.CalculateOutputm8 lift input) (method input.val .m8) :=
  Decides.word .m8VoidReply fun _ => ⟨_, _, rfl, rfl, rfl, rfl⟩

end

theorem CalculateOutput_speaks : Speaks CalculateOutput where
  implements := ⟨_, Fuzzer.CalculateOutput_implements, CalculateOutput_projects⟩
  ends {_ v} err input hv := ⟨_, rfl, script_ends
    (Decides.low hv fun _ => ⟨_, _, rfl, rfl, rfl, rfl⟩)
    (fun h => Decides.m1 hv h (fun _ => ⟨_, _, rfl, rfl, rfl, rfl⟩)
      (CalculateOutputm1_follows v err input))
    (Decides.middle hv fun _ => ⟨_, _, rfl, rfl, rfl, rfl⟩)
    (fun h => Decides.cf_string hv h (fun _ => rfl) (fun _ => ⟨_, _, rfl, rfl, rfl, rfl⟩)
      (CalculateOutputm2_follows v err input))
    (fun h => Decides.cf_string hv h (fun _ => rfl) (fun _ => ⟨_, _, rfl, rfl, rfl, rfl⟩)
      (CalculateOutputm3_follows v err input))
    (fun h => Decides.cf_string hv h (fun _ => rfl) (fun _ => ⟨_, _, rfl, rfl, rfl, rfl⟩)
      (CalculateOutputm4_follows v err input))
    (fun h => Decides.string_cf hv h (fun _ => rfl) (fun _ => ⟨_, _, rfl, rfl, rfl, rfl⟩)
      (CalculateOutputm5_follows v err input))
    (Decides.upper hv fun _ => ⟨_, _, rfl, rfl, rfl, rfl⟩)
    (fun h => Decides.cf_string hv h (fun _ => rfl) (fun _ => ⟨_, _, rfl, rfl, rfl, rfl⟩)
      (CalculateOutputm6_follows v err input))
    (fun h => Decides.cf_string hv h (fun _ => rfl) (fun _ => ⟨_, _, rfl, rfl, rfl, rfl⟩)
      (CalculateOutputm7_follows v err input))
    (Decides.high hv fun _ => ⟨_, _, rfl, rfl, rfl, rfl⟩)
    (fun h => Decides.m8 hv h (fun _ => ⟨_, _, rfl, rfl, rfl, rfl⟩)
      (CalculateOutputm8_follows v err input))
    (Decides.check fun _ => ⟨_, _, rfl, rfl, rfl, rfl⟩)⟩

theorem check_decides (input : MyString) : Decides (Fuzzer.check input) fun _ _ => false :=
  Decides.never (i := input.val) fun _ => ⟨_, _, rfl, rfl, rfl, rfl⟩

def lengthLine (fuzzed_inputs : List MyString) : String :=
  "Fuzzed input length is: " ++ toString fuzzed_inputs.length

section
open Calc Printed

/-- The orders in which the members of a set of branches and the entries of a map are listed, and
the hashes that the keys of the map are printed as. -/
structure Listing where
  branches : ∀ {n : ℕ}, List (Fin n) → List (Fin n)
  branches_perm : ∀ {n : ℕ} (l : List (Fin n)), (branches l).Perm l
  entries : ∀ {n : ℕ}, (Fin n → Option ℕ) → List (Fin n)
  entries_perm : ∀ {n : ℕ} (map : Fin n → Option ℕ),
    (entries map).Perm ((List.finRange n).filter fun b => (map b).isSome)
  hash : ℕ → String

/-- In the order in which the branches were made, with their numbers for hashes. -/
def Listing.numbered : Listing where
  branches l := l
  branches_perm _ := .refl _
  entries map := (List.finRange _).filter fun b => (map b).isSome
  entries_perm _ := .refl _
  hash := toString

/-- The line of an entry. -/
def Listing.line (l : Listing) {n : ℕ} (map : Fin n → Option ℕ) (b : Fin n) : Option String :=
  (map b).map fun d => "    " ++ l.hash b ++ " " ++ toString d ++ "\n"

/-- What is printed for one of the inputs. -/
def Listing.report (l : Listing) {n : ℕ} (s : MyString) (map : Fin n → Option ℕ) : List String :=
  ["  Input is " ++ s.val ++ "\n", "  Branch hashes, and the distance are\n"] ++
    (l.entries map).filterMap (l.line map)

/-- The lines of all entries, in the order of the branches. -/
def Listing.lines (l : Listing) {n : ℕ} (map : Fin n → Option ℕ) : List String :=
  (List.finRange n).filterMap (l.line map)

/-- Every entry of the map has its line, and no other line is printed. -/
theorem Listing.report_perm (l : Listing) {n : ℕ} (s : MyString) (map : Fin n → Option ℕ) :
    (l.report s map).Perm
      (["  Input is " ++ s.val ++ "\n", "  Branch hashes, and the distance are\n"] ++
        l.lines map) := by
  refine (List.Perm.refl _).append (((l.entries_perm map).filterMap _).trans (.of_eq ?_))
  rw [List.filterMap_filter]
  refine List.filterMap_congr fun b _ => ?_
  unfold Listing.line
  cases map b <;> rfl

namespace TaskTwo
variable (order : Order) (l : Listing)

/-- The body of the first loop. -/
def process : MyString → Prog Unit := Screen.process order Fuzzer.check CalculateOutput

/-- The body of the second loop. `CalculateDistance` prints lines of its own. -/
def distances (fuzzed_inputs : List MyString) (s : MyString) : Prog Unit := do
  let t ← get
  let map ← CalculateDistanceWith println t.world fuzzed_inputs (l.branches (members t.world)) s.val
  modify fun t => { t with out := t.out ++ l.report s map }

def main (fuzzed_inputs : List MyString) : Prog Unit := do
  println "reset"
  modify fun s => { s with world := reset s.world }
  println (lengthLine fuzzed_inputs)
  fuzzed_inputs.forM (process order)
  println "\nPrinting branches"
  fuzzed_inputs.forM (distances l fuzzed_inputs)

/-- The body of the first loop without what is printed, and without the record of the model. -/
def bare (input : MyString) : Instrumented.Prog Unit := do
  ifM (Fuzzer.check input) do
    throw noTransition
  tryCatch (Fuzzer.CalculateOutput input) fun e => match e with
    | .illegalArgument _ => pure ()
    | e => throw e

theorem bare_looped (input : MyString) :
    Projects BranchDistance.Watched.world (BranchDistance.process input) (bare input) := by
  refine ((BranchDistance.check_runs input).ifM (projects_throw _)).bind fun _ => ?_
  refine (BranchDistance.CalculateOutput_runs input).tryCatch fun e => ?_
  cases e with
  | illegalArgument _ => exact projects_pure ()
  | nullPointer => exact projects_throw _
  | arithmetic => exact projects_throw _

theorem bare_printed (input : MyString) :
    Projects Screen.Main.world (process order input) (bare input) := by
  refine (unseen_println _).before ((projects_lift.ifM (projects_throw _)).bind fun _ => ?_)
  refine (projects_respond order (CalculateOutput_projects input)).tryCatch fun e => ?_
  cases e with
  | illegalArgument message => exact unseen_complain message
  | nullPointer => exact projects_throw _
  | arithmetic => exact projects_throw _

/-- The loop leaves the same branches and the same registers, whatever is printed. -/
theorem looped_final (inputs : List MyString) {s : Screen.Main}
    (hs : s.world = reset TaskOne.Direct.start) :
    (exec (inputs.forM (process order)) s).2.world = final inputs := by
  have hprinted := Projects.forM (bare_printed order) inputs s
  have hlooped := Projects.forM bare_looped inputs
    { Outcomes.start with world := reset Outcomes.start.world }
  rw [hs] at hprinted
  exact congrArg Prod.snd (hprinted.symm.trans hlooped)

section
variable {w : World} {inputs : List MyString} {trace : String}

/-- The line for an operand that is null, as often as it is printed. -/
def nullLines (n : ℕ) : List String := List.replicate n "myLessEqual intOpB null\n"

theorem exec_warn (conds : List Condition) (s : Screen.Main) :
    exec (conds.forM (warn println w inputs trace)) s =
      (.ok (), { s with out := s.out ++ nullLines (conds.countP (warned w inputs trace)) }) := by
  induction conds generalizing s with
  | nil => simp [nullLines]
  | cons cond conds ih =>
    rw [List.forM_eq_forM, List.forM_cons, ← List.forM_eq_forM, List.countP_cons]
    cases hc : warned w inputs trace cond with
    | false =>
      have hwarn : exec (warn println w inputs trace cond) s = (.ok (), s) := by
        rw [warn, hc]
        rfl
      exact (exec_bind_ok hwarn).trans (ih s)
    | true =>
      have hwarn : exec (warn println w inputs trace cond) s =
          (.ok (), { s with out := s.out ++ nullLines 1 }) := by
        rw [warn, hc]
        rfl
      rw [exec_bind_ok hwarn, ih, if_pos rfl, List.append_assoc, nullLines, nullLines,
        ← List.replicate_add, Nat.add_comm, nullLines]

theorem exec_warnings (branches : List (Fin w.made.length)) (s : Screen.Main) :
    exec (branches.forM (warnBranch println w inputs trace)) s =
      (.ok (), { s with out := s.out ++ nullLines (warnings w inputs branches trace) }) := by
  induction branches generalizing s with
  | nil => simp [nullLines, warnings]
  | cons b branches ih =>
    have hb : exec (warnBranch println w inputs trace b) s = (.ok (), { s with
        out := s.out ++ nullLines (if w.made[b].input = trace then
          w.made[b].condLst.countP (warned w inputs trace) else 0) }) := by
      unfold warnBranch
      split_ifs
      · exact exec_warn _ s
      · simp [nullLines]
    rw [List.forM_eq_forM, List.forM_cons, ← List.forM_eq_forM, exec_bind_ok hb, ih,
      List.append_assoc]
    unfold nullLines warnings
    rw [← List.replicate_add, List.map_cons, List.sum_cons]

/-- In whatever order the branches are visited, the map is the same, and so are the lines. -/
theorem exec_CalculateDistance (hw : AllRecorded w) {map : BranchMap w}
    (h : CalculateDistance w inputs (members w) trace = .ok map) (s : Screen.Main) :
    exec (CalculateDistanceWith println w inputs (l.branches (members w)) trace) s =
      (.ok map, { s with
        out := s.out ++ nullLines (warnings w inputs (members w) trace) }) := by
  have hrecorded : ∀ b ∈ l.branches (members w), ∀ cond ∈ w.made[b].condLst, Recorded cond :=
    fun b _ => hw _ (List.getElem_mem b.isLt)
  have hperm := l.branches_perm (members w)
  rw [← CalculateDistance_perm hw hperm, CalculateDistance_eq hrecorded] at h
  unfold CalculateDistanceWith
  rw [distances_eq hrecorded, exec_bind_ok (exec_warnings _ s), exec_pure, warnings_perm hperm,
    Except.ok.inj h]

end

/-- The second loop only prints. -/
theorem exec_distances {w : World} (hw : AllRecorded w) (err : List String)
    (fuzzed_inputs : List MyString) :
    ∀ (inputs : List MyString) (maps : List (BranchMap w)) (out : List String),
      inputs.mapM (fun s => CalculateDistance w fuzzed_inputs (members w) s.val) = .ok maps →
      exec (inputs.forM (distances l fuzzed_inputs)) ⟨w, out, err⟩ =
        (.ok (), ⟨w, out ++ (inputs.zip maps).flatMap fun x =>
          nullLines (warnings w fuzzed_inputs (members w) x.1.val) ++ l.report x.1 x.2, err⟩)
  | [], maps, out, h => by
    rw [List.zip_nil_left, List.flatMap_nil, List.append_nil]
    rfl
  | s :: inputs, maps, out, h => by
    rw [List.mapM_cons] at h
    cases hmap : CalculateDistance w fuzzed_inputs (members w) s.val with
    | error e =>
      rw [hmap] at h
      cases h
    | ok map =>
      rw [hmap] at h
      cases hmaps : inputs.mapM fun s => CalculateDistance w fuzzed_inputs (members w) s.val with
      | error e =>
        rw [hmaps] at h
        cases h
      | ok rest =>
        rw [hmaps] at h
        cases h
        have hs : exec (distances l fuzzed_inputs s) ⟨w, out, err⟩ =
            (.ok (), ⟨w, out ++ (nullLines (warnings w fuzzed_inputs (members w) s.val) ++
              l.report s map), err⟩) := by
          unfold distances
          rw [exec_bind_ok (exec_get _), exec_bind_ok (exec_CalculateDistance l hw hmap _),
            exec_modify, List.append_assoc]
        refine (exec_bind_ok hs).trans ?_
        rw [exec_distances hw err fuzzed_inputs inputs rest _ hmaps, List.zip_cons_cons,
          List.flatMap_cons, List.append_assoc]

/-- `main` prints what the first task prints. Then it prints for each input the map, and before it
once or more often that an operand is null, since conjunctions fall into the case of `<=`. How
often, and which entries the map has, is the same in every order of the sets and maps. -/
theorem main_lists (inputs : List MyString) :
    let w := final inputs
    ∃ maps, printed w inputs = .ok maps ∧
      exec (main order l inputs) ⟨TaskOne.Direct.start, [], []⟩ = (.ok (), ⟨w,
        ["reset\n", lengthLine inputs ++ "\n"] ++ (session inputs).1 ++
          ["\nPrinting branches\n"] ++ (inputs.zip maps).flatMap fun x =>
            nullLines (warnings w inputs (members w) x.1.val) ++ l.report x.1 x.2,
        (session inputs).2⟩) ∧
      (∀ s ∈ inputs, 0 < warnings w inputs (members w) s.val) ∧
      ∀ x ∈ inputs.zip maps, (l.report x.1 x.2).Perm
        (["  Input is " ++ x.1.val ++ "\n", "  Branch hashes, and the distance are\n"] ++
          l.lines x.2) := by
  intro w
  obtain ⟨maps, hmaps, -⟩ := exists_maps inputs
  refine ⟨maps, hmaps, ?_, fun s hs => warnings_pos hs, fun x _ => l.report_perm x.1 x.2⟩
  let s : Screen.Main := ⟨reset TaskOne.Direct.start, ["reset\n", lengthLine inputs ++ "\n"], []⟩
  have hstands : Stands .m4 .reset s :=
    stands_reset (s := ⟨TaskOne.Direct.start, s.out, []⟩) fun _ => rfl
  obtain ⟨u, hu, -, hwrote⟩ :=
    (process_answers order check_decides CalculateOutput_speaks).forM hstands inputs
  have hworld := looped_final order inputs (s := s) rfl
  obtain ⟨v, out, err⟩ := u
  obtain rfl : v = final inputs := by
    rw [process, hu] at hworld
    exact hworld
  obtain rfl : out = s.out ++ (session inputs).1 := hwrote.out
  obtain rfl : err = (session inputs).2 := hwrote.err
  refine (exec_bind_ok (exec_println _ _)).trans ((exec_bind_ok (exec_modify _ _)).trans
    ((exec_bind_ok (exec_println _ _)).trans ((exec_bind_ok hu).trans
      ((exec_bind_ok (exec_println _ _)).trans ?_))))
  exact exec_distances l (Outcomes.main_recorded inputs) _ inputs inputs maps _ hmaps

/-- Seven conjunctions of the branches of one input are reported. -/
theorem main_lists_numbered : ∃ map : BranchMap (final [.new "ai1_ce1"]),
    exec (main .sorted .numbered [.new "ai1_ce1"]) ⟨TaskOne.Direct.start, [], []⟩ =
      (.ok (), ⟨final [.new "ai1_ce1"], ["reset\n", "Fuzzed input length is: 1\n"] ++
        (session [.new "ai1_ce1"]).1 ++ ["\nPrinting branches\n"] ++
          (nullLines 7 ++ Listing.numbered.report (.new "ai1_ce1") map),
        (session [.new "ai1_ce1"]).2⟩) := by
  have hlists := main_lists .sorted .numbered [.new "ai1_ce1"]
  have hseven : warnings (final [.new "ai1_ce1"]) [.new "ai1_ce1"]
      (members (final [.new "ai1_ce1"])) "ai1_ce1" = 7 := by decide +kernel
  generalize final [.new "ai1_ce1"] = w at hlists hseven ⊢
  obtain ⟨maps, hmaps, hmain, -⟩ := hlists
  rw [printed, List.mapM_cons, List.mapM_nil] at hmaps
  cases hmap : CalculateDistance w [.new "ai1_ce1"] (members w) (MyString.new "ai1_ce1").val with
  | error e =>
    rw [hmap] at hmaps
    cases hmaps
  | ok map =>
    rw [hmap] at hmaps
    cases hmaps
    refine ⟨map, hmain.trans ?_⟩
    have hval : (MyString.new "ai1_ce1").val = "ai1_ce1" := rfl
    rw [List.zip_cons_cons, List.zip_nil_left, List.flatMap_cons, List.flatMap_nil,
      List.append_nil, hval, hseven]
    rfl

end TaskTwo

end

namespace TaskThree
open Fuzzing (Run)

structure Main where
  screen : Screen.Main
  sets : List (List ℕ)
  currentRun : Run
  runLst : List Run

/-- What is printed aside. -/
def Main.task (s : Main) : Fuzzing.Main := ⟨s.screen.world, s.sets, s.currentRun, s.runLst⟩

abbrev Prog := Imp Throwable Main

def onScreen {α : Type} (p : Screen.Prog α) : Prog α :=
  zoom Main.screen (fun t s => { s with screen := t }) p

def addException (e : Throwable) : Prog Unit := modify fun s =>
  { s with currentRun.exceptions := s.currentRun.exceptions ++ [e] }

section
variable (order : Order)

/-- The body of the inner loop. Its `if` does not throw. -/
def process (input : MyString) : Prog Unit := do
  onScreen (println ("Fuzzing: " ++ input.val))
  ifM (onScreen (lift (Fuzzer.check input))) do
    addException noTransition
  tryCatch (do
    onScreen (respond order CalculateOutput input)
    modify fun s => { s with currentRun.branches := some s.sets.length }) fun e => match e with
      | .illegalArgument message => do
        onScreen (complain message)
        addException (.illegalArgument message)
      | e => throw e

/-- The body of the outer loop, with the inputs it has drawn. -/
def iteration (fuzzed_inputs : List MyString) : Prog Unit := do
  modify fun s => { s with
    sets := s.sets ++ [s.screen.world.branches]
    screen.world := { s.screen.world with branches := [] } }
  onScreen (println "reset")
  modify fun s => { s with screen.world := reset s.screen.world }
  modify fun s => { s with currentRun := .new fuzzed_inputs }
  onScreen (println (lengthLine fuzzed_inputs))
  fuzzed_inputs.forM (process order)
  modify fun s => { s with runLst := s.runLst ++ [s.currentRun] }

def main (runs : List (List MyString)) : Prog Unit := runs.forM (iteration order)

theorem projects_onScreen {α : Type} {p : Screen.Prog α} {q : Instrumented.Prog α}
    (h : Projects Screen.Main.world p q) :
    Projects Main.task (onScreen p) (Fuzzing.lift q) := by
  intro s
  have hs : exec q s.task.world = _ := h s.screen
  rw [onScreen, Fuzzing.lift, exec_zoom, exec_zoom, hs]
  rfl

theorem unseen_onScreen {p : Screen.Prog Unit} (h : Unseen Screen.Main.world p) :
    Unseen Main.task (onScreen p) := by
  intro s
  obtain ⟨hresult, hworld⟩ := Prod.ext_iff.mp (h s.screen)
  rw [onScreen, exec_zoom]
  exact Prod.ext hresult
    (congrArg (Fuzzing.Main.mk · s.sets s.currentRun s.runLst) hworld)

theorem process_projects (input : MyString) :
    Projects Main.task (process order input) (Fuzzing.process input) := by
  refine (unseen_onScreen (unseen_println _)).before
    (((projects_onScreen projects_lift).ifM (projects_modify fun _ => rfl)).bind fun _ => ?_)
  refine Projects.tryCatch ((projects_onScreen (projects_respond order
    (CalculateOutput_projects input))).bind fun _ => projects_modify fun _ => rfl) fun e => ?_
  cases e with
  | illegalArgument message =>
    exact (unseen_onScreen (unseen_complain message)).before (projects_modify fun _ => rfl)
  | nullPointer => exact projects_throw _
  | arithmetic => exact projects_throw _

theorem iteration_projects (inputs : List MyString) :
    Projects Main.task (iteration order inputs) (Fuzzing.iteration inputs) := by
  unfold iteration Fuzzing.iteration
  refine Projects.bind (projects_modify fun _ => rfl) fun _ => ?_
  refine (unseen_onScreen (unseen_println _)).before ?_
  refine Projects.bind (projects_modify fun _ => rfl) fun _ => ?_
  refine Projects.bind (projects_modify fun _ => rfl) fun _ => ?_
  refine (unseen_onScreen (unseen_println _)).before ?_
  exact (Projects.forM (process_projects order) inputs).bind fun _ => projects_modify fun _ => rfl

theorem exec_onScreen {α : Type} {p : Screen.Prog α} {r : Except Throwable α} {s : Main}
    {t : Screen.Main} (h : exec p s.screen = (r, t)) :
    exec (onScreen p) s = (r, { s with screen := t }) := by
  rw [onScreen, exec_zoom, h]

theorem process_answers : Answers Main.screen (process order) := by
  intro m n s input hs
  obtain ⟨u, hu, hstands, hwrote⟩ := hs.begin check_decides input
  have hr := CalculateOutput_speaks.respond order hstands input
  refine Leads.seq (exec_onScreen (exec_println _ _)) (Leads.seq (exec_ifM_of_false
    (exec_onScreen hu)) ?_)
  unfold entry
  unfold Leads
  rw [exec_tryCatch]
  cases hf : find input.val m with
  | none =>
    rw [hf] at hr
    obtain ⟨v, hv, hstands', hwrote'⟩ := hr
    rw [exec_bind_error (exec_onScreen hv)]
    obtain ⟨x, hx, hstands'', hwrote''⟩ := hstands'.complain (hwrote.trans hwrote')
      "Current state has no transition for this input!"
    exact ⟨_, (exec_bind_ok (exec_onScreen hx)).trans (exec_modify _ _), hstands'', hwrote''⟩
  | some t =>
    rw [hf] at hr
    obtain ⟨v, hv, hstands', hwrote'⟩ := hr
    rw [exec_bind_ok (exec_onScreen hv), exec_modify]
    exact ⟨_, rfl, hstands', hwrote.trans hwrote'⟩

/-- What is printed in an iteration. -/
def printed (inputs : List MyString) : List String :=
  ["reset\n", lengthLine inputs ++ "\n"] ++ (session inputs).1

theorem iteration_prints {s : Main} (hvar : ∀ k, (s.screen.world.var k).varName = none)
    (inputs : List MyString) :
    Leads (iteration order inputs) s fun u => (∀ k, (u.screen.world.var k).varName = none) ∧
      Wrote s.screen u.screen (printed inputs) (session inputs).2 := by
  let t : Screen.Main := ⟨reset { s.screen.world with branches := [] },
    s.screen.out ++ ["reset\n"] ++ [lengthLine inputs ++ "\n"], s.screen.err⟩
  have hstands : Stands .m4 .reset t :=
    stands_reset (s := ⟨{ s.screen.world with branches := [] }, t.out, t.err⟩) hvar
  obtain ⟨u, hu, ⟨m, n, hstands'⟩, hwrote⟩ := (process_answers order).forM (s :=
    { s with sets := s.sets ++ [s.screen.world.branches], screen := t, currentRun := .new inputs })
    hstands inputs
  refine ⟨_, (exec_bind_ok (exec_modify _ _)).trans ((exec_bind_ok (exec_onScreen
    (exec_println _ _))).trans ((exec_bind_ok (exec_modify _ _)).trans
      ((exec_bind_ok (exec_modify _ _)).trans ((exec_bind_ok (exec_onScreen
        (exec_println _ _))).trans ((exec_bind_ok hu).trans (exec_modify _ _)))))),
    hstands'.named.var, ?_, hwrote.err⟩
  refine hwrote.out.trans ?_
  simp only [t, printed, List.append_assoc, List.cons_append, List.nil_append]
  rfl

theorem runs_print {s : Main} (hvar : ∀ k, (s.screen.world.var k).varName = none)
    (runs : List (List MyString)) :
    Leads (main order runs) s fun u => u.task = after Fuzzing.step s.task runs ∧
      Wrote s.screen u.screen (runs.flatMap printed) (runs.flatMap fun r => (session r).2) := by
  induction runs generalizing s with
  | nil => exact ⟨s, rfl, rfl, (List.append_nil _).symm, (List.append_nil _).symm⟩
  | cons r runs ih =>
    obtain ⟨u, hu, hvar', hwrote⟩ := iteration_prints order hvar r
    obtain ⟨v, hv, htask, hwrote'⟩ := ih hvar'
    have hstep : Fuzzing.step s.task r = (.ok (), u.task) := by
      rw [Fuzzing.step, iteration_projects order r s, hu]
    refine ⟨v, (exec_bind_ok hu).trans hv, ?_, hwrote.trans hwrote'⟩
    rw [after_cons, hstep, htask]

def start : Main := ⟨⟨TaskOne.Direct.start, [], []⟩, [], .new [], []⟩

/-- Every iteration prints what the first task prints for its inputs, whatever the iterations
before it have left in the registers, and the runs are stored as they are without the printing. -/
theorem main_runs (runs : List (List MyString)) :
    ∃ s, exec (main order runs) start = (.ok (), s) ∧
      s.task = after Fuzzing.step Fuzzing.start runs ∧ s.screen.out = runs.flatMap printed ∧
      s.screen.err = runs.flatMap fun r => (session r).2 := by
  obtain ⟨s, hs, htask, hwrote⟩ := runs_print order (s := start) (fun _ => rfl) runs
  exact ⟨s, hs, htask, hwrote.out, hwrote.err⟩

end

/-- Two runs of one input each. -/
theorem main_runs_sorted :
    let out := ["reset\n", "Fuzzed input length is: 1\n"] ++ (session [.new "ai1_ce1"]).1
    ∃ s, exec (main .sorted [[.new "ai1_ce1"], [.new "ai1_ce1"]]) start = (.ok (), s) ∧
      s.screen.out = out ++ out ∧ s.screen.err = [] := by
  intro out
  obtain ⟨s, hs, -, hout, herr⟩ := main_runs .sorted [[.new "ai1_ce1"], [.new "ai1_ce1"]]
  exact ⟨s, hs, hout.trans (by decide), herr.trans (by decide)⟩

end TaskThree

end EcaEngines.LaterTasks
