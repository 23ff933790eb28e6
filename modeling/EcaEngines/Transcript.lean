import EcaEngines.Screen
import EcaEngines.TaskOne

/-!
# What the first task prints

`main` of `instm183_LTL_CTLCond` and of `instm183_LTL_CTLDirect`, which is the same, with all it
writes for the inputs that the fuzzer has drawn: what `I.myIf` and `I.myPrint` write in
`calculateOutput`, and what the loop writes itself.
-/
namespace EcaEngines.Transcript
open Imperative Dispatch Transitions Blocks Screen
open Instrumented hiding Prog
open TaskOne hiding calculateOutput calculateOutput_copied

/-- The text of `calculateOutput`, with what its parts write. -/
def calculateOutput (k : Store) (input : MyString) : Prog Unit :=
  Text.calculateOutput lift (Text.methods lift k input)

/-- The condition of the `if` in the loop. -/
def check (input : MyString) : Instrumented.Prog Bool := do
  I.myEquals 1 (.object input) "ai1_ce1"
  I.myEquals 2 (.object input) "usr4_ai1_VoidReply"
  I.myEquals 3 (.object input) "usr4_ni1_ne1"
  I.myEquals 4 (.object input) "ai1_ce2"
  I.myEquals 5 (.object input) "usr2_ai1_VoidReply"
  I.myAnd 6 (.bool 1) (.bool 2)
  I.myAnd 7 (.bool 3) (.bool 4)
  I.myAnd 8 (.bool 6) (.bool 7)
  I.myAnd 9 (.bool 8) (.bool 5)
  I.myIf (.bool 9)

section
variable (order : Order) (k : Store)

/-- The body of the loop. -/
def process : MyString → Prog Unit := Screen.process order check (calculateOutput k)

def main (fuzzed_inputs : List MyString) : Prog Unit := do
  println "reset"
  modify fun s => { s with world := reset s.world }
  fuzzed_inputs.forM (process order k)

end

/-- What is written aside, the program of the first task is run. -/
theorem calculateOutput_projects (k : Store) (input : MyString) :
    Projects Main.world (calculateOutput k input) (TaskOne.calculateOutput k input) :=
  Text.calculateOutput_projects lift (fun _ => projects_lift)
    (Text.methods_projects lift (fun _ => projects_lift) k input)

section
variable (v : Original.Vars) (err : List String) (input : MyString)

theorem wordCf_follows (t : Transition) : (stages v err).Follows (ifM (lift do
    I.myEquals 1 (.object input) t.letter
    I.myAnd 2 (.bool 1) .cf
    I.myIf (.bool 2)) (lift (block .copied t))) (site input.val t) :=
  Decides.word t fun _ => ⟨_, _, rfl, rfl, rfl, rfl⟩

theorem cfWord_follows (t : Transition) : (stages v err).Follows (ifM (lift do
    I.myEquals 1 (.object input) t.letter
    I.myAnd 2 .cf (.bool 1)
    I.myIf (.bool 2)) (lift (block .copied t))) (site input.val t) :=
  Decides.cf_word t fun _ => ⟨_, _, rfl, rfl, rfl, rfl⟩

theorem methods_follow (m : Mode) :
    (stages v err).Follows (Text.methods lift .copied input m) (method input.val m) :=
  match m with
  | .m1 => wordCf_follows v err input .m1VoidReply
  | .m2 => (wordCf_follows v err input .m2Ne1).seq (wordCf_follows v err input .m2Ce2)
  | .m3 => cfWord_follows v err input .m3VoidReply
  | .m4 => (cfWord_follows v err input .m4Ce2).seq
      ((cfWord_follows v err input .m4Ce1).seq (wordCf_follows v err input .m4Ne1))
  | .m5 => wordCf_follows v err input .m5VoidReply
  | .m6 => (wordCf_follows v err input .m6Ne1).seq (cfWord_follows v err input .m6VoidReply)
  | .m7 => (wordCf_follows v err input .m7Ne1).seq (cfWord_follows v err input .m7VoidReply)
  | .m8 => wordCf_follows v err input .m8VoidReply

end

/-- The conditions and the words stand in the order of the script. -/
theorem calculateOutput_speaks : Speaks (calculateOutput .copied) where
  implements := ⟨_, TaskOne.calculateOutput_implements, calculateOutput_projects .copied⟩
  ends {_ v} err input hv := ⟨_, rfl, script_ends
    (Decides.low hv fun _ => ⟨_, _, rfl, rfl, rfl, rfl⟩)
    (fun h => Decides.m1 hv h (fun _ => ⟨_, _, rfl, rfl, rfl, rfl⟩)
      (methods_follow v err input .m1))
    (Decides.middle hv fun _ => ⟨_, _, rfl, rfl, rfl, rfl⟩)
    (fun h => Decides.cf_string hv h (fun _ => rfl) (fun _ => ⟨_, _, rfl, rfl, rfl, rfl⟩)
      (methods_follow v err input .m2))
    (fun h => Decides.cf_string hv h (fun _ => rfl) (fun _ => ⟨_, _, rfl, rfl, rfl, rfl⟩)
      (methods_follow v err input .m3))
    (fun h => Decides.cf_string hv h (fun _ => rfl) (fun _ => ⟨_, _, rfl, rfl, rfl, rfl⟩)
      (methods_follow v err input .m4))
    (fun h => Decides.string_cf hv h (fun _ => rfl) (fun _ => ⟨_, _, rfl, rfl, rfl, rfl⟩)
      (methods_follow v err input .m5))
    (Decides.upper hv fun _ => ⟨_, _, rfl, rfl, rfl, rfl⟩)
    (fun h => Decides.cf_string hv h (fun _ => rfl) (fun _ => ⟨_, _, rfl, rfl, rfl, rfl⟩)
      (methods_follow v err input .m6))
    (fun h => Decides.cf_string hv h (fun _ => rfl) (fun _ => ⟨_, _, rfl, rfl, rfl, rfl⟩)
      (methods_follow v err input .m7))
    (Decides.high hv fun _ => ⟨_, _, rfl, rfl, rfl, rfl⟩)
    (fun h => Decides.m8 hv h (fun _ => ⟨_, _, rfl, rfl, rfl, rfl⟩)
      (methods_follow v err input .m8))
    (Decides.check fun _ => ⟨_, _, rfl, rfl, rfl, rfl⟩)⟩

theorem check_decides (input : MyString) : Decides (check input) fun _ _ => false :=
  Decides.never (i := input.val) fun _ => ⟨_, _, rfl, rfl, rfl, rfl⟩

section
variable (order : Order)

/-- `main` returns, and this is written to the two streams. -/
def Prints (k : Store) (world : World) (inputs : List MyString)
    (streams : List String × List String) : Prop :=
  ∃ s, exec (main order k inputs) ⟨world, [], []⟩ = (.ok (), s) ∧ s.out = streams.1 ∧
    s.err = streams.2

theorem prints {world : World} (hvar : ∀ k, (world.var k).varName = none)
    (inputs : List MyString) :
    let t := session inputs
    Prints order .copied world inputs ("reset\n" :: t.1, t.2) := by
  obtain ⟨s, hs, -, hwrote⟩ := (process_answers order check_decides calculateOutput_speaks).forM
    (s := ⟨reset world, ["reset\n"], []⟩) (stands_reset (s := ⟨world, ["reset\n"], []⟩) hvar) inputs
  refine ⟨s, ?_, hwrote.out, hwrote.err⟩
  unfold main
  exact (exec_bind_ok (exec_modify _ _)).trans ((exec_bind_ok (exec_modify _ _)).trans hs)

theorem calculateOutput_copied : calculateOutput .copied = calculateOutput .fresh := by
  funext input
  unfold calculateOutput
  rw [Text.methods_copied]

theorem main_copied : main order .copied = main order .fresh := by
  funext inputs
  unfold main process
  rw [calculateOutput_copied]

end

/-- Both programs write the same, and all of it is a function of the inputs: of the modes that they
lead to and of the names that the transitions have left in three sets. -/
theorem main_prints (order order' : Order) (inputs : List MyString) :
    let t := session inputs
    Prints order .fresh TaskOne.Cond.start inputs ("reset\n" :: t.1, t.2) ∧
      Prints order' .copied TaskOne.Direct.start inputs ("reset\n" :: t.1, t.2) := by
  refine ⟨?_, prints order' (fun _ => rfl) inputs⟩
  unfold Prints
  rw [← main_copied]
  exact prints order (fun _ => rfl) inputs

/-- The condition of the check in the loop comes first, eight conditions stand before the word and
five behind it. -/
theorem main_prints_sorted :
    let streams := (["reset\n", "Fuzzing: ai1_ce1\n", "bfalse ",
      "bfalse ", "btrue ", "bfalse ", "bfalse ", "btrue ", "bfalse ", "btrue ",
      "\nusr4_ai1_ce1\n", "bfalse ", "bfalse ", "bfalse ", "bfalse ", "bfalse ", "\n", "\n",
      "Name of deepest int variable\n", "a422009172\n",
      "Name of deepest boolean variable\n", "cf\n",
      "Name of deepest string variable\n", "g\n"], ([] : List String))
    Prints .sorted .fresh TaskOne.Cond.start [.new "ai1_ce1"] streams ∧
      Prints .sorted .copied TaskOne.Direct.start [.new "ai1_ce1"] streams := by
  intro streams
  have hsession : ("reset\n" :: (session [.new "ai1_ce1"]).1, (session [.new "ai1_ce1"]).2) =
      streams := by decide
  rw [← hsession]
  exact main_prints .sorted .sorted [.new "ai1_ce1"]

end EcaEngines.Transcript
