import EcaEngines.Versions

/-!
# The drivers

`main` of `m183_LTL_CTL.java` and of `m183_LTL_CTL.c`: the loops that read the standard input, with
all that they write. The input is given in words to the one and in codes to the other.
-/
namespace EcaEngines.Drivers
open Imperative Dispatch Versions
open Original (Throwable noTransition)

namespace Java

structure Main where
  eca : Original.State
  /-- The lines of `System.err`. -/
  err : List String

abbrev Prog := Imp Throwable Main

def start : Main := ⟨.start, []⟩

def calculateOutput (input : String) : Prog Unit :=
  zoom Main.eca (fun eca s => { s with eca := eca }) (Original.calculateOutput input)

/-- One round of the loop. At the end of the input `readLine()` gives null, and the first `equals`
throws. -/
def round : Option String → Prog Unit
  | none => throw .nullPointer
  | some input => do
    ifM (test fun _ => input == "ai1_ce1" && input == "usr4_ai1_VoidReply" &&
        input == "usr4_ni1_ne1" && input == "ai1_ce2" && input == "usr2_ai1_VoidReply") do
      throw noTransition
    tryCatch (calculateOutput input) fun e => match e with
      | .illegalArgument message => modify fun s =>
        { s with err := s.err ++ ["Invalid input: " ++ message] }
      | e => throw e

/-- The round in which the input has ended is the last one. -/
def main (lines : List String) : Prog Unit := (lines.map some ++ [none]).forM round

end Java

namespace C
open CVersion

/-- `main` with the numbers that `scanf` reads until it fails. It assigns nothing then, at the end
of the input or at what is no number, and its result is ignored: the uninitialised `input` is
compared, which is undefined behaviour. -/
def main : List Int32 → Prog Int32
  | [] => throw .undefined
  | input :: inputs =>
    if input ≠ 55 ∧ input ≠ 56 ∧ input ≠ 57 ∧ input ≠ 58 ∧ input ≠ 59 then
      pure (-2)
    else do
      calculate_output input
      main inputs

end C

/-- The words for the inputs that are accepted, and the inputs that are not. -/
def dialogue : Mode → List String → List String × List String
  | _, [] => ([], [])
  | m, i :: is =>
    match Modes.next m i with
    | some (word, m') => (word :: (dialogue m' is).1, (dialogue m' is).2)
    | none => ((dialogue m is).1, i :: (dialogue m is).2)

section
variable {m : Mode}

theorem dialogue_none {i : String} (h : Modes.next m i = none) (is : List String) :
    dialogue m (i :: is) = ((dialogue m is).1, i :: (dialogue m is).2) := by
  rw [dialogue, h]

theorem dialogue_some {i : String} {r : String × Mode} (h : Modes.next m i = some r)
    (is : List String) :
    dialogue m (i :: is) = (r.1 :: (dialogue r.2 is).1, (dialogue r.2 is).2) := by
  rw [dialogue, h]

/-- The engine is in a mode, and this has been printed. -/
structure Java.Stands (m : Mode) (out err : List String) (s : Java.Main) : Prop where
  inv : Modes.Inv m s.eca.toVars
  out : s.eca.out = out
  err : s.err = err

theorem Java.round_stands {out err : List String} {s : Java.Main} (hs : Java.Stands m out err s)
    (input : String) :
    Leads (Java.round (some input)) s fun s' => match Modes.next m input with
      | some (word, m') => Java.Stands m' (out ++ [word]) err s'
      | none => Java.Stands m out
          (err ++ ["Invalid input: Current state has no transition for this input!"]) s' := by
  obtain ⟨hinv, rfl, rfl⟩ := hs
  have hfalse : (input == "ai1_ce1" && input == "usr4_ai1_VoidReply") = false := by
    by_cases hi : input = "ai1_ce1" <;> simp [hi]
  have hcheck : exec (ifM (test fun _ => input == "ai1_ce1" && input == "usr4_ai1_VoidReply" &&
      input == "usr4_ni1_ne1" && input == "ai1_ce2" && input == "usr2_ai1_VoidReply")
        (throw noTransition : Java.Prog Unit)) s = (.ok (), s) := by
    simp only [hfalse, Bool.false_and, exec_ifM_test, Bool.false_eq_true, if_false]
  have hcall := Transitions.exec_calculateOutput input s.eca
  rw [Transitions.fired_of_guard hinv.guard] at hcall
  refine Leads.seq hcheck ?_
  unfold Leads Java.calculateOutput
  rw [exec_tryCatch, exec_zoom, hcall, Modes.next_eq]
  cases hf : Transitions.find input m with
  | none => exact ⟨_, rfl, hinv, rfl, rfl⟩
  | some t =>
    obtain ⟨rfl, -⟩ := Transitions.find_eq_some_iff.mp hf
    exact ⟨_, rfl, (Modes.safe t hinv).1, rfl, rfl⟩

theorem Java.rounds_stands {out err : List String} {s : Java.Main} (hs : Java.Stands m out err s)
    (lines : List String) :
    Leads ((lines.map some).forM Java.round) s fun s' =>
      s'.eca.out = out ++ (dialogue m lines).1 ∧
      s'.err = err ++ (dialogue m lines).2.map fun _ =>
        "Invalid input: Current state has no transition for this input!" := by
  induction lines generalizing m out err s with
  | nil => exact ⟨s, rfl, by rw [hs.out]; exact (List.append_nil _).symm,
      by rw [hs.err]; exact (List.append_nil _).symm⟩
  | cons i is ih =>
    obtain ⟨u, hu, hstands⟩ := Java.round_stands hs i
    cases hn : Modes.next m i with
    | none =>
      rw [hn] at hstands
      rw [dialogue_none hn]
      obtain ⟨v, hv, hout, herr⟩ := ih hstands
      exact ⟨v, (exec_bind_ok hu).trans hv, hout, by rw [herr, List.append_assoc]; rfl⟩
    | some r =>
      rw [hn] at hstands
      rw [dialogue_some hn]
      obtain ⟨v, hv, hout, herr⟩ := ih hstands
      exact ⟨v, (exec_bind_ok hu).trans hv, by rw [hout, List.append_assoc]; rfl, herr⟩

/-- The program is in the counterpart of a mode, and has printed this. -/
structure C.Stands (m : Mode) (out err : List Int32) (s : CVersion.State) : Prop where
  inv : CModes.Inv (counterpart m) s.toVars
  out : s.out = out
  err : s.err = err

theorem C.call_stands {out err : List Int32} {s : CVersion.State} (hs : C.Stands m out err s)
    (i : Input) :
    Leads (CVersion.calculate_output i.code) s fun s' => match Modes.next m i.word with
      | some (word, m') => ∃ code, codeOf word = some code ∧ C.Stands m' (out ++ [code]) err s'
      | none => C.Stands m out (err ++ [i.code]) s' := by
  obtain ⟨hinv, rfl, rfl⟩ := hs
  obtain ⟨p, hp, hends⟩ :=
    @CModes.calculate_output_ends s.toVars s.out s.err (counterpart m) hinv i.code
  have he := hends.idle _ rfl
  have hm := find_counterpart m i
  rw [hp]
  refine Leads.seq (exec_modify _ s) ?_
  unfold Leads
  change ∃ t, exec p ⟨s.toVars, 1, s.out, s.err⟩ = (.ok (), t) ∧ _
  generalize exec p ⟨s.toVars, 1, s.out, s.err⟩ = r at he ⊢
  obtain ⟨r, t⟩ := r
  cases hn : Modes.next m i.word with
  | none =>
    rw [hn] at hm
    rw [Option.map_eq_none_iff.mp hm] at he
    obtain ⟨rfl, rfl⟩ := he
    exact ⟨_, rfl, hinv, rfl, rfl⟩
  | some a =>
    rw [hn] at hm
    obtain ⟨u, hf, hu⟩ := Option.map_eq_some_iff.mp hm
    obtain ⟨hcode, htarget⟩ := Prod.mk.inj hu
    rw [hf] at he
    obtain ⟨rfl, v, rfl, hv⟩ := he
    exact ⟨_, rfl, u.code, hcode.symm, htarget ▸ hv, rfl, rfl⟩

/-- The test before the return. -/
def C.known (k : Int32) : Bool := k == 55 || k == 56 || k == 57 || k == 58 || k == 59

theorem C.known_iff {k : Int32} : C.known k = true ↔ ∃ i : Input, i.code = k := by
  constructor
  · intro h
    simp only [C.known, Bool.or_eq_true, beq_iff_eq] at h
    rcases h with (((rfl | rfl) | rfl) | rfl) | rfl
    · exact ⟨.ai1_ce1, rfl⟩
    · exact ⟨.usr4_ai1_VoidReply, rfl⟩
    · exact ⟨.usr4_ni1_ne1, rfl⟩
    · exact ⟨.ai1_ce2, rfl⟩
    · exact ⟨.usr2_ai1_VoidReply, rfl⟩
  · rintro ⟨i, rfl⟩
    cases i <;> decide

theorem C.main_cons (k : Int32) (ks : List Int32) :
    C.main (k :: ks) = if C.known k then CVersion.calculate_output k >>= fun _ => C.main ks
      else pure (-2) := by
  have hiff : (k ≠ 55 ∧ k ≠ 56 ∧ k ≠ 57 ∧ k ≠ 58 ∧ k ≠ 59) ↔ ¬ C.known k = true := by
    simp only [C.known, Bool.or_eq_true, beq_iff_eq, not_or, ne_eq, and_assoc]
  rw [C.main, if_congr hiff rfl rfl, ite_not]

/-- The calls for the inputs that are known, up to the first one that is not, meet no undefined
behaviour. -/
theorem C.calls_stand {out err : List Int32} {s : CVersion.State} (hs : C.Stands m out err s)
    (ks : List Int32) :
    ∃ is : List Input, is.map Input.code = ks.takeWhile C.known ∧
      Leads ((ks.takeWhile C.known).forM CVersion.calculate_output) s fun t =>
        (∃ codes, t.out = out ++ codes ∧
          codes.map some = (dialogue m (is.map Input.word)).1.map codeOf) ∧
        ∃ invalid, t.err = err ++ invalid ∧
          invalid.map some = (dialogue m (is.map Input.word)).2.map codeOf := by
  induction ks generalizing m out err s with
  | nil => exact ⟨[], rfl, s, rfl, ⟨[], by rw [hs.out, List.append_nil], rfl⟩, [],
      by rw [hs.err, List.append_nil], rfl⟩
  | cons k ks ih =>
    by_cases hk : C.known k = true
    · obtain ⟨i, rfl⟩ := C.known_iff.mp hk
      obtain ⟨u, hu, hstands⟩ := C.call_stands hs i
      rw [List.takeWhile_cons_of_pos hk]
      cases hn : Modes.next m i.word with
      | none =>
        rw [hn] at hstands
        obtain ⟨is, his, t, ht, hcodes, invalid, herr, hinvalid⟩ := ih hstands
        refine ⟨i :: is, by rw [List.map_cons, his], t, (exec_bind_ok hu).trans ht, ?_⟩
        rw [List.map_cons, dialogue_none hn]
        refine ⟨hcodes, i.code :: invalid, by rw [herr, List.append_assoc]; rfl, ?_⟩
        rw [List.map_cons, List.map_cons, hinvalid, i.codeOf_word]
      | some r =>
        rw [hn] at hstands
        obtain ⟨code, hcode, hstands⟩ := hstands
        obtain ⟨is, his, t, ht, ⟨codes, hout, hcodes⟩, herr⟩ := ih hstands
        refine ⟨i :: is, by rw [List.map_cons, his], t, (exec_bind_ok hu).trans ht, ?_⟩
        rw [List.map_cons, dialogue_some hn]
        refine ⟨⟨code :: codes, by rw [hout, List.append_assoc]; rfl, ?_⟩, herr⟩
        rw [List.map_cons, List.map_cons, hcodes, hcode]
    · rw [List.takeWhile_cons_of_neg hk]
      exact ⟨[], rfl, s, rfl, ⟨[], by rw [hs.out, List.append_nil], rfl⟩, [],
        by rw [hs.err, List.append_nil], rfl⟩

/-- What ends the loop: a number that is not known, or that there is no number any more. -/
theorem C.exec_main {s t : CVersion.State} {ks : List Int32}
    (h : exec ((ks.takeWhile C.known).forM CVersion.calculate_output) s = (.ok (), t)) :
    exec (C.main ks) s = (if ks.all C.known then .error .undefined else .ok (-2), t) := by
  induction ks generalizing s with
  | nil =>
    obtain ⟨-, rfl⟩ := Prod.mk.inj h
    rfl
  | cons k ks ih =>
    by_cases hk : C.known k = true
    · rw [List.takeWhile_cons_of_pos hk] at h
      obtain ⟨⟨⟩, u, hu, hrest⟩ := of_exec_bind h
      rw [C.main_cons, if_pos hk, exec_bind_ok hu, ih hrest, List.all_cons, hk, Bool.true_and]
    · rw [List.takeWhile_cons_of_neg hk] at h
      obtain ⟨-, rfl⟩ := Prod.mk.inj h
      rw [C.main_cons, if_neg hk, List.all_cons, Bool.eq_false_iff.mpr hk, Bool.false_and]
      rfl

end

/-- The program ends with an exception at the end of the input, and these are the lines on the two
streams. -/
def Java.Prints (lines out err : List String) : Prop :=
  ∃ s, exec (Java.main lines) Java.start = (.error .nullPointer, s) ∧ s.eca.out = out ∧ s.err = err

/-- The calls for the known inputs, up to the first number that is not known, meet no undefined
behaviour, and `main` ends where they do: it returns -2 at that number, and without one it comes to
the end of the input, where its behaviour is undefined. Up to there the codes of these words are
printed. -/
def C.Prints (inputs : List Int32) (out err : List String) : Prop :=
  ∃ s, exec ((inputs.takeWhile C.known).forM CVersion.calculate_output) .start = (.ok (), s) ∧
    exec (C.main inputs) .start = (if inputs.all C.known then .error .undefined else .ok (-2), s) ∧
    s.out.map some = out.map codeOf ∧ s.err.map some = err.map codeOf

/-- Both programs print what the machine answers, the one in words and the other in codes. The Java
program reports all that is rejected, also a line that is no input, and goes on to the end of the
input. The C program returns as soon as a number is no input, and has no defined end otherwise. -/
theorem mains_print :
    (∀ lines, Java.Prints lines (dialogue .m4 lines).1 ((dialogue .m4 lines).2.map fun _ =>
      "Invalid input: Current state has no transition for this input!")) ∧
    ∀ ks, ∃ is : List Input, is.map Input.code = ks.takeWhile C.known ∧
      C.Prints ks (dialogue .m4 (is.map Input.word)).1 (dialogue .m4 (is.map Input.word)).2 := by
  constructor
  · intro lines
    obtain ⟨s, hs, hout, herr⟩ :=
      Java.rounds_stands (s := Java.start) ⟨Modes.inv_start, rfl, rfl⟩ lines
    have hmain : Java.main lines =
        (lines.map some).forM Java.round >>= fun _ => [none].forM Java.round :=
      List.forM_append
    exact ⟨s, hmain ▸ (exec_bind_ok hs).trans rfl, hout, herr⟩
  · intro ks
    obtain ⟨is, his, t, ht, ⟨codes, hout, hcodes⟩, invalid, herr, hinvalid⟩ :=
      C.calls_stand (m := .m4) (s := .start) ⟨CModes.inv_start, rfl, rfl⟩ ks
    exact ⟨is, his, t, ht, C.exec_main ht, by rw [hout, ← hcodes]; rfl,
      by rw [herr, ← hinvalid]; rfl⟩

end EcaEngines.Drivers
