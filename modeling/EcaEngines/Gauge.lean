import EcaEngines.Lookups
import EcaEngines.Tally

/-!
# How many decisions of one call are true

The state and the input tell exactly. The region counts, the condition of a mode in it,
and the input or, in the region of the check, the check itself. Above 100 nothing does.
-/
namespace EcaEngines.Gauge
open Imperative Dispatch Transitions Lookups Tally
open Regions (inMiddle inUpper)
open Original (Throwable Vars noTransition)

/-- The true decisions of a call. -/
def trueTests (v : Vars) (letter : String) : ℕ :=
  if Region.high.Holds cuts v.a2108127495 then 0
  else 1 + (modeOf v).isSome.toNat +
    ((taken v letter).isSome || Region.upper.Holds cuts v.a2108127495).toNat

section
variable {v : Vars} {k : ℕ} {o : List String} {m n : ℕ}

theorem holds_iff {r r' : Region} (h : r.Holds cuts v.a2108127495) :
    r'.Holds cuts v.a2108127495 ↔ r' = r := Region.holds_iff (by decide) h

/-- The mode is one of the region. -/
theorem modeOf_isSome_iff {r : Region} (h : r.Holds cuts v.a2108127495) :
    (modeOf v).isSome ↔ ∃ m : Mode, m.region = r ∧ Side m v := by
  constructor
  · intro hs
    obtain ⟨m, hm⟩ := Option.isSome_iff_exists.mp hs
    have hg := modeOf_eq_some_iff.mp hm
    exact ⟨m, (holds_iff h).mp hg.1, hg.2⟩
  · rintro ⟨m, rfl, hside⟩
    exact Option.isSome_iff_exists.mpr ⟨m, modeOf_eq_some_iff.mpr ⟨h, hside⟩⟩

theorem inMiddle_iff : inMiddle v = true ↔ Region.middle.Holds cuts v.a2108127495 := by
  simp [inMiddle, Region.Holds, cuts]

theorem inUpper_iff : inUpper v = true ↔ Region.upper.Holds cuts v.a2108127495 := by
  simp [inUpper, Region.Holds, cuts]

/-- The true decisions of a search in one region that finds no transition. -/
def searched (v : Vars) : ℕ := 1 + (modeOf v).isSome.toNat

theorem counts_low_in (letter : String) (h : Region.low.Holds cuts v.a2108127495) :
    Counts v k o (Nested.low letter) 0 (searched v) := by
  have hinner : Counts v k o (ifM (Nested.between (-83) 18 Vars.a1522448132)
      (Nested.calculateOutputm1 letter)) 1 (searched v) := by
    have hmode := modeOf_isSome_iff h
    refine (guards_between _ _ _).counts (fun hs => ?_) fun hs => ?_
    · have hsome : (modeOf v).isSome := hmode.mpr ⟨.m1, rfl, by simpa [Side] using hs⟩
      rw [searched, hsome]
      exact counts_word letter _
    · have hnone : (modeOf v).isSome = false := by
        rw [Bool.eq_false_iff, Ne, hmode]
        rintro ⟨m, hm, hside⟩
        cases m <;> cases hm
        simp [Side] at hs hside
        exact absurd hside.2 (Int32.not_le.mpr (hs hside.1))
      rw [searched, hnone]
      rfl
  refine (guards_atMost _ _).counts (fun _ => hinner) fun hf => ?_
  simp [Region.Holds, cuts] at h
  simp [h] at hf

theorem counts_low_out (letter : String) (h : ¬ Region.low.Holds cuts v.a2108127495) :
    Counts v k o (Nested.low letter) n n := by
  refine (guards_atMost _ _).counts (fun hf => ?_) fun _ => rfl
  simp [Region.Holds, cuts] at h
  simp [Int32.not_le.mpr h] at hf

/-- Of the strings that are asked for one after the other at most one is the right one. -/
theorem searched_of_strings {r : Region} {words : List String}
    (h : r.Holds cuts v.a2108127495)
    (hw : (∃ m : Mode, m.region = r ∧ Side m v) ↔ v.a1745113960 ∈ words) :
    searched v = if v.a1745113960 ∈ words then 2 else 1 := by
  have hmode := (modeOf_isSome_iff h).trans hw
  unfold searched
  split_ifs with hmem
  · rw [hmode.mpr hmem, Bool.toNat_true]
  · rw [Bool.eq_false_iff.mpr (mt hmode.mp hmem), Bool.toNat_false]

theorem searched_middle (h : Region.middle.Holds cuts v.a2108127495) :
    searched v = if v.a1745113960 ∈ ["e", "g", "h", "i"] then 2 else 1 := by
  refine searched_of_strings h ⟨?_, fun hmem => ?_⟩
  · rintro ⟨m, hm, hside⟩
    cases m <;> cases hm <;> rw [show v.a1745113960 = _ from hside] <;> decide
  · simp only [List.mem_cons, List.not_mem_nil, or_false] at hmem
    obtain hs | hs | hs | hs := hmem
    · exact ⟨.m2, rfl, hs⟩
    · exact ⟨.m3, rfl, hs⟩
    · exact ⟨.m4, rfl, hs⟩
    · exact ⟨.m5, rfl, hs⟩

theorem searched_upper (h : Region.upper.Holds cuts v.a2108127495) :
    searched v = if v.a1745113960 ∈ ["g", "h"] then 2 else 1 := by
  refine searched_of_strings h ⟨?_, fun hmem => ?_⟩
  · rintro ⟨m, hm, hside⟩
    cases m <;> cases hm <;> rw [show v.a1745113960 = _ from hside] <;> decide
  · simp only [List.mem_cons, List.not_mem_nil, or_false] at hmem
    obtain hs | hs := hmem
    · exact ⟨.m6, rfl, hs⟩
    · exact ⟨.m7, rfl, hs⟩

/-- One more string is asked for, after others. -/
theorem counts_next {p : Nested.Prog Unit} (words : List String) (word : String)
    (hp : Counts v k o p 2 2) (hword : word ∉ words) :
    Counts v k o (ifM (Nested.equal Vars.a1745113960 word) p)
      (if v.a1745113960 ∈ words then 2 else 1)
      (if v.a1745113960 ∈ words ++ [word] then 2 else 1) := by
  have h := counts_mode (m := if v.a1745113960 ∈ words then 2 else 1) hp word fun hs =>
    if_neg (hs ▸ hword)
  convert h using 1
  by_cases hs : v.a1745113960 = word
  · simp [hs]
  · simp [hs]

theorem counts_middle_in (letter : String) (h : Region.middle.Holds cuts v.a2108127495) :
    Counts v k o (Nested.middle letter) 0 (searched v) := by
  have hword : ∀ t, Counts v k o (Nested.word letter t) 2 2 := counts_word letter
  have he := counts_next [] "e" ((hword .m2Ne1).seq (hword .m2Ce2))
    List.not_mem_nil
  have hg := counts_next ["e"] "g" (hword .m3VoidReply) (by decide)
  have hh := counts_next ["e", "g"] "h"
    ((hword .m4Ce2).seq ((hword .m4Ce1).seq (hword .m4Ne1))) (by decide)
  have hi := counts_next ["e", "g", "h"] "i" (hword .m5VoidReply) (by decide)
  rw [searched_middle h]
  refine (guards_between _ _ _).counts (fun _ => he.seq (hg.seq (hh.seq hi))) fun hf => ?_
  rw [Bool.and_true] at hf
  exact absurd (hf.symm.trans (inMiddle_iff.mpr h)) Bool.false_ne_true

theorem counts_middle_out (letter : String) (h : ¬ Region.middle.Holds cuts v.a2108127495) :
    Counts v k o (Nested.middle letter) n n := by
  refine (guards_between _ _ _).counts (fun hf => ?_) fun _ => rfl
  rw [Bool.and_true] at hf
  exact absurd (inMiddle_iff.mp hf) h

/-- No transition was taken and `n` decisions were true, or one was taken. -/
def Ended (v : Vars) (k : ℕ) (o : List String) (n : ℕ) (s : Nested.State) : Prop :=
  Idle v k o n s ∨ Acted k s

theorem counts_then {p q : Nested.Prog Unit} {l : ℕ} (hp : Counts v k o p m n)
    (hq : ∀ s, Ended v k o n s → Ended v k o l (exec q s).2) (s : Nested.State)
    (hs : Ended v k o m s) : Ended v k o l (exec (p >>= fun _ => q) s).2 := by
  rcases hs with hs | hs
  · obtain ⟨t, ht, hend⟩ := hp.idle s hs
    rw [exec_bind_ok ht]
    exact hq t hend
  · obtain ⟨t, ht, hacted⟩ := hp.acted s hs
    rw [exec_bind_ok ht]
    exact hq t (.inr hacted)

theorem check_ended {s : Nested.State} (hs : Ended v k o n s) :
    Ended v k o (n + 1) (exec Nested.check s).2 := by
  have hcf : Guards v k o (Nested.decision fun _ cf => cf) true := guards_decision fun _ => rfl
  rcases hs with hs | hs
  · obtain ⟨t, ht, hidle⟩ := hcf.idle n s hs
    have hrun : exec Nested.check s = (.error noTransition, t) := exec_ifM_of_true ht
    rw [hrun]
    exact .inl hidle
  · obtain ⟨t, ht, hacted⟩ := hcf.acted s hs
    have hrun : exec Nested.check s = (.ok (), t) := exec_ifM_of_false ht
    rw [hrun]
    exact .inr hacted

theorem upper_ended (letter : String) (h : Region.upper.Holds cuts v.a2108127495)
    {s : Nested.State} (hs : Ended v k o 0 s) :
    Ended v k o (searched v + 1) (exec (Nested.upper letter) s).2 := by
  have hword : ∀ t, Counts v k o (Nested.word letter t) 2 2 := counts_word letter
  have hregion : Guards v k o (Nested.between (-19) 100 Vars.a2108127495) (inUpper v && true) :=
    guards_between _ _ _
  rw [inUpper_iff.mpr h, Bool.and_true] at hregion
  have hg := counts_next [] "g" ((hword .m6Ne1).seq (hword .m6VoidReply))
    List.not_mem_nil
  have hh := counts_next ["g"] "h"
    ((hword .m7Ne1).seq (hword .m7VoidReply)) (by decide)
  have hblock := counts_then hg <| counts_then hh <|
    counts_then (counts_above letter (inUpper_iff.mpr h)) fun s => check_ended (s := s)
  rw [searched_upper h]
  rcases hs with hs | hs
  · obtain ⟨t, ht, hidle⟩ := hregion.idle 0 s hs
    have hrun : exec (Nested.upper letter) s = _ := exec_ifM_of_true ht
    rw [hrun]
    exact hblock t (.inl hidle)
  · obtain ⟨t, ht, hacted⟩ := hregion.acted s hs
    have hrun : exec (Nested.upper letter) s = (.ok (), t) := exec_ifM_of_false ht
    rw [hrun]
    exact .inr hacted

theorem upper_ended_out (letter : String) (h : ¬ Region.upper.Holds cuts v.a2108127495)
    {s : Nested.State} (hs : Ended v k o n s) :
    Ended v k o n (exec (Nested.upper letter) s).2 := by
  have hregion : Guards v k o (Nested.between (-19) 100 Vars.a2108127495) (inUpper v && true) :=
    guards_between _ _ _
  rw [Bool.eq_false_iff.mpr (mt inUpper_iff.mp h), Bool.false_and] at hregion
  rcases hs with hs | hs
  · obtain ⟨t, ht, hidle⟩ := hregion.idle n s hs
    have hrun : exec (Nested.upper letter) s = (.ok (), t) := exec_ifM_of_false ht
    rw [hrun]
    exact .inl hidle
  · obtain ⟨t, ht, hacted⟩ := hregion.acted s hs
    have hrun : exec (Nested.upper letter) s = (.ok (), t) := exec_ifM_of_false ht
    rw [hrun]
    exact .inr hacted

end

/-- The regions cover all values. -/
theorem exists_region (v : Vars) : ∃ r : Region, r.Holds cuts v.a2108127495 := by
  by_cases hlow : v.a2108127495 ≤ -164
  · exact ⟨.low, hlow⟩
  by_cases hmiddle : v.a2108127495 ≤ -19
  · exact ⟨.middle, Int32.not_le.mp hlow, hmiddle⟩
  by_cases hupper : v.a2108127495 ≤ 100
  · exact ⟨.upper, Int32.not_le.mp hmiddle, hupper⟩
  · exact ⟨.high, Int32.not_le.mp hupper⟩

/-- The end of a call, whether a transition was taken or not. -/
theorem calculateOutput_ended (letter : String) (s : Nested.State) :
    Ended s.toVars (s.decisions.count true) s.out
      (if Region.high.Holds cuts s.a2108127495 then 0
        else searched s.toVars + (decide (Region.upper.Holds cuts s.a2108127495)).toNat)
      (exec (Nested.calculateOutput letter) s).2 := by
  have hstart : Ended s.toVars (s.decisions.count true) s.out 0
      { s with cf := true, cfTainted := false } := .inl ⟨rfl, rfl, rfl, rfl⟩
  rw [Nested.calculateOutput_start]
  obtain ⟨r, hr⟩ := exists_region s.toVars
  have hnot {r' : Region} (hne : r' ≠ r) : ¬ r'.Holds cuts s.a2108127495 :=
    mt (holds_iff hr).mp hne
  cases r with
  | low =>
    rw [if_neg (hnot (by decide)), decide_eq_false (hnot (by decide))]
    exact counts_then (counts_low_in letter hr) (counts_then (counts_middle_out letter
      (hnot (by decide))) fun t => upper_ended_out letter (hnot (by decide)) (s := t)) _ hstart
  | middle =>
    rw [if_neg (hnot (by decide)), decide_eq_false (hnot (by decide))]
    exact counts_then (counts_low_out letter (hnot (by decide))) (counts_then (counts_middle_in
      letter hr) fun t => upper_ended_out letter (hnot (by decide)) (s := t)) _ hstart
  | upper =>
    rw [if_neg (hnot (by decide)), decide_eq_true hr]
    exact counts_then (counts_low_out letter (hnot (by decide))) (counts_then (counts_middle_out
      letter (hnot (by decide))) fun t => upper_ended letter hr (s := t)) _ hstart
  | high =>
    rw [if_pos hr]
    exact counts_then (counts_low_out letter (hnot (by decide))) (counts_then (counts_middle_out
      letter (hnot (by decide))) fun t => upper_ended_out letter (hnot (by decide)) (s := t)) _
      hstart

/-- A transition is taken in a mode below 101. -/
theorem taken_spec {v : Vars} {letter : String} (h : (taken v letter).isSome) :
    ¬ Region.high.Holds cuts v.a2108127495 ∧ (modeOf v).isSome := by
  unfold taken at h
  split_ifs at h with hhigh
  · cases h
  · refine ⟨hhigh, ?_⟩
    unfold fired at h
    cases hm : modeOf v with
    | none =>
      rw [hm] at h
      cases h
    | some m => rfl

/-- Exactly so many decisions of a call are true, in every state. -/
theorem calculateOutput_count (letter : String) (s : Nested.State) :
    (exec (Nested.calculateOutput letter) s).2.decisions.count true =
      s.decisions.count true + trueTests s.toVars letter := by
  have hended := calculateOutput_ended letter s
  obtain ⟨-, hout, -⟩ := calculateOutput_answer letter s
  unfold answer at hout
  cases ht : taken s.toVars letter with
  | some t =>
    rw [ht] at hout
    obtain ⟨hhigh, hmode⟩ := taken_spec (Option.isSome_iff_exists.mpr ⟨t, ht⟩)
    have hgauge : trueTests s.toVars letter = 3 := by
      simp only [trueTests, if_neg hhigh, hmode, ht, Option.isSome_some, Bool.true_or,
        Bool.toNat_true]
    rw [hgauge]
    rcases hended with hidle | hacted
    · have hlength := congrArg List.length (hout.symm.trans hidle.out)
      simp at hlength
    · exact hacted.count
  | none =>
    have hcf := (calculateOutput_idle ht).2
    rcases hended with hidle | hacted
    · rw [hidle.count, trueTests, ht, Option.isSome_none, Bool.false_or]
      rfl
    · rw [hacted.cf] at hcf
      cases hcf

/-- Three decisions are true if a transition is taken, and also if the check rejects the
input in a mode. -/
theorem trueTests_eq_three_iff (v : Vars) (letter : String) : trueTests v letter = 3 ↔
    (taken v letter).isSome ∨ (Region.upper.Holds cuts v.a2108127495 ∧ (modeOf v).isSome) := by
  unfold trueTests
  by_cases htaken : (taken v letter).isSome
  · obtain ⟨hhigh, hmode⟩ := taken_spec htaken
    simp [hhigh, hmode, htaken]
  · by_cases hhigh : Region.high.Holds cuts v.a2108127495
    · have hupper : ¬ Region.upper.Holds cuts v.a2108127495 :=
        mt (holds_iff hhigh).mp (by decide)
      simp [hhigh, htaken, hupper]
    · by_cases hupper : Region.upper.Holds cuts v.a2108127495 <;>
        cases (modeOf v).isSome <;> simp [hhigh, htaken, hupper]

end EcaEngines.Gauge
