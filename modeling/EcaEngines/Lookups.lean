import EcaEngines.Nested

/-!
# One call of the nested engine

The engine with the nested blocks makes the lookup of the original machine below 101.
The mode above 100 is asked for where it cannot be, and inputs without a transition are
rejected only in the region from -18 to 100.
-/
namespace EcaEngines.Lookups
open Imperative FirstMatch Dispatch Transitions Nested
open Original (Throwable Vars noTransition)

/-- The phases of one call from the variables `v` and the output `out`. -/
def phases (v : Vars) (out : List String) : Phases State Transition where
  idle s := s.toVars = v ∧ s.cf = true ∧ s.out = out
  acted t s := s.toVars = t.fire v ∧ s.cf = false ∧ s.out = out ++ [t.word]

section
variable {v : Vars} {out : List String}

theorem decides_decision (P : Prop) [Decidable P] {f : Vars → Bool → Bool}
    (hidle : f v true = true ↔ P) (hacted : ∀ v, f v false = false) :
    (phases v out).Decides (decision f) P where
  idle s hs := by
    obtain ⟨hv, hcf, hout⟩ := hs
    refine ⟨s.decided (f s.toVars s.cf), ?_, hv, hcf, hout⟩
    have hd : f s.toVars s.cf = decide P := by
      rw [hv, hcf, ← Bool.decide_coe (f v true), decide_eq_decide.mpr hidle]
    rw [← hd]
    rfl
  acted t s hs := by
    obtain ⟨hv, hcf, hout⟩ := hs
    refine ⟨s.decided (f s.toVars s.cf), ?_, hv, hcf, hout⟩
    rw [← hacted s.toVars, ← hcf]
    rfl

theorem decides_andCf (P : Prop) [Decidable P] {f : Vars → Bool → Bool}
    (hidle : f v true = true ↔ P) (hacted : ∀ v, f v false = false) :
    (phases v out).Decides (do modify (State.andCf 2 1); decision f) P where
  idle s hs := (decides_decision P hidle hacted).idle (s.andCf 2 1) hs
  acted t s hs := (decides_decision P hidle hacted).acted t (s.andCf 2 1) hs

theorem decides_andAndCf (P : Prop) [Decidable P] {f : Vars → Bool → Bool}
    (hidle : f v true = true ↔ P) (hacted : ∀ v, f v false = false) :
    (phases v out).Decides (do modify State.andAndCf; decision f) P where
  idle s hs := (decides_decision P hidle hacted).idle s.andAndCf hs
  acted t s hs := (decides_decision P hidle hacted).acted t s.andAndCf hs

theorem word_takes (letter : String) (t : Transition) :
    (phases v out).Takes (word letter t) (t.on letter) := by
  refine (decides_andCf (letter = t.letter) (by simp) (by simp)).act fun _ s hs => ?_
  obtain ⟨hv, -, hout⟩ := hs
  refine ⟨s.act t, rfl, ?_, rfl, ?_⟩
  · change t.fire s.toVars = t.fire v
    rw [hv]
  · change s.out ++ [t.word] = out ++ [t.word]
    rw [hout]

/-- The `if` around the call of a method for a string. -/
theorem mode_takes {letter : String} (m : Mode) {p : Prog Unit} {word : String}
    (hp : (phases v out).Takes p (find letter m)) (hside : v.a1745113960 = word ↔ Side m v) :
    (phases v out).Takes (ifM (equal Vars.a1745113960 word) p)
      (row (fun m => Side m v) (find letter) m) :=
  (decides_andCf (Side m v) (by simpa using hside) (by simp)).nest fun _ => hp

theorem low_takes (letter : String) :
    (phases v out).Takes (low letter) (search.inRegion (fun r => r.Holds cuts v.a2108127495) .low
      (row (fun m => Side m v) (find letter) .m1)) :=
  (decides_andCf (Region.low.Holds cuts v.a2108127495) (by simp [Region.Holds, cuts])
    (by simp)).nest
    fun _ => (decides_andAndCf (Side .m1 v) (by simp [Side]) (by simp)).nest
      fun _ => word_takes letter .m1VoidReply

theorem middle_takes (letter : String) :
    (phases v out).Takes (middle letter)
      (search.inRegion (fun r => r.Holds cuts v.a2108127495) .middle
        ((row (fun m => Side m v) (find letter) .m2).or
          ((row (fun m => Side m v) (find letter) .m3).or
            ((row (fun m => Side m v) (find letter) .m4).or
              (row (fun m => Side m v) (find letter) .m5))))) :=
  (decides_andAndCf (Region.middle.Holds cuts v.a2108127495) (by simp [Region.Holds, cuts])
    (by simp)).nest fun _ =>
      (mode_takes .m2 ((word_takes _ _).seq (word_takes _ _)) .rfl).seq <|
      (mode_takes .m3 (word_takes _ _) .rfl).seq <|
      (mode_takes .m4 ((word_takes _ _).seq ((word_takes _ _).seq (word_takes _ _))) .rfl).seq
      (mode_takes .m5 (word_takes _ _) .rfl)

/-- The end of a call that takes nothing in the region of the check. -/
def Rejects (v : Vars) (out : List String) (r : Except Throwable Unit) (s : State) : Prop :=
  r = .error noTransition ∧ (phases v out).idle s

theorem check_ends : (phases v out).Ends (Rejects v out) check none :=
  (decides_decision True (by simp) (by simp)).check fun _ hs => ⟨rfl, hs⟩

/-- Inside the region from -18 to 100 nothing is above 100. -/
theorem above_takes (h : Region.upper.Holds cuts v.a2108127495) (letter : String) :
    (phases v out).Takes (ifM (above 100 Vars.a2108127495) do
      ifM (between 103 198 Vars.a422009172) do
        calculateOutputm8 letter) none := by
  have hhigh : ¬ Region.high.Holds cuts v.a2108127495 := fun hh => by
    cases (Region.holds_iff (by decide) h).mp hh
  have htakes : (phases v out).Takes (ifM (above 100 Vars.a2108127495) do
      ifM (between 103 198 Vars.a422009172) do
        calculateOutputm8 letter)
      (if Region.high.Holds cuts v.a2108127495 then row (fun m => Side m v) (find letter) .m8
        else none) :=
    (decides_andCf (Region.high.Holds cuts v.a2108127495) (by simp [Region.Holds, cuts])
      (by simp)).nest fun _ => (decides_andAndCf (Side .m8 v) (by simp [Side]) (by simp)).nest
        fun _ => word_takes letter .m8VoidReply
  rwa [if_neg hhigh] at htakes

/-- The rejection needs the region. -/
theorem upper_ends (letter : String) :
    (phases v out).Ends (fun r s => if Region.upper.Holds cuts v.a2108127495 then
        Rejects v out r s else (phases v out).Still r s) (upper letter)
      (search.inRegion (fun r => r.Holds cuts v.a2108127495) .upper
        ((row (fun m => Side m v) (find letter) .m6).or
          ((row (fun m => Side m v) (find letter) .m7).or (none.or none)))) :=
  (decides_andAndCf (Region.upper.Holds cuts v.a2108127495) (by simp [Region.Holds, cuts])
    (by simp)).nest_ends fun h =>
      (mode_takes .m6 ((word_takes _ _).seq (word_takes _ _)) .rfl).seq <|
      (mode_takes .m7 ((word_takes _ _).seq (word_takes _ _)) .rfl).seq <|
      (above_takes h letter).seq check_ends

end

/-- What the engine takes: the original machine's transition, if it is below 101. -/
def taken (v : Vars) (letter : String) : Option Transition :=
  if Region.high.Holds cuts v.a2108127495 then none else fired v letter

theorem taken_eq (v : Vars) (letter : String) :
    let holds (r : Region) := r.Holds cuts v.a2108127495
    let row := row (fun m => Side m v) (find letter)
    (search.inRegion holds .low (row .m1)).or
      ((search.inRegion holds .middle
        ((row .m2).or ((row .m3).or ((row .m4).or (row .m5))))).or
        (search.inRegion holds .upper ((row .m6).or ((row .m7).or (none.or none))))) =
      taken v letter := by
  intro holds row
  have hfired := search_eq_fired v letter
  unfold taken
  by_cases hhigh : Region.high.Holds cuts v.a2108127495
  · have hnot (r : Region) (hr : r ≠ .high) : ¬ holds r := fun h =>
      hr ((Region.holds_iff (by decide) hhigh).mp h)
    simp [search.inRegion, hnot, hhigh]
  · rw [if_neg hhigh, ← hfired]
    simp [search, search.inRegion, hhigh, holds, row]

/-- The result of one call, the words it prints and the variables it leaves. -/
abbrev Answer := Except Throwable Unit × List String × Vars

def answer (v : Vars) (letter : String) : Answer :=
  match taken v letter with
  | some t => (.ok (), [t.word], t.fire v)
  | none => (if Region.upper.Holds cuts v.a2108127495 then .error noTransition else .ok (), [], v)

/-- Without a transition the call rejects in the region of the check, and does nothing
elsewhere. -/
def Passes (v : Vars) (out : List String) (r : Except Throwable Unit) (s : State) : Prop :=
  if Region.upper.Holds cuts v.a2108127495 then Rejects v out r s else (phases v out).Still r s

theorem calculateOutput_at (letter : String) (s : State) :
    (phases s.toVars s.out).At (Passes s.toVars s.out) (taken s.toVars letter)
      (exec (calculateOutput letter) s) := by
  have hlow : (phases s.toVars s.out).Takes (low letter) _ := low_takes letter
  have hends := hlow.seq ((middle_takes letter).seq (upper_ends letter))
  rw [taken_eq] at hends
  rw [calculateOutput_start]
  exact hends.idle { s with cf := true, cfTainted := false } ⟨rfl, rfl, rfl⟩

theorem calculateOutput_answer (letter : String) (s : State) :
    let r := exec (calculateOutput letter) s
    (answer s.toVars letter).1 = r.1 ∧ r.2.out = s.out ++ (answer s.toVars letter).2.1 ∧
      r.2.toVars = (answer s.toVars letter).2.2 := by
  have h := calculateOutput_at letter s
  unfold answer
  cases ht : taken s.toVars letter with
  | some t =>
    rw [ht] at h
    obtain ⟨hr, hv, -, hout⟩ := h
    exact ⟨hr.symm, hout, hv⟩
  | none =>
    rw [ht] at h
    simp only [Phases.At, Passes] at h
    rw [List.append_nil]
    split_ifs at h ⊢ with hupper
    · exact ⟨h.1.symm, h.2.2.2, h.2.1⟩
    · exact ⟨h.1.symm, h.2.2.2, h.2.1⟩

/-- A call that takes no transition leaves `cf` set. -/
theorem calculateOutput_idle {letter : String} {s : State} (h : taken s.toVars letter = none) :
    (exec (calculateOutput letter) s).2.toVars = s.toVars ∧
      (exec (calculateOutput letter) s).2.cf = true := by
  have hat := calculateOutput_at letter s
  rw [h] at hat
  simp only [Phases.At, Passes] at hat
  split_ifs at hat with hupper
  · exact ⟨hat.2.1, hat.2.2.1⟩
  · exact ⟨hat.2.1, hat.2.2.1⟩

/-- The same for the original machine. -/
def originalAnswer (v : Vars) (letter : String) : Answer :=
  match fired v letter with
  | some t => (.ok (), [t.word], t.fire v)
  | none => (.error noTransition, [], v)

/-- The engine asks what the original machine asks. -/
def Covers (v : Vars) (letter : String) : Prop :=
  Region.upper.Holds cuts v.a2108127495 ∨
    (fired v letter).isSome ∧ ¬ Region.high.Holds cuts v.a2108127495

instance (v : Vars) (letter : String) : Decidable (Covers v letter) :=
  inferInstanceAs (Decidable (_ ∨ _ ∧ _))

theorem answer_eq_iff (v : Vars) (letter : String) :
    answer v letter = originalAnswer v letter ↔ Covers v letter := by
  unfold answer originalAnswer Covers taken
  by_cases hhigh : Region.high.Holds cuts v.a2108127495
  · have hupper : ¬ Region.upper.Holds cuts v.a2108127495 := fun h => by
      cases (Region.holds_iff (by decide) hhigh).mp h
    cases fired v letter <;> simp [hhigh, hupper]
  · cases fired v letter <;> simp [hhigh]

end EcaEngines.Lookups
