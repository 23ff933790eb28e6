import EcaEngines.Reachable
import EcaEngines.TaskOne

/-!
# The flags of the decisions on the input

Every test of `calculateOutputm1` to `calculateOutputm8` in `instm183_LTL_CTLCond` asks for
the input. Whatever the input and the state, none of them is flagged: `I.myEquals` compares
the array of the inputs with each of its elements, and `I.myAnd` passes no flag on.
-/
namespace EcaEngines.Flags
open Imperative Reactive Dispatch Instrumented Transitions Modes Blocks Guards Engine Reachable
open TaskOne hiding calculateOutput
open Original (Throwable Vars noTransition)

/-- A run with a record of what is passed to `I.myIf` inside the methods. -/
structure Observed where
  world : World
  inside : List MyBool

def outside {α : Type} (p : Prog α) : Imp Throwable Observed α :=
  zoom Observed.world (fun w s => { s with world := w }) p

/-- The decisions that the method adds to the record of all. -/
def inMethod (p : Prog Unit) : Imp Throwable Observed Unit :=
  zoom Observed.world (fun w s =>
    ⟨w, s.inside ++ w.decisions.drop s.world.decisions.length⟩) p

/-- The text of `calculateOutput`, with what happens inside the methods told from the rest. -/
def calculateOutput (input : MyString) : Imp Throwable Observed Unit :=
  Text.calculateOutput outside fun m => inMethod (Text.methods plain .fresh input m)

/-- What is passed to `I.myIf` inside `calculateOutputm1` to `calculateOutputm8` in one call. -/
def inside (input : MyString) (w : World) : List MyBool :=
  (exec (calculateOutput input) ⟨w, []⟩).2.inside

section
variable {α : Type} {p : Prog α}

theorem exec_outside (p : Prog α) (s : Observed) : exec (outside p) s =
    ((exec p s.world).1, { s with world := (exec p s.world).2 }) := exec_zoom _ _ p s

theorem exec_inMethod (p : Prog Unit) (s : Observed) : exec (inMethod p) s =
    ((exec p s.world).1, ⟨(exec p s.world).2,
      s.inside ++ (exec p s.world).2.decisions.drop s.world.decisions.length⟩) := exec_zoom _ _ p s

theorem projects_outside : Projects Observed.world (outside p) p :=
  projects_zoom (fun _ _ => rfl) p

theorem projects_inMethod (p : Prog Unit) : Projects Observed.world (inMethod p) p := by
  intro s
  rw [exec_inMethod]

end

/-- The record aside, the program of the first task is run. -/
theorem calculateOutput_projects (input : MyString) :
    Projects Observed.world (calculateOutput input) (Cond.calculateOutput input) :=
  Text.calculateOutput_projects outside (fun _ => projects_outside) fun _ => projects_inMethod _

/-- No boolean register is flagged. -/
def Unflagged (w : World) : Prop := ∀ n, (w.bool n).flow = false

section
variable {p q : Prog Unit} {w : World}

theorem keeps_decideBool (a : ℕ) (val : World → Bool) : Keeps Unflagged (I.decideBool a val) := by
  intro w hw n
  change (Function.update w.bool a { w.bool a with val := val w } n).flow = false
  by_cases hn : n = a
  · subst hn
    simpa using hw n
  · simpa [hn] using hw n

theorem keeps_compare (type : TypeEnum) (rel : Int32 → Int32 → Bool) (a : ℕ) (b c : IntRef) :
    Keeps Unflagged (I.compare type rel a b c none) :=
  (keeps_decideBool a _).bind fun _ => keeps_pure _ _

theorem keeps_myEquals (a : ℕ) (b : StringRef) (c : String) : Keeps Unflagged (I.myEquals a b c) :=
  (keeps_decideBool a _).bind fun _ => keeps_pure _ _

theorem keeps_myAnd (a : ℕ) (b c : BoolRef) : Keeps Unflagged (I.myAnd a b c) :=
  (keeps_decideBool a _).bind fun _ => keeps_pure _ _

theorem keeps_myIf (a : BoolRef) : Keeps Unflagged (I.myIf a) := fun _ hw => hw

theorem keeps_block (t : Transition) : Keeps Unflagged (block .fresh t) := by
  intro w hw
  rw [← block_copied]
  unfold Unflagged
  rwa [block_bool]

/-- The program returns after `n` decisions. None of them is flagged if no register is. -/
def Decided (p : Prog Unit) (n : ℕ) : Prop :=
  ∀ w, Unflagged w → (exec p w).1 = .ok () ∧ Unflagged (exec p w).2 ∧
    ∃ new, (exec p w).2.decisions = w.decisions ++ new ∧ new.length = n ∧ ∀ d ∈ new, d.flow = false

theorem Decided.seq {n m : ℕ} (hp : Decided p n) (hq : Decided q m) :
    Decided (p >>= fun _ => q) (n + m) := by
  intro w hw
  obtain ⟨hok, hw', new, hnew, hlen, hflow⟩ := hp w hw
  obtain ⟨hok', hw'', new', hnew', hlen', hflow'⟩ := hq _ hw'
  rw [exec_bind_ok (Prod.ext hok rfl)]
  refine ⟨hok', hw'', new ++ new', ?_, ?_, fun d hd => ?_⟩
  · rw [hnew', hnew, List.append_assoc]
  · rw [List.length_append, hlen, hlen']
  · exact (List.mem_append.mp hd).elim (hflow d) (hflow' d)

/-- A test on the input, and the transition behind it. -/
theorem decided_site (input : MyString) (word : String) (b c : BoolRef) (t : Transition) :
    Decided (ifM (do
      I.myEquals 1 (.object input) word
      I.myAnd 2 b c
      I.myIf (.bool 2)) (block .fresh t)) 1 := by
  intro w hw
  have hcond : Keeps Unflagged (do
      I.myEquals 1 (.object input) word
      I.myAnd 2 b c
      I.myIf (.bool 2)) :=
    (keeps_myEquals _ _ _).bind fun _ => (keeps_myAnd _ _ _).bind fun _ => keeps_myIf _
  obtain ⟨v, w₁, he, hdec⟩ : ∃ v w₁, exec (do
      I.myEquals 1 (.object input) word
      I.myAnd 2 b c
      I.myIf (.bool 2)) w = (.ok v, w₁) ∧ w₁.decisions = w.decisions ++ [w₁.bool 2] :=
    ⟨_, _, rfl, rfl⟩
  have hw₁ : Unflagged w₁ := by
    have h := hcond w hw
    rwa [he] at h
  have hnew : ∀ d ∈ [w₁.bool 2], d.flow = false := fun d hd => List.mem_singleton.mp hd ▸ hw₁ 2
  cases v with
  | false =>
    rw [exec_ifM_of_false he]
    exact ⟨rfl, hw₁, _, hdec, rfl, hnew⟩
  | true =>
    rw [exec_ifM_of_true he]
    refine ⟨?_, keeps_block t w₁ hw₁, _, ?_, rfl, hnew⟩
    · rw [← block_copied, block_returns]
    · rw [← block_copied, block_decisions, hdec]

variable {input : MyString}

theorem decided_methods (m : Mode) : ∃ n, Decided (Text.methods plain .fresh input m) (n + 1) :=
  match m with
  | .m1 => ⟨0, decided_site _ _ _ _ _⟩
  | .m2 => ⟨1, (decided_site _ _ _ _ _).seq (decided_site _ _ _ _ _)⟩
  | .m3 => ⟨0, decided_site _ _ _ _ _⟩
  | .m4 => ⟨2, (decided_site _ _ _ _ _).seq
      ((decided_site _ _ _ _ _).seq (decided_site _ _ _ _ _))⟩
  | .m5 => ⟨0, decided_site _ _ _ _ _⟩
  | .m6 => ⟨1, (decided_site _ _ _ _ _).seq (decided_site _ _ _ _ _)⟩
  | .m7 => ⟨1, (decided_site _ _ _ _ _).seq (decided_site _ _ _ _ _)⟩
  | .m8 => ⟨0, decided_site _ _ _ _ _⟩

end

/-- Nothing has been decided inside a method yet. -/
structure Idle (w : World) (s : Observed) : Prop where
  same : Same (start w) s.world
  inside : s.inside = []
  unflagged : Unflagged s.world

/-- There was a decision inside a method, and none was flagged. -/
structure Called (s : Observed) : Prop where
  inside : s.inside ≠ []
  flow : ∀ d ∈ s.inside, d.flow = false
  unflagged : Unflagged s.world

/-- A method is called if `P`, unless one has been. -/
structure Enters (w : World) (p : Imp Throwable Observed Unit) (P : Prop) : Prop where
  yes : P → ∀ s, Idle w s → Called (exec p s).2
  called : Keeps Called p

/-- Otherwise the program goes on to the one after it. -/
structure Calls (w : World) (p : Imp Throwable Observed Unit) (P : Prop) : Prop
    extends Enters w p P where
  no : ¬ P → ∀ s, Idle w s → (exec p s).1 = .ok () ∧ Idle w (exec p s).2

section
variable {w : World} {p q : Imp Throwable Observed Unit} {P Q : Prop}

theorem Enters.of_calls (hp : Calls w p P) (hq : Enters w q Q) :
    Enters w (p >>= fun _ => q) (P ∨ Q) where
  yes h s hs := by
    by_cases hP : P
    · have hcalled := hp.yes hP s hs
      rcases he : exec p s with ⟨e | a, t⟩ <;> rw [he] at hcalled
      · rwa [exec_bind_error he]
      · rw [exec_bind_ok he]
        exact hq.called t hcalled
    · obtain ⟨hok, hidle⟩ := hp.no hP s hs
      rw [exec_bind_ok (Prod.ext hok rfl)]
      exact hq.yes (h.resolve_left hP) _ hidle
  called := hp.called.bind fun _ => hq.called

theorem Calls.seq (hp : Calls w p P) (hq : Calls w q Q) :
    Calls w (p >>= fun _ => q) (P ∨ Q) where
  toEnters := .of_calls hp hq.toEnters
  no h s hs := by
    obtain ⟨hok, hidle⟩ := hp.no (fun hP => h (.inl hP)) s hs
    rw [exec_bind_ok (Prod.ext hok rfl)]
    exact hq.no (fun hQ => h (.inr hQ)) _ hidle

theorem keeps_outside {α : Type} {r : Prog α} (h : Keeps Unflagged r) :
    Keeps Called (outside r) := by
  rintro s ⟨hin, hflow, hun⟩
  rw [exec_outside]
  exact ⟨hin, hflow, h s.world hun⟩

/-- The `if` around a call, or around several. -/
theorem Calls.nest {c : Prog Bool} [Decidable P] (hc : (phases w).Decides c P)
    (hkeeps : Keeps Unflagged c) (hp : Calls w p Q) : Calls w (ifM (outside c) p) (P ∧ Q) := by
  have hidle (s : Observed) (hs : Idle w s) : ∃ t, exec (outside c) s = (.ok (decide P), t) ∧
      Idle w t := by
    obtain ⟨w', he, hsame⟩ := hc.idle s.world hs.same
    have hun := hkeeps s.world hs.unflagged
    rw [exec_outside, he]
    rw [he] at hun
    exact ⟨_, rfl, hsame, hs.inside, hun⟩
  refine ⟨⟨fun h s hs => ?_, (keeps_outside hkeeps).ifM hp.called⟩, fun h s hs => ?_⟩
  · obtain ⟨t, he, ht⟩ := hidle s hs
    rw [exec_ifM_of_true (he.trans (by rw [decide_eq_true h.1]))]
    exact hp.yes h.2 t ht
  · obtain ⟨t, he, ht⟩ := hidle s hs
    by_cases hP : P
    · rw [exec_ifM_of_true (he.trans (by rw [decide_eq_true hP]))]
      exact hp.no (fun hQ => h ⟨hP, hQ⟩) t ht
    · rw [exec_ifM_of_false (he.trans (by rw [decide_eq_false hP]))]
      exact ⟨rfl, ht⟩

theorem calls_inMethod {r : Prog Unit} (h : ∃ n, Decided r (n + 1)) :
    Calls w (inMethod r) True := by
  obtain ⟨n, h⟩ := h
  have hcalled (s : Observed) (hflow : ∀ d ∈ s.inside, d.flow = false)
      (hun : Unflagged s.world) : Called (exec (inMethod r) s).2 := by
    obtain ⟨-, hun', new, hnew, hlen, hnewflow⟩ := h s.world hun
    rw [exec_inMethod, hnew, List.drop_left]
    refine ⟨?_, fun d hd => (List.mem_append.mp hd).elim (hflow d) (hnewflow d), hun'⟩
    intro hnil
    have hzero : new.length = 0 := congrArg List.length (List.append_eq_nil_iff.mp hnil).2
    omega
  exact ⟨⟨fun _ s hs => hcalled s (by simp [hs.inside]) hs.unflagged,
    fun s hs => hcalled s hs.flow hs.unflagged⟩, fun h => absurd trivial h⟩

variable {c : Prog Bool} {f : Vars → Bool → Bool} {r : Prog Unit} {m : Mode}

/-- The `if` around the call of a method. -/
theorem calls_row (m : Mode) (hc : Tests c f) (hkeeps : Keeps Unflagged c)
    (hr : ∃ n, Decided r (n + 1)) (hidle : f w.view true = true ↔ Side m w.view)
    (hacted : ∀ v, f v false = false) :
    Calls w (ifM (outside c) (inMethod r)) (Side m w.view) := by
  have h := (calls_inMethod (w := w) hr).nest
    (hc.decides (Side m w.view) hidle hacted) hkeeps
  rwa [and_true] at h

theorem calls_cf_string (m : Mode) {x : String} (hs : ∀ v, Side m v = (v.a1745113960 = x))
    (hr : ∃ n, Decided r (n + 1)) : Calls w (ifM (outside do
      I.myEquals 1 .a1745113960 x
      I.myAnd 2 .cf (.bool 1)
      I.myIf (.bool 2)) (inMethod r)) (Side m w.view) :=
  calls_row (f := fun v cf => cf && v.a1745113960 == x) m (fun _ => ⟨_, rfl, rfl⟩)
    ((keeps_myEquals _ _ _).bind fun _ => (keeps_myAnd _ _ _).bind fun _ => keeps_myIf _) hr
    (by simp [hs]) (by simp)

theorem calls_string_cf (m : Mode) {x : String} (hs : ∀ v, Side m v = (v.a1745113960 = x))
    (hr : ∃ n, Decided r (n + 1)) : Calls w (ifM (outside do
      I.myEquals 1 .a1745113960 x
      I.myAnd 2 (.bool 1) .cf
      I.myIf (.bool 2)) (inMethod r)) (Side m w.view) :=
  calls_row (f := fun v cf => v.a1745113960 == x && cf) m (fun _ => ⟨_, rfl, rfl⟩)
    ((keeps_myEquals _ _ _).bind fun _ => (keeps_myAnd _ _ _).bind fun _ => keeps_myIf _) hr
    (by simp [hs]) (by simp)

theorem keeps_between (a b c d : IntRef) (x y u v : BoolRef) : Keeps Unflagged (do
    I.myLess 1 a b
    I.myGreaterEqual 2 c d
    I.myAnd 3 x y
    I.myAnd 4 u v
    I.myIf (.bool 4)) :=
  (keeps_compare _ _ _ _ _).bind fun _ => (keeps_compare _ _ _ _ _).bind fun _ =>
    (keeps_myAnd _ _ _).bind fun _ => (keeps_myAnd _ _ _).bind fun _ => keeps_myIf _

/-- A method is called in the region and under the condition of its guard. -/
def Reached (w : World) : Prop :=
  Region.low.Holds cuts w.view.a2108127495 ∧ Side .m1 w.view ∨
    Region.middle.Holds cuts w.view.a2108127495 ∧
      (Side .m2 w.view ∨ Side .m3 w.view ∨ Side .m4 w.view ∨ Side .m5 w.view) ∨
    Region.upper.Holds cuts w.view.a2108127495 ∧ (Side .m6 w.view ∨ Side .m7 w.view) ∨
    Region.high.Holds cuts w.view.a2108127495 ∧ Side .m8 w.view ∨ False

theorem reached_of_guard (h : Guard m w.view) : Reached w := by
  obtain ⟨hr, hs⟩ := h
  unfold Reached
  cases m <;> simp only [Mode.region] at hr <;> simp [hr, hs]

/-- The first statement and the rest. -/
theorem calculateOutput_eq (input : MyString) : ∃ rest,
    calculateOutput input = (outside (setCf (.new2 true "cf")) >>= fun _ => rest) ∧
      ∀ w, Enters w rest (Reached w) := by
  refine ⟨_, rfl, fun w => ?_⟩
  refine .of_calls (Calls.nest (Tests.low fun _ => ⟨_, rfl, rfl⟩) ?_ ?_) <|
    .of_calls (Calls.nest (Tests.middle fun _ => ⟨_, rfl, rfl⟩)
      (keeps_between _ _ _ _ _ _ _ _) ?_) <|
    .of_calls (Calls.nest (Tests.upper fun _ => ⟨_, rfl, rfl⟩)
      (keeps_between _ _ _ _ _ _ _ _) ?_) <|
    .of_calls (Calls.nest (Tests.high fun _ => ⟨_, rfl, rfl⟩) ?_ ?_) ⟨False.elim, ?_⟩
  · exact (keeps_compare _ _ _ _ _).bind fun _ => (keeps_myAnd _ _ _).bind fun _ => keeps_myIf _
  · exact calls_row (f := fun v cf => cf && (-83 < v.a1522448132 && 18 ≥ v.a1522448132)) .m1
      (fun _ => ⟨_, rfl, rfl⟩) (keeps_between _ _ _ _ _ _ _ _) (decided_methods .m1)
      (by simp [Side]) (by simp)
  · exact (calls_cf_string .m2 (fun _ => rfl) (decided_methods .m2)).seq <|
      (calls_cf_string .m3 (fun _ => rfl) (decided_methods .m3)).seq <|
      (calls_cf_string .m4 (fun _ => rfl) (decided_methods .m4)).seq <|
      calls_string_cf .m5 (fun _ => rfl) (decided_methods .m5)
  · exact (calls_cf_string .m6 (fun _ => rfl) (decided_methods .m6)).seq <|
      calls_cf_string .m7 (fun _ => rfl) (decided_methods .m7)
  · exact (keeps_compare _ _ _ _ _).bind fun _ => (keeps_myAnd _ _ _).bind fun _ => keeps_myIf _
  · exact calls_row (f := fun v cf => (103 < v.a422009172 && 198 ≥ v.a422009172) && cf) .m8
      (fun _ => ⟨_, rfl, rfl⟩) (keeps_between _ _ _ _ _ _ _ _) (decided_methods .m8)
      (by simp [Side]) (by simp)
  · exact (keeps_outside (keeps_myIf _)).ifM (keeps_throw _ _)

end

/-- In a mode, a call of `calculateOutput` decides inside one of the methods. -/
theorem called {w : World} (input : MyString) (hmode : Moded w) (hun : Unflagged w) :
    Called (exec (calculateOutput input) ⟨w, []⟩).2 := by
  obtain ⟨m, hinv⟩ := hmode
  obtain ⟨rest, he, hrest⟩ := calculateOutput_eq input
  have hset : exec (outside (setCf (.new2 true "cf"))) ⟨w, []⟩ = (.ok (), ⟨start w, []⟩) := rfl
  rw [he, exec_bind_ok hset]
  exact (hrest w).yes (reached_of_guard hinv.guard) _ ⟨Same.refl _, rfl, hun⟩

/-- What holds in every state of the program. -/
def Running (w : World) : Prop := Moded w ∧ Unflagged w

theorem running_step (w : World) (c : Command) (h : Running w) : Running (Cond.step w c).2 := by
  obtain ⟨hmode, hun⟩ := h
  cases c with
  | reset => exact ⟨moded_reset _, hun⟩
  | calculateOutput input =>
    refine ⟨call_moded Cond_implements w input hmode, ?_⟩
    have hcalled : Called (exec (calculateOutput input) ⟨cleared w, []⟩).2 :=
      called input hmode hun
    have hrun := calculateOutput_projects input ⟨cleared w, []⟩
    have hworld : (Cond.step w (.calculateOutput input)).2 =
        (exec (calculateOutput input) ⟨cleared w, []⟩).2.world := congrArg Prod.snd hrun
    rw [hworld]
    exact hcalled.unflagged

theorem running_after (cs : List Command) : Running (after Cond.step Cond.start cs) :=
  after_invariant running_step ⟨moded_reset Cond.start, fun _ => rfl⟩ cs

/-- In every reachable state and for every input there is a decision inside the methods, and
none of these is flagged. -/
theorem inside_unflagged (cs : List Command) (input : MyString) :
    inside input (after Cond.step Cond.start cs) ≠ [] ∧
      ∀ d ∈ inside input (after Cond.step Cond.start cs), d.flow = false := by
  obtain ⟨hmode, hun⟩ := running_after cs
  have h := called input hmode hun
  exact ⟨h.inside, h.flow⟩

/-- So the decisions on the input are flagged never. -/
theorem not_flagged (cs : List Command) (input : MyString) :
    ¬ ∀ d ∈ inside input (after Cond.step Cond.start cs), d.flow = true := by
  obtain ⟨hne, hflow⟩ := inside_unflagged cs input
  intro h
  obtain ⟨d, hd⟩ := List.exists_mem_of_ne_nil _ hne
  exact absurd ((hflow d hd).symm.trans (h d hd)) Bool.false_ne_true

theorem not_flagged_start :
    ¬ ∀ d ∈ inside (.new2 "ai1_ce1" true) (after Cond.step Cond.start []), d.flow = true := by
  decide +kernel

end EcaEngines.Flags
