import Mathlib.Data.Finset.Option
import Mathlib.Data.Finset.Sort
import Mathlib.Data.String.Basic
import Mathlib.Order.WithBot
import EcaEngines.Engine
import EcaEngines.Reachable
import EcaEngines.Scripts

/-!
# What an engine prints

`I.myIf` writes the outcome of a condition, `I.myPrint` a word, and the loop of `main` names the
deepest variables behind each call. In a mode all of it is a function of the input. `getFlow()`
lists a set in an order that is not specified.
-/
namespace EcaEngines.Screen
open Imperative Dispatch Instrumented Transitions Modes Blocks Guards Engine Scripts
open Original (Throwable noTransition)

/-- An order in which the members of a set are listed. -/
structure Order where
  list : Finset (Option String) → List (Option String)
  members : ∀ s, (list s : Multiset (Option String)) = s.val

/-- Null first, and then the names from the least to the greatest. -/
def Order.sorted : Order where
  list s := Finset.sort (α := WithBot String) s
  members s := Finset.sort_eq (α := WithBot String) s _

structure Main where
  world : World
  /-- What is written to `System.out`, one string after the other. -/
  out : List String
  /-- The lines of `System.err`. -/
  err : List String

abbrev Prog := Imp Throwable Main

def said (b : Bool) : String := "b" ++ toString b ++ " "

/-- A condition is passed to `I.myIf`, the body of a transition passes a word to `I.myPrint`. -/
def lift {α : Type} (p : Instrumented.Prog α) : Prog α :=
  zoom Main.world (fun w s => { s with
    world := w
    out := s.out ++ (w.decisions.drop s.world.decisions.length).map (fun b => said b.val) ++
      (w.out.drop s.world.out.length).map fun a => "\n" ++ a ++ "\n" }) p

def println (line : String) : Prog Unit :=
  modify fun s => { s with out := s.out ++ [line ++ "\n"] }

def complain (message : String) : Prog Unit :=
  modify fun s => { s with err := s.err ++ ["Invalid input: " ++ message] }

/-- The last name of an array is printed, be it null, or that there is none. -/
def deepest (kind : String) (arr : List (Option String)) : List String :=
  match arr.getLast? with
  | some name => ["Name of deepest " ++ kind ++ " variable\n", name.getD "null" ++ "\n"]
  | none => ["No int variables reached for this trace\n"]

section
variable (order : Order)

def getFlow (kind : String) (flowTrack : World → Finset (Option String)) : Prog Unit :=
  modify fun s => { s with out := s.out ++ deepest kind (order.list (flowTrack s.world)) }

/-- The call of the engine, and what the loop prints behind it. -/
def respond (engine : MyString → Prog Unit) (input : MyString) : Prog Unit := do
  engine input
  println ""
  println ""
  getFlow order "int" fun w => w.a422009172.flowTrack
  getFlow order "boolean" fun w => w.cf.flowTrack
  getFlow order "string" fun w => w.a1745113960.flowTrack

/-- The body of a loop whose first `if` throws. -/
def process (check : MyString → Instrumented.Prog Bool) (engine : MyString → Prog Unit)
    (input : MyString) : Prog Unit := do
  println ("Fuzzing: " ++ input.val)
  ifM (lift (check input)) do
    throw noTransition
  tryCatch (respond order engine input) fun e => match e with
    | .illegalArgument message => complain message
    | e => throw e

end

/-- The script of the `if` of a transition. -/
def site (letter : String) (t : Transition) : Script String :=
  .ask said (letter == t.letter) (.act ["\n" ++ t.word ++ "\n"])

def method (letter : String) : Mode → Script String
  | .m1 => site letter .m1VoidReply
  | .m2 => (site letter .m2Ne1).seq (site letter .m2Ce2)
  | .m3 => site letter .m3VoidReply
  | .m4 => (site letter .m4Ce2).seq ((site letter .m4Ce1).seq (site letter .m4Ne1))
  | .m5 => site letter .m5VoidReply
  | .m6 => (site letter .m6Ne1).seq (site letter .m6VoidReply)
  | .m7 => (site letter .m7Ne1).seq (site letter .m7VoidReply)
  | .m8 => site letter .m8VoidReply

/-- The script of `calculateOutput` in a mode. -/
def script (letter : String) (m : Mode) : Script String :=
  let region (r : Region) := Script.ask said (m.region = r)
  let mode (n : Mode) := Script.ask said (m = n) (method letter n)
  (region .low (mode .m1)).seq
    ((region .middle ((mode .m2).seq ((mode .m3).seq ((mode .m4).seq (mode .m5))))).seq
      ((region .upper ((mode .m6).seq (mode .m7))).seq
        ((region .high (mode .m8)).seq (.ask said true .silent))))

/-- The only name in the set of `a422009172`, and that in the set of `a1745113960`. -/
structure Names where
  int : Option String
  string : Option (Option String)

def Names.reset : Names := ⟨some "a422009172", none⟩

/-- The transitions that make a `cf` without a name. -/
def unnamed : Transition → Bool
  | .m1VoidReply | .m2Ce2 | .m3VoidReply => true
  | .m2Ne1 | .m4Ce2 | .m4Ce1 | .m4Ne1 | .m5VoidReply | .m6Ne1 | .m6VoidReply | .m7Ne1
  | .m7VoidReply | .m8VoidReply => false

/-- The set of a new `a1745113960`, if the transition makes one. -/
def stringName : Transition → Option (Option (Option String))
  | .m2Ne1 | .m3VoidReply | .m4Ce2 | .m6Ne1 | .m7VoidReply => none
  | .m2Ce2 => some none
  | .m1VoidReply | .m5VoidReply => some (some "h")
  | .m4Ce1 | .m7Ne1 => some (some "g")
  | .m4Ne1 => some (some "i")
  | .m6VoidReply | .m8VoidReply => some (some "e")

/-- Only `m6Ne1` assigns to `a422009172`, from a register that has no name. -/
def Names.after (n : Names) (t : Transition) : Names :=
  ⟨if t = .m6Ne1 then none else n.int, (stringName t).getD n.string⟩

/-- What is written for an input after the call, if it was accepted. -/
def lines (n : Names) (t : Transition) : List String :=
  ["\n", "\n"] ++ deepest "int" [n.int] ++
    deepest "boolean" (if unnamed t then [] else [some "cf"]) ++ deepest "string" n.string.toList

/-- What is written for an input in a mode, and the mode and the names that it leaves. -/
structure Entry where
  out : List String
  err : List String
  mode : Mode
  names : Names

def entry (m : Mode) (n : Names) (letter : String) : Entry :=
  let call := ["Fuzzing: " ++ letter ++ "\n", said false] ++ (script letter m).text
  match find letter m with
  | none => ⟨call, ["Invalid input: Current state has no transition for this input!"], m, n⟩
  | some t => ⟨call ++ lines (n.after t) t, [], target t, n.after t⟩

/-- All that is written for the inputs. -/
def transcript : Mode → Names → List String → List String × List String
  | _, _, [] => ([], [])
  | m, n, i :: is =>
    let e := entry m n i
    let r := transcript e.mode e.names is
    (e.out ++ r.1, e.err ++ r.2)

/-- The same after `reset()`. -/
def session (inputs : List MyString) : List String × List String :=
  transcript .m4 .reset (inputs.map MyString.val)

theorem Order.list_toFinset (order : Order) (name : Option (Option String)) :
    order.list name.toFinset = name.toList := by
  have h := order.members name.toFinset
  cases name with
  | none => exact (Multiset.coe_eq_zero _).mp h
  | some name => exact Multiset.coe_eq_singleton.mp h

/-- The sets hold these names, and no register has one. -/
structure Named (n : Names) (w : World) : Prop where
  int : w.a422009172.flowTrack = {n.int}
  string : w.a1745113960.flowTrack = n.string.toFinset
  var : ∀ k, (w.var k).varName = none

section
attribute [local simp] exec_bind Store.copied I.copyInt I.copyBool I.copyString MyInt.new
  MyInt.new3 MyBool.new2 MyBool.new3 MyString.new MyString.new2 World.int
  MyInt.propagated MyInt.flagged MyInt.computed

theorem block_int (t : Transition) {w : World} (h : (w.var 7).varName = none) :
    (exec (block .copied t) w).2.a422009172.flowTrack =
      if t = .m6Ne1 then {none} else w.a422009172.flowTrack := by
  cases t <;> simp [block, h]

theorem block_boolean (t : Transition) (w : World) :
    (exec (block .copied t) w).2.cf.flowTrack = if unnamed t then ∅ else {some "cf"} := by
  cases t <;> simp [block, unnamed]

theorem block_string (t : Transition) (w : World) :
    (exec (block .copied t) w).2.a1745113960.flowTrack =
      (stringName t).elim w.a1745113960.flowTrack Option.toFinset := by
  cases t <;> simp [block, stringName]

/-- No operation gives a register a name. -/
theorem store_varName {w : World} {op : BoundedInt.Op} {a : ℕ} {b c : IntRef}
    {r : MyInt → MyInt → MyInt → MyInt} (hr : ∀ x y z, (r x y z).varName = x.varName) (k : ℕ) :
    ((w.store op a b c r).var k).varName = (w.var k).varName := by
  by_cases hk : k = a
  · subst hk
    simp [World.store, World.setVar, hr]
  · simp [World.store, World.setVar, hk]

theorem block_var (t : Transition) (w : World) (k : ℕ) :
    ((exec (block .copied t) w).2.var k).varName = (w.var k).varName := by
  have hp (op : BoundedInt.Op) (x y z : MyInt) : (x.propagated op y z).varName = x.varName := rfl
  have hf (op : BoundedInt.Op) (bo : Bool) (x y z : MyInt) :
      (x.flagged op bo y z).varName = x.varName := rfl
  have hc (op : BoundedInt.Op) (x y z : MyInt) : (x.computed op y z).varName = x.varName := rfl
  cases t <;> simp [block, store_varName (hp _), store_varName (hf _ _), store_varName (hc _)]

end

theorem Named.same {n : Names} {w w' : World} (h : Named n w) (hs : Same w w') : Named n w' := by
  rw [hs]
  exact ⟨h.int, h.string, h.var⟩

theorem Named.block {n : Names} {w : World} (h : Named n w) (t : Transition) :
    Named (n.after t) (exec (Blocks.block .copied t) w).2 where
  int := by
    rw [block_int t (h.var 7), h.int]
    unfold Names.after
    split_ifs <;> rfl
  string := by
    rw [block_string, h.string]
    unfold Names.after
    cases stringName t <;> rfl
  var k := (block_var t w k).trans (h.var k)

theorem named_reset (w : World) (h : ∀ k, (w.var k).varName = none) : Named .reset (reset w) :=
  ⟨rfl, rfl, h⟩

theorem exec_lift {α : Type} (p : Instrumented.Prog α) (s : Main) :
    exec (lift p) s = ((exec p s.world).1, { s with
      world := (exec p s.world).2
      out := s.out ++ ((exec p s.world).2.decisions.drop s.world.decisions.length).map
          (fun b => said b.val) ++
        ((exec p s.world).2.out.drop s.world.out.length).map fun a => "\n" ++ a ++ "\n" }) :=
  exec_zoom _ _ p s

theorem projects_lift {α : Type} {p : Instrumented.Prog α} : Projects Main.world (lift p) p :=
  projects_zoom (fun _ _ => rfl) p

theorem exec_println (line : String) (s : Main) :
    exec (println line) s = (.ok (), { s with out := s.out ++ [line ++ "\n"] }) := rfl

theorem unseen_println (line : String) : Unseen Main.world (println line) :=
  unseen_modify fun _ => rfl

theorem unseen_getFlow (order : Order) (kind : String)
    (flowTrack : World → Finset (Option String)) :
    Unseen Main.world (getFlow order kind flowTrack) := unseen_modify fun _ => rfl

theorem unseen_complain (message : String) : Unseen Main.world (complain message) :=
  unseen_modify fun _ => rfl

theorem projects_respond (order : Order) {engine : MyString → Prog Unit} {input : MyString}
    {p : Instrumented.Prog Unit} (h : Projects Main.world (engine input) p) :
    Projects Main.world (respond order engine input) p :=
  Unseen.after ((unseen_println _).before ((unseen_println _).before
    ((unseen_getFlow _ _ _).before ((unseen_getFlow _ _ _).before (unseen_getFlow _ _ _))))) h

/-- The variables of the call as long as no transition has fired, and `cf`. -/
def stages (v : Original.Vars) (err : List String) : Stages Main String where
  idle s := s.world.view = v ∧ s.world.cf.val = true ∧ s.err = err
  acted s := s.world.cf.val = false ∧ s.err = err
  out := Main.out

/-- The condition passes what it computes to `I.myIf`. -/
def Decides (c : Instrumented.Prog Bool) (f : Original.Vars → Bool → Bool) : Prop :=
  ∀ w, ∃ w' b, exec c w = (.ok b.val, w') ∧ Same w w' ∧ w'.decisions = w.decisions ++ [b] ∧
    b.val = f w.view w.cf.val

section
variable {v : Original.Vars} {err : List String} {c : Instrumented.Prog Bool}
  {f : Original.Vars → Bool → Bool}

theorem exec_decides (hc : Decides c f) (s : Main) :
    ∃ w, exec (lift c) s = (.ok (f s.world.view s.world.cf.val),
      ⟨w, s.out ++ [said (f s.world.view s.world.cf.val)], s.err⟩) ∧ Same s.world w := by
  obtain ⟨w, b, he, hsame, hdec, hb⟩ := hc s.world
  refine ⟨w, ?_, hsame⟩
  rw [exec_lift, he, hsame.out, hdec, ← hb]
  simp

theorem Decides.asks {b : Bool} (hc : Decides c f) (htrue : f v true = b)
    (hfalse : ∀ u, f u false = false) : (stages v err).Asks said (lift c) b where
  idle s := by
    rintro ⟨hv, hcf, herr⟩
    obtain ⟨w, he, hsame⟩ := exec_decides hc s
    rw [hv, hcf, htrue] at he
    exact ⟨_, he, rfl, hsame.view.trans hv, hsame.cf ▸ hcf, herr⟩
  acted s := by
    rintro ⟨hcf, herr⟩
    obtain ⟨w, he, hsame⟩ := exec_decides hc s
    rw [hcf, hfalse] at he
    exact ⟨_, he, rfl, hsame.cf ▸ hcf, herr⟩

theorem block_written (t : Transition) (s : Main) (hs : (stages v err).idle s) :
    Leads (lift (block .copied t)) s fun s' =>
      (stages v err).Written s s' ["\n" ++ t.word ++ "\n"] true := by
  have he := exec_lift (block .copied t) s
  rw [block_returns, block_decisions, block_out, List.drop_length, List.drop_left] at he
  exact ⟨_, he, by simp [stages], block_cf t s.world, hs.2.2⟩

/-- An `if` of the source is decided by the variables and `cf`, here and below. -/
theorem Decides.word {i : String} (t : Transition)
    (hc : Decides c fun _ cf => i == t.letter && cf) :
    (stages v err).Follows (ifM (lift c) (lift (block .copied t))) (site i t) :=
  (hc.asks (Bool.and_true _) fun _ => Bool.and_false _).ifM fun _ => block_written t

theorem Decides.cf_word {i : String} (t : Transition)
    (hc : Decides c fun _ cf => cf && i == t.letter) :
    (stages v err).Follows (ifM (lift c) (lift (block .copied t))) (site i t) :=
  (hc.asks rfl fun _ => rfl).ifM fun _ => block_written t

theorem Decides.check (hc : Decides c fun _ cf => cf) :
    (stages v err).Ends (.error noTransition) (ifM (lift c) (throw noTransition))
      (.ask said true .silent) :=
  (hc.asks rfl fun _ => rfl).ends

/-- No input is two words at once. -/
theorem Decides.never {i : String} (hc : Decides c fun _ _ =>
      ((i == "ai1_ce1" && i == "usr4_ai1_VoidReply") &&
        (i == "usr4_ni1_ne1" && i == "ai1_ce2")) && i == "usr2_ai1_VoidReply") :
    Decides c fun _ _ => false := by
  have hfalse : (i == "ai1_ce1" && i == "usr4_ai1_VoidReply") = false := by
    by_cases hi : i = "ai1_ce1" <;> simp [hi]
  simpa only [hfalse, Bool.false_and] using hc

variable {m : Mode} {p : Prog Unit} {t : Script String} {i : String}

theorem Decides.region (hv : Inv m v) (hc : Decides c f) (r : Region)
    (htrue : f v true = true ↔ r.Holds cuts v.a2108127495) (hfalse : ∀ u, f u false = false) :
    (stages v err).Asks said (lift c) (m.region = r) := by
  refine hc.asks (Bool.eq_iff_iff.mpr ?_) hfalse
  rw [htrue, decide_eq_true_iff, Region.holds_iff (by decide) hv.guard.1, eq_comm]

theorem Decides.low (hv : Inv m v) (hc : Decides c fun u cf => cf && u.a2108127495 ≤ -164) :
    (stages v err).Asks said (lift c) (m.region = .low) :=
  hc.region hv .low (by simp [Region.Holds, cuts]) fun _ => rfl

theorem Decides.middle (hv : Inv m v)
    (hc : Decides c fun u cf => cf && (-164 < u.a2108127495 && -19 ≥ u.a2108127495)) :
    (stages v err).Asks said (lift c) (m.region = .middle) :=
  hc.region hv .middle (by simp [Region.Holds, cuts]) fun _ => rfl

theorem Decides.upper (hv : Inv m v)
    (hc : Decides c fun u cf => (-19 < u.a2108127495 && 100 ≥ u.a2108127495) && cf) :
    (stages v err).Asks said (lift c) (m.region = .upper) :=
  hc.region hv .upper (by simp [Region.Holds, cuts]) fun _ => Bool.and_false _

theorem Decides.high (hv : Inv m v) (hc : Decides c fun u cf => cf && 100 < u.a2108127495) :
    (stages v err).Asks said (lift c) (m.region = .high) :=
  hc.region hv .high (by simp [Region.Holds, cuts]) fun _ => rfl

/-- The `if` around the call of a method, in its region. -/
theorem Decides.row (hv : Inv m v) {n : Mode} (hn : m.region = n.region) (hc : Decides c f)
    (hp : (stages v err).Follows p (method i n)) (htrue : f v true = true ↔ Side n v)
    (hfalse : ∀ u, f u false = false) :
    (stages v err).Follows (ifM (lift c) p) (.ask said (m = n) (method i n)) := by
  refine (hc.asks (Bool.eq_iff_iff.mpr ?_) hfalse).nest fun _ => hp
  rw [htrue, decide_eq_true_iff]
  constructor
  · intro hs
    exact (guard_unique hv.guard ⟨hn ▸ hv.guard.1, hs⟩).symm
  · rintro rfl
    exact hv.side

theorem Decides.m1 (hv : Inv m v) (hn : m.region = .low)
    (hc : Decides c fun u cf => cf && (-83 < u.a1522448132 && 18 ≥ u.a1522448132))
    (hp : (stages v err).Follows p (method i .m1)) :
    (stages v err).Follows (ifM (lift c) p) (.ask said (m = .m1) (method i .m1)) :=
  hc.row hv hn hp (by simp [Side]) fun _ => rfl

theorem Decides.m8 (hv : Inv m v) (hn : m.region = .high)
    (hc : Decides c fun u cf => (103 < u.a422009172 && 198 ≥ u.a422009172) && cf)
    (hp : (stages v err).Follows p (method i .m8)) :
    (stages v err).Follows (ifM (lift c) p) (.ask said (m = .m8) (method i .m8)) :=
  hc.row hv hn hp (by simp [Side]) fun _ => Bool.and_false _

theorem Decides.cf_string (hv : Inv m v) {n : Mode} (hn : m.region = n.region) {word : String}
    (hs : ∀ u, Side n u = (u.a1745113960 = word))
    (hc : Decides c fun u cf => cf && u.a1745113960 == word)
    (hp : (stages v err).Follows p (method i n)) :
    (stages v err).Follows (ifM (lift c) p) (.ask said (m = n) (method i n)) :=
  hc.row hv hn hp (by simp [hs]) fun _ => rfl

theorem Decides.string_cf (hv : Inv m v) {n : Mode} (hn : m.region = n.region) {word : String}
    (hs : ∀ u, Side n u = (u.a1745113960 = word))
    (hc : Decides c fun u cf => u.a1745113960 == word && cf)
    (hp : (stages v err).Follows p (method i n)) :
    (stages v err).Follows (ifM (lift c) p) (.ask said (m = n) (method i n)) :=
  hc.row hv hn hp (by simp [hs]) fun _ => Bool.and_false _

variable {low middle upper high : Prog Bool} {p₁ p₂ p₃ p₄ p₅ p₆ p₇ p₈ last : Prog Unit}
  {r : Except Throwable Unit}

/-- The control structure of `calculateOutput`. -/
theorem script_ends (hlow : (stages v err).Asks said low (m.region = .low))
    (h₁ : m.region = .low → (stages v err).Follows p₁ (.ask said (m = .m1) (method i .m1)))
    (hmiddle : (stages v err).Asks said middle (m.region = .middle))
    (h₂ : m.region = .middle → (stages v err).Follows p₂ (.ask said (m = .m2) (method i .m2)))
    (h₃ : m.region = .middle → (stages v err).Follows p₃ (.ask said (m = .m3) (method i .m3)))
    (h₄ : m.region = .middle → (stages v err).Follows p₄ (.ask said (m = .m4) (method i .m4)))
    (h₅ : m.region = .middle → (stages v err).Follows p₅ (.ask said (m = .m5) (method i .m5)))
    (hupper : (stages v err).Asks said upper (m.region = .upper))
    (h₆ : m.region = .upper → (stages v err).Follows p₆ (.ask said (m = .m6) (method i .m6)))
    (h₇ : m.region = .upper → (stages v err).Follows p₇ (.ask said (m = .m7) (method i .m7)))
    (hhigh : (stages v err).Asks said high (m.region = .high))
    (h₈ : m.region = .high → (stages v err).Follows p₈ (.ask said (m = .m8) (method i .m8)))
    (hlast : (stages v err).Ends r last (.ask said true .silent)) :
    (stages v err).Ends r (do
      ifM low p₁
      ifM middle do
        p₂
        p₃
        p₄
        p₅
      ifM upper do
        p₆
        p₇
      ifM high p₈
      last) (script i m) :=
  (hlow.nest fun h => h₁ (of_decide_eq_true h)).seq
    ((hmiddle.nest fun h =>
      have h := of_decide_eq_true h
      (h₂ h).seq ((h₃ h).seq ((h₄ h).seq (h₅ h)))).seq
    ((hupper.nest fun h =>
      have h := of_decide_eq_true h
      (h₆ h).seq (h₇ h)).seq
    ((hhigh.nest fun h => h₈ (of_decide_eq_true h)).seq hlast)))

end

/-- The engine implements the lookup, and in a mode it writes what the script says. -/
structure Speaks (engine : MyString → Prog Unit) : Prop where
  implements : ∃ e, Implements e ∧ ∀ input, Projects Main.world (engine input) (e input)
  ends : ∀ {m v} err input, Inv m v → ∃ p,
    engine input = (lift (setCf (.new2 true "cf")) >>= fun _ => p) ∧
    (stages v err).Ends (.error noTransition) p (script input.val m)

/-- The engine is in a mode, and its sets hold these names. -/
structure Stands (m : Mode) (n : Names) (s : Main) : Prop where
  inv : Inv m s.world.view
  named : Named n s.world

theorem stands_reset {s : Main} (h : ∀ k, (s.world.var k).varName = none) :
    Stands .m4 .reset { s with world := reset s.world } := ⟨inv_start, named_reset s.world h⟩

/-- From `s` to `s'` this is written to the two streams. -/
structure Wrote (s s' : Main) (out err : List String) : Prop where
  out : s'.out = s.out ++ out
  err : s'.err = s.err ++ err

theorem Wrote.trans {s t u : Main} {out out' err err' : List String} (h : Wrote s t out err)
    (k : Wrote t u out' err') : Wrote s u (out ++ out') (err ++ err') :=
  ⟨by rw [k.out, h.out, List.append_assoc], by rw [k.err, h.err, List.append_assoc]⟩

section
variable (order : Order) {engine : MyString → Prog Unit} {m : Mode} {n : Names} {s : Main}
  {t : Transition}

/-- The call of the engine, with what it writes. -/
theorem Speaks.call (h : Speaks engine) (hv : Inv m s.world.view) (input : MyString) :
    ∃ s' r, exec (engine input) s = (r, s') ∧
      Outcome s.world (r, s'.world) (find input.val m) ∧
      Wrote s s' (script input.val m).text [] := by
  obtain ⟨p, hp, hends⟩ := h.ends s.err input hv
  have hset : exec (lift (setCf (.new2 true "cf"))) s =
      (.ok (), { s with world := start s.world }) := by
    rw [exec_lift]
    simp [start]
  obtain ⟨s', hs', hout, hstage⟩ := hends.idle { s with world := start s.world } ⟨rfl, rfl, rfl⟩
  have he := hp ▸ (exec_bind_ok hset).trans hs'
  obtain ⟨e, himplements, hprojects⟩ := h.implements
  have houtcome := himplements input s.world
  rw [hprojects input s, he, fired_of_guard hv.guard] at houtcome
  refine ⟨s', _, he, houtcome, hout, ?_⟩
  rw [List.append_nil]
  split at hstage
  · exact hstage.2
  · exact hstage.2.2

/-- What is written after the call. -/
theorem exec_names (h : Named n s.world) (hcf : s.world.cf.flowTrack =
      if unnamed t then ∅ else {some "cf"}) :
    exec (do
      println ""
      println ""
      getFlow order "int" fun w => w.a422009172.flowTrack
      getFlow order "boolean" fun w => w.cf.flowTrack
      getFlow order "string" fun w => w.a1745113960.flowTrack) s =
    (.ok (), { s with out := s.out ++ lines n t }) := by
  have hint : order.list s.world.a422009172.flowTrack = [n.int] := by
    rw [h.int]
    exact order.list_toFinset (some n.int)
  have hboolean : order.list s.world.cf.flowTrack =
      if unnamed t then [] else [some "cf"] := by
    rw [hcf]
    cases unnamed t with
    | true => exact order.list_toFinset none
    | false => exact order.list_toFinset (some (some "cf"))
  have hstring : order.list s.world.a1745113960.flowTrack = n.string.toList := by
    rw [h.string]
    exact order.list_toFinset n.string
  simp only [println, getFlow, exec_bind, exec_modify, hint, hboolean, hstring, lines,
    String.empty_append, List.append_assoc, List.cons_append, List.nil_append]

/-- The call with what is printed behind it. A rejected input leaves mode and names. -/
theorem Speaks.respond (h : Speaks engine) (hs : Stands m n s) (input : MyString) :
    match find input.val m with
    | none => ∃ u, exec (Screen.respond order engine input) s = (.error noTransition, u) ∧
        Stands m n u ∧ Wrote s u (script input.val m).text []
    | some t => Leads (Screen.respond order engine input) s fun u =>
        Stands (target t) (n.after t) u ∧
        Wrote s u ((script input.val m).text ++ lines (n.after t) t) [] := by
  obtain ⟨u, r, hu, ho, hwrote⟩ := h.call hs.inv input
  have hstart : Named n (start s.world) := ⟨hs.named.int, hs.named.string, hs.named.var⟩
  unfold Screen.respond
  cases hf : find input.val m with
  | none =>
    rw [hf] at ho
    cases ho with
    | rejected hsame =>
      exact ⟨u, exec_bind_error hu, ⟨hsame.view.symm ▸ hs.inv, hstart.same hsame⟩, hwrote⟩
  | some t =>
    rw [hf] at ho
    obtain ⟨rfl, -⟩ := find_eq_some_iff.mp hf
    cases ho with
    | @fired _ w₁ _ h₁ h₂ =>
      have hview : u.world.view = t.fire s.world.view := by
        rw [h₂.view, block_view, h₁.view]
        rfl
      have hnamed : Named (n.after t) u.world := ((hstart.same h₁).block t).same h₂
      have hcf : u.world.cf.flowTrack = if unnamed t then ∅ else {some "cf"} := by
        rw [h₂.cf, block_boolean]
      refine ⟨_, (exec_bind_ok hu).trans (exec_names order hnamed hcf),
        ⟨hview ▸ (safe t hs.inv).1, hnamed⟩, ?_, hwrote.err⟩
      rw [hwrote.out, List.append_assoc]

/-- The first two statements of a loop, whose `if` is not taken. -/
theorem Stands.begin {check : MyString → Instrumented.Prog Bool}
    (hc : ∀ input, Decides (check input) fun _ _ => false) (hs : Stands m n s) (input : MyString) :
    ∃ u, exec (lift (check input)) { s with out := s.out ++ ["Fuzzing: " ++ input.val ++ "\n"] } =
        (.ok false, u) ∧ Stands m n u ∧
      Wrote s u ["Fuzzing: " ++ input.val ++ "\n", said false] [] := by
  obtain ⟨w, hw, hsame⟩ := exec_decides (hc input)
    { s with out := s.out ++ ["Fuzzing: " ++ input.val ++ "\n"] }
  refine ⟨_, hw, ⟨hsame.view.symm ▸ hs.inv, hs.named.same hsame⟩, ?_, (List.append_nil _).symm⟩
  exact List.append_assoc _ _ _

/-- The message that a caught exception leaves. -/
theorem Stands.complain {s₀ : Main} {out err : List String} (hs : Stands m n s)
    (h : Wrote s₀ s out err) (message : String) :
    Leads (complain message) s fun u => Stands m n u ∧
      Wrote s₀ u out (err ++ ["Invalid input: " ++ message]) :=
  ⟨_, rfl, ⟨hs.inv, hs.named⟩, h.out, (congrArg (· ++ _) h.err).trans (List.append_assoc _ _ _)⟩

end

section
variable {σ : Type} {π : σ → Main} {body : MyString → Imp Throwable σ Unit}

/-- The body of the loop writes the entry of its input. -/
def Answers (π : σ → Main) (body : MyString → Imp Throwable σ Unit) : Prop :=
  ∀ m n s (input : MyString), Stands m n (π s) → Leads (body input) s fun u =>
    let e := entry m n input.val
    Stands e.mode e.names (π u) ∧ Wrote (π s) (π u) e.out e.err

theorem Answers.forM (h : Answers π body) {m : Mode} {n : Names} {s : σ} (hs : Stands m n (π s))
    (inputs : List MyString) :
    Leads (inputs.forM body) s fun u => (∃ m' n', Stands m' n' (π u)) ∧
      let r := transcript m n (inputs.map MyString.val)
      Wrote (π s) (π u) r.1 r.2 := by
  induction inputs generalizing m n s with
  | nil => exact ⟨s, rfl, ⟨m, n, hs⟩, (List.append_nil _).symm, (List.append_nil _).symm⟩
  | cons i is ih =>
    obtain ⟨u, hu, hstands, hwrote⟩ := h m n s i hs
    obtain ⟨v, hv, hstands', hwrote'⟩ := ih hstands
    exact ⟨v, (exec_bind_ok hu).trans hv, hstands', hwrote.trans hwrote'⟩

end

theorem process_answers (order : Order) {check : MyString → Instrumented.Prog Bool}
    {engine : MyString → Prog Unit} (hc : ∀ input, Decides (check input) fun _ _ => false)
    (he : Speaks engine) : Answers id (process order check engine) := by
  intro m n s input hs
  obtain ⟨u, hu, hstands, hwrote⟩ := hs.begin hc input
  refine Leads.seq (exec_modify _ s) (Leads.seq (exec_ifM_of_false hu) ?_)
  have hr := he.respond order hstands input
  unfold entry
  unfold Leads
  rw [exec_tryCatch]
  cases hf : find input.val m with
  | none =>
    rw [hf] at hr
    obtain ⟨v, hv, hstands', hwrote'⟩ := hr
    rw [hv]
    exact hstands'.complain (hwrote.trans hwrote') "Current state has no transition for this input!"
  | some t =>
    rw [hf] at hr
    obtain ⟨v, hv, hstands', hwrote'⟩ := hr
    rw [hv]
    exact ⟨v, rfl, hstands', hwrote.trans hwrote'⟩

end EcaEngines.Screen
