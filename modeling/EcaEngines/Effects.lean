import EcaEngines.Recording

/-!
# What the operations of the recording runtime change

A frame says which objects an operation leaves alone, and that the counters and
the records only grow. Operations of class `I` write registers and the one
`BranchSet` they record into. `I.myIf` gives a set two new children and leaves
all other sets.
-/
namespace EcaEngines.Effects
open Imperative Recording
open BoundedInt (Op)
open Instrumented (Throws)

variable {u v w : World} {x y : ℕ}

/-- An existing object other than the registers. -/
def Owned (w : World) (r : Ref) : Prop := ∃ n < w.next, r = .made n

theorem Owned.mono {r : Ref} (hr : Owned u r) (h : u.next ≤ v.next) : Owned v r := by
  obtain ⟨n, hn, rfl⟩ := hr
  exact ⟨n, by omega, rfl⟩

theorem Owned.ne_next {r : Ref} (hr : Owned w r) : r ≠ .made w.next := by
  obtain ⟨n, hn, rfl⟩ := hr
  intro h
  have hn' : n = w.next := Ref.made.inj h
  omega

theorem Owned.ne_var {r : Ref} (hr : Owned w r) (n : ℕ) : r ≠ .var n := by
  obtain ⟨m, -, rfl⟩ := hr
  exact nofun

theorem Owned.ne_bool {r : Ref} (hr : Owned w r) (n : ℕ) : r ≠ .bool n := by
  obtain ⟨m, -, rfl⟩ := hr
  exact nofun

/-- The fields refer to existing objects, and `taintSet` is a set of such. -/
structure Valid (w : World) : Prop where
  fields : ∀ f, Owned w (w.fields f)
  taintSet : w.taintSet.isSome
  members : ∀ n, w.tainted (.made n) = true → n < w.next

/-- What no operation takes away or overwrites. -/
structure Extends (u v : World) : Prop where
  next : u.next ≤ v.next
  ints : ∀ r, Owned u r → v.ints r = u.ints r
  bools : ∀ r, Owned u r → v.bools r = u.bools r
  strings : ∀ r, Owned u r → (v.strings r).val = (u.strings r).val
  tainted : ∀ r, Owned u r → v.tainted r = u.tainted r
  made : u.made <+: v.made
  var : v.var = u.var

theorem Extends.refl (w : World) : Extends w w :=
  ⟨le_refl _, fun _ _ => rfl, fun _ _ => rfl, fun _ _ => rfl, fun _ _ => rfl,
    List.prefix_refl _, rfl⟩

theorem Extends.trans (h : Extends u v) (k : Extends v w) : Extends u w where
  next := h.next.trans k.next
  ints r hr := (k.ints r (hr.mono h.next)).trans (h.ints r hr)
  bools r hr := (k.bools r (hr.mono h.next)).trans (h.bools r hr)
  strings r hr := (k.strings r (hr.mono h.next)).trans (h.strings r hr)
  tainted r hr := (k.tainted r (hr.mono h.next)).trans (h.tainted r hr)
  made := h.made.trans k.made
  var := k.var.trans h.var

theorem Extends.made_length (h : Extends u v) : u.made.length ≤ v.made.length := h.made.length_le

/-- The branches in a set. -/
def members (w : World) (x : ℕ) : List ℕ := (w.sets x).branches.getD []

/-- The same children everywhere. -/
def SameLinks (s t : ℕ → BranchSet) : Prop :=
  ∀ y, (s y).leftSet = (t y).leftSet ∧ (s y).rightSet = (t y).rightSet

theorem SameLinks.refl (s : ℕ → BranchSet) : SameLinks s s := fun _ => ⟨rfl, rfl⟩

theorem SameLinks.trans {r s t : ℕ → BranchSet} (h : SameLinks r s) (k : SameLinks s t) :
    SameLinks r t := fun y => ⟨(h y).1.trans (k y).1, (h y).2.trans (k y).2⟩

/-- An entry about an `addBranch` to `x` with the children and the decisions of `w`. -/
structure At (x : ℕ) (w : World) (m : Moment) : Prop where
  set : m.set = x
  links : SameLinks m.sets w.sets
  latest : m.latest = w.latest

theorem At.of_same {m : Moment} (h : At x v m) (hl : SameLinks v.sets u.sets)
    (hd : v.latest = u.latest) : At x u m :=
  ⟨h.set, h.links.trans hl, h.latest.trans hd⟩

/-- The branches made in between. -/
def recorded (u v : World) : List Branch := v.made.drop u.made.length

theorem recorded_mono {u' v' : World} {b : Branch} (h : u.made <+: u'.made) (k : v'.made <+: v.made)
    (hb : b ∈ recorded u' v') : b ∈ recorded u v :=
  (k.drop u.made.length).subset ((List.drop_sublist_drop_left _ h.length_le).subset hb)

/-- The entries made in between. -/
def entries (u v : World) : List Moment := v.moments.drop u.moments.length

theorem entries_append (h : u.moments <+: v.moments) (k : v.moments <+: w.moments) :
    entries u w = entries u v ++ entries v w := by
  obtain ⟨ms, hms⟩ := h
  obtain ⟨ns, hns⟩ := k
  simp only [entries, ← hns, ← hms, List.drop_left, List.append_assoc, List.length_append]
  rw [← List.drop_drop, List.drop_left, List.drop_left]

/-- Only new branches in `x`: no set gets other children, and no decision is taken. -/
structure Notes (x : ℕ) (u v : World) : Prop where
  objects : Extends u v
  decisions : v.decisions = u.decisions
  latest : v.latest = u.latest
  nextSet : v.nextSet = u.nextSet
  others : ∀ y, y ≠ x → v.sets y = u.sets y
  links : SameLinks v.sets u.sets
  branches : ∀ k ∈ members v x, k ∈ members u x ∨ (u.made.length ≤ k ∧ k < v.made.length)
  instantiated : (u.sets x).branches.isSome → (v.sets x).branches.isSome
  moments : ∃ ms, v.moments = u.moments ++ ms ∧ ∀ m ∈ ms, At x u m

theorem Notes.refl (x : ℕ) (w : World) : Notes x w w :=
  ⟨.refl w, rfl, rfl, rfl, fun _ _ => rfl, .refl _, fun _ => .inl, id, [], by simp⟩

theorem Notes.trans (h : Notes x u v) (k : Notes x v w) : Notes x u w where
  objects := h.objects.trans k.objects
  decisions := k.decisions.trans h.decisions
  latest := k.latest.trans h.latest
  nextSet := k.nextSet.trans h.nextSet
  others y hy := (k.others y hy).trans (h.others y hy)
  links := k.links.trans h.links
  branches n hn := by
    have hu := h.objects.made_length
    have hv := k.objects.made_length
    rcases k.branches n hn with hm | ⟨h₁, h₂⟩
    · rcases h.branches n hm with hm | ⟨h₁, h₂⟩
      · exact .inl hm
      · exact .inr ⟨h₁, by omega⟩
    · exact .inr ⟨by omega, h₂⟩
  instantiated hx := k.instantiated (h.instantiated hx)
  moments := by
    obtain ⟨ms, hms, hm⟩ := h.moments
    obtain ⟨ns, hns, hn⟩ := k.moments
    refine ⟨ms ++ ns, by rw [hns, hms, List.append_assoc], fun m hmem => ?_⟩
    rcases List.mem_append.mp hmem with h' | h'
    · exact hm m h'
    · exact (hn m h').of_same h.links h.latest

/-- None of the three members that `printBranch` dereferences is null. -/
def Shown (b : Branch) : Prop :=
  b.lVar.isSome ∧ b.rVar.isSome ∧ b.outcome.isSome

/-- Every branch of the set can be shown. -/
def Plain (w : World) (x : ℕ) : Prop :=
  ∀ k ∈ members w x, ∃ b, w.made[k]? = some b ∧ Shown b

theorem Plain.congr (h : Plain u x) (hs : v.sets x = u.sets x) (hm : u.made <+: v.made) :
    Plain v x := by
  intro k hk
  rw [members, hs] at hk
  obtain ⟨b, hb, hshown⟩ := h k hk
  refine ⟨b, ?_, hshown⟩
  have hlt : k < u.made.length := (List.getElem?_eq_some_iff.mp hb).choose
  rw [← hb]
  exact (List.prefix_iff_getElem?.mp hm k hlt).trans (List.getElem?_eq_getElem hlt).symm

/-- What a comparison does besides writing its register. -/
structure Quiet (x : ℕ) (u v : World) : Prop where
  notes : Notes x u v
  fields : v.fields = u.fields
  out : v.out = u.out
  valid : Valid u → Valid v
  plain : Plain u x → Plain v x

theorem Quiet.refl (x : ℕ) (w : World) : Quiet x w w := ⟨.refl x w, rfl, rfl, id, id⟩

theorem Quiet.trans (h : Quiet x u v) (k : Quiet x v w) : Quiet x u w :=
  ⟨h.notes.trans k.notes, k.fields.trans h.fields, k.out.trans h.out,
    fun hu => k.valid (h.valid hu), fun hu => k.plain (h.plain hu)⟩

theorem eval_congr (h : v.fields = u.fields) (a : Arg) : v.eval a = u.eval a := by
  cases a with
  | ref r => rfl
  | field f => exact congrFun h f

/-- Nothing but objects, registers and `taintSet` changes. -/
theorem Quiet.of_objects (hx : Extends u v) (hdec : v.decisions = u.decisions)
    (hlat : v.latest = u.latest) (hsets : v.sets = u.sets) (hnext : v.nextSet = u.nextSet)
    (hmom : v.moments = u.moments) (hf : v.fields = u.fields) (hout : v.out = u.out)
    (hval : Valid u → Valid v) : Quiet x u v where
  notes := ⟨hx, hdec, hlat, hnext, fun y _ => by rw [hsets], by rw [hsets]; exact .refl _,
    fun k hk => .inl (by rwa [members, hsets] at hk), by rw [hsets]; exact id, [], by simp [hmom]⟩
  fields := hf
  out := hout
  valid := hval
  plain hu := hu.congr (by rw [hsets]) hx.made

theorem tainted_taint (r s : Ref) (h : w.taintSet.isSome) :
    (w.taint r).tainted s = (w.tainted s || decide (s = r)) := by
  obtain ⟨t, ht⟩ := Option.isSome_iff_exists.mp h
  simp only [World.tainted, World.taint, ht, Option.map_some, Option.getD_some,
    Finset.mem_insert, Bool.decide_or, Bool.or_comm]

/-- A new object is not yet in `taintSet`. -/
theorem Valid.tainted_next (h : Valid w) : w.tainted (.made w.next) = false := by
  cases ht : w.tainted (.made w.next) with
  | false => rfl
  | true => exact absurd (h.members _ ht) (lt_irrefl _)

theorem Valid.grown (h : Valid w) (c : ObjectClass) : Valid (w.grown c) where
  fields f := (h.fields f).mono (Nat.le_succ _)
  taintSet := rfl
  members n hn := Nat.lt_succ_of_lt (h.members n hn)

theorem exec_newInt (val : Int32) (name : String) (w : World) : exec (MyInt.new val name) w =
    (.ok (.made w.next), (w.grown .myInt).setInt (.made w.next) ⟨val, name⟩) := rfl

theorem exec_newString (val : String) (w : World) : exec (MyString.new val) w =
    (.ok (.made w.next), (w.grown .myString).setString (.made w.next) ⟨val, 0, ""⟩) := rfl

theorem quiet_newInt (val : Int32) (name : String) :
    Quiet x w ((w.grown .myInt).setInt (.made w.next) ⟨val, name⟩) :=
  .of_objects
    ⟨Nat.le_succ _, fun _ hr => Function.update_of_ne hr.ne_next _ _, fun _ _ => rfl,
      fun _ _ => rfl, fun _ _ => rfl, List.prefix_refl _, rfl⟩
    rfl rfl rfl rfl rfl rfl rfl fun h => ⟨(h.grown .myInt).fields, rfl, (h.grown .myInt).members⟩

theorem quiet_newBool (b : MyBool) : Quiet x w ((w.grown .myBool).setBool (.made w.next) b) :=
  .of_objects
    ⟨Nat.le_succ _, fun _ _ => rfl, fun _ hr => Function.update_of_ne hr.ne_next _ _,
      fun _ _ => rfl, fun _ _ => rfl, List.prefix_refl _, rfl⟩
    rfl rfl rfl rfl rfl rfl rfl fun h => ⟨(h.grown .myBool).fields, rfl, (h.grown .myBool).members⟩

theorem quiet_newString (s : MyString) :
    Quiet x w ((w.grown .myString).setString (.made w.next) s) :=
  .of_objects
    ⟨Nat.le_succ _, fun _ _ => rfl, fun _ _ => rfl,
      fun _ hr => congrArg MyString.val (Function.update_of_ne hr.ne_next _ _),
      fun _ _ => rfl, List.prefix_refl _, rfl⟩
    rfl rfl rfl rfl rfl rfl rfl
    fun h => ⟨(h.grown .myString).fields, rfl, (h.grown .myString).members⟩

theorem quiet_setInt (a : ℕ) (i : MyInt) : Quiet x w (w.setInt (.var a) i) :=
  .of_objects
    ⟨le_refl _, fun _ hr => Function.update_of_ne (hr.ne_var a) _ _, fun _ _ => rfl,
      fun _ _ => rfl, fun _ _ => rfl, List.prefix_refl _, rfl⟩
    rfl rfl rfl rfl rfl rfl rfl fun h => ⟨h.fields, h.taintSet, h.members⟩

theorem quiet_setBool (a : ℕ) (b : MyBool) : Quiet x w (w.setBool (.bool a) b) :=
  .of_objects
    ⟨le_refl _, fun _ _ => rfl, fun _ hr => Function.update_of_ne (hr.ne_bool a) _ _,
      fun _ _ => rfl, fun _ _ => rfl, List.prefix_refl _, rfl⟩
    rfl rfl rfl rfl rfl rfl rfl fun h => ⟨h.fields, h.taintSet, h.members⟩

/-- Adding a register to `taintSet`. -/
theorem quiet_taint {r : Ref} (hw : w.taintSet.isSome) (hr : ∀ s, Owned w s → s ≠ r)
    (hn : ∀ n, r ≠ .made n) : Quiet x w (w.taint r) :=
  .of_objects
    ⟨le_refl _, fun _ _ => rfl, fun _ _ => rfl, fun _ _ => rfl,
      fun s hs => by rw [tainted_taint r s hw, decide_eq_false (hr s hs), Bool.or_false],
      List.prefix_refl _, rfl⟩
    rfl rfl rfl rfl rfl rfl rfl fun h =>
      ⟨h.fields, by simpa [World.taint] using h.taintSet, fun n hm => h.members n (by
        rwa [tainted_taint r _ hw, decide_eq_false (hn n).symm, Bool.or_false] at hm)⟩

/-- The set and the records after a `Branch` was made and added. -/
def noted (x : ℕ) (b : Branch) (w : World) : World :=
  { w.setSet x
      { w.sets x with branches := some ((w.sets x).branches.getD [] ++ [w.made.length]) } with
    made := w.made ++ [b]
    moments := w.moments ++ [⟨w.made.length, x, w.sets, w.latest⟩] }

theorem exec_record (x : ℕ) (br : World → Branch) (w : World) :
    exec (I.record (some x) br) w = (.ok (), noted x (br w) w) := rfl

theorem noted_sets_of_ne {b : Branch} (h : y ≠ x) : (noted x b w).sets y = w.sets y :=
  Function.update_of_ne h _ _

theorem noted_sets_self (x : ℕ) (b : Branch) (w : World) : (noted x b w).sets x =
    { w.sets x with branches := some ((w.sets x).branches.getD [] ++ [w.made.length]) } :=
  Function.update_self _ _ _

theorem noted_links (x : ℕ) (b : Branch) (w : World) : SameLinks (noted x b w).sets w.sets := by
  intro y
  by_cases h : y = x
  · subst h
    rw [noted_sets_self]
    exact ⟨rfl, rfl⟩
  · rw [noted_sets_of_ne h]
    exact ⟨rfl, rfl⟩

theorem mem_members_noted {b : Branch} {k : ℕ} :
    k ∈ members (noted x b w) x ↔ k ∈ members w x ∨ k = w.made.length := by
  rw [members, noted_sets_self, Option.getD_some, List.mem_append, List.mem_singleton]
  rfl

theorem notes_noted (x : ℕ) (b : Branch) (w : World) : Notes x w (noted x b w) where
  objects := ⟨le_refl _, fun _ _ => rfl, fun _ _ => rfl, fun _ _ => rfl, fun _ _ => rfl,
    List.prefix_append _ _, rfl⟩
  decisions := rfl
  latest := rfl
  nextSet := rfl
  others _ h := noted_sets_of_ne h
  links := noted_links x b w
  branches k hk := by
    have hlen : (noted x b w).made.length = w.made.length + 1 := List.length_append
    rcases mem_members_noted.mp hk with hk | rfl
    · exact .inl hk
    · exact .inr ⟨le_refl _, by omega⟩
  instantiated _ := by rw [noted_sets_self, Option.isSome_some]
  moments := by
    refine ⟨_, rfl, fun m hm => ?_⟩
    rw [List.mem_singleton] at hm
    subst hm
    exact ⟨rfl, .refl _, rfl⟩

theorem quiet_noted {b : Branch} (hb : Shown b) : Quiet x w (noted x b w) where
  notes := notes_noted x b w
  fields := rfl
  out := rfl
  valid h := ⟨h.fields, h.taintSet, h.members⟩
  plain h k hk := by
    rcases mem_members_noted.mp hk with hk | rfl
    · obtain ⟨c, hc, hs⟩ := h k hk
      exact ⟨c, by rw [noted, List.getElem?_append_left
        (List.getElem?_eq_some_iff.mp hc).choose, hc], hs⟩
    · exact ⟨b, by simp [noted], hb⟩

end EcaEngines.Effects
