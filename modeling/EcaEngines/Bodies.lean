import EcaEngines.Blocks
import EcaEngines.Conditions

/-!
# The bodies of the transitions

The body of an `if` of the recording engine computes what the body in the engines
of the first task computes, statement by statement, so it has the effect of the
transition on the variables. Besides, it records into one set, which is the left
child of the set that was decided, or that set itself.
-/
namespace EcaEngines.Bodies
open Imperative Recording Effects Operations Conditions Transitions
open Instrumented (IntRef)
open BoundedInt (Op)

variable {u v w : World} {x : ℕ}

/-- The new object `r` was made, tainted or not, and maybe recorded in `x`. -/
structure Made (x : ℕ) (r : Ref) (t : Bool) (u v : World) : Prop where
  valid : Valid v
  notes : Notes x u v
  fields : v.fields = u.fields
  out : v.out = u.out
  owned : Owned v r
  tainted : v.tainted r = t
  taintedVar : ∀ n, v.tainted (.var n) = u.tainted (.var n)
  taintedBool : ∀ n, v.tainted (.bool n) = u.tainted (.bool n)
  ints : ∀ n, v.ints (.var n) = u.ints (.var n)

theorem made_of_quiet (hu : Valid u) (h : Quiet x u v) (hn : v.next = u.next + 1)
    (ht : v.taintSet = some (u.taintSet.getD ∅))
    (hi : ∀ n, v.ints (.var n) = u.ints (.var n)) (t : Bool) :
    Made x (.made u.next) t u (if t then v.taint (.made u.next) else v) := by
  have hv := h.valid hu
  have htv (s : Ref) : v.tainted s = u.tainted s := by
    simp only [World.tainted, ht, Option.getD_some]
  have howned : Owned v (.made u.next) := ⟨u.next, by omega, rfl⟩
  cases t with
  | false =>
    exact ⟨hv, h.notes, h.fields, h.out, howned, (htv _).trans hu.tainted_next,
      fun _ => htv _, fun _ => htv _, hi⟩
  | true =>
    rw [if_pos rfl]
    have htt (s : Ref) : (v.taint (.made u.next)).tainted s =
        (u.tainted s || decide (s = .made u.next)) := by
      rw [tainted_taint _ s hv.taintSet, htv]
    have hobj : Extends u (v.taint (.made u.next)) :=
      ⟨h.notes.objects.next, h.notes.objects.ints, h.notes.objects.bools, h.notes.objects.strings,
        fun s hs => by rw [htt, decide_eq_false hs.ne_next, Bool.or_false], h.notes.objects.made,
        h.notes.objects.var⟩
    refine ⟨⟨hv.fields, ?_, fun n hm => ?_⟩, ⟨hobj, h.notes.decisions, h.notes.latest,
      h.notes.nextSet, h.notes.others, h.notes.links, h.notes.branches, h.notes.instantiated,
      h.notes.moments⟩, h.fields, h.out, howned,
      by simp [htt], fun n => by simp [htt], fun n => by simp [htt], hi⟩
    · simpa [World.taint] using hv.taintSet
    · have hnext : (v.taint (.made u.next)).next = u.next + 1 := hn
      rw [htt, Bool.or_eq_true, decide_eq_true_eq] at hm
      rcases hm with hm | hm
      · have hlt := hu.members n hm
        omega
      · have heq := Ref.made.inj hm
        omega

theorem Made.noted {r : Ref} {t : Bool} {b : Branch} (h : Made x r t u v) :
    Made x r t u (noted x b v) :=
  ⟨⟨h.valid.fields, h.valid.taintSet, h.valid.members⟩, h.notes.trans (notes_noted x b v),
    h.fields, h.out, h.owned, h.tainted, h.taintedVar, h.taintedBool, h.ints⟩

/-- An earlier object does not matter. -/
theorem Made.of_made {r s : Ref} {t t' : Bool} (h : Made x s t' u v) (k : Made x r t v w) :
    Made x r t u w where
  valid := k.valid
  notes := h.notes.trans k.notes
  fields := k.fields.trans h.fields
  out := k.out.trans h.out
  owned := k.owned
  tainted := k.tainted
  taintedVar n := (k.taintedVar n).trans (h.taintedVar n)
  taintedBool n := (k.taintedBool n).trans (h.taintedBool n)
  ints n := (k.ints n).trans (h.ints n)

/-- The record that an assignment makes, if it has a set. -/
theorem recordAssign_made {r : Ref} {t : Bool} {o : Operation} {f : World → Outcome}
    {set : SetArg} (hset : Into x set) (h : Made x r t u v) :
    ∃ w, exec (I.recordAssign o r f set) v = (.ok (), w) ∧ Made x r t u w ∧
      w.ints = v.ints ∧ w.bools = v.bools ∧ w.strings = v.strings := by
  rcases hset with rfl | rfl
  · exact ⟨v, rfl, h, rfl, rfl, rfl⟩
  · exact ⟨_, rfl, h.noted, rfl, rfl, rfl⟩

/-- The expression makes an object with `P`, tainted or not. -/
def Yields (x : ℕ) (e : Prog Ref) (t : Bool) (P : World → Ref → Prop) : Prop :=
  ∀ u, Valid u → ∃ r v, exec e u = (.ok r, v) ∧ Made x r t u v ∧ P v r

theorem yields_newBool2 (val : Bool) (name : String) :
    Yields x (MyBool.new2 val name) false fun _ _ => True := fun _ hu =>
  ⟨_, _, rfl, made_of_quiet hu (quiet_newBool _) rfl rfl (fun _ => rfl) false, trivial⟩

theorem exec_newBool3 (val : Bool) (name : Option String) (t : Bool) (w : World) :
    exec (MyBool.new3 val name t) w = (.ok (.made w.next),
      let v := (w.grown .myBool).setBool (.made w.next) ⟨false, name⟩
      if t then v.taint (.made w.next) else v) := by
  cases t <;> rfl

theorem yields_newBool3 (val : Bool) (name : Option String) (t : Bool) :
    Yields x (MyBool.new3 val name t) t fun v r => (v.bools r).val = false := by
  intro u hu
  refine ⟨_, _, exec_newBool3 val name t u,
    made_of_quiet hu (quiet_newBool _) rfl rfl (fun _ => rfl) t, ?_⟩
  cases t <;> simp [World.setBool, World.taint]

/-- The copy of a boolean is false and tainted as its source. -/
theorem yields_assignBool {e : Prog Ref} {t : Bool} {P : World → Ref → Prop}
    {set : SetArg} (he : Yields x e t P) (hset : Into x set) :
    Yields x (do I.myAssignBool (.ref (← e)) set) t fun v r => (v.bools r).val = false := by
  intro u hu
  obtain ⟨r, v, hv, hm, -⟩ := he u hu
  obtain ⟨s, w, hw, hn, hb⟩ := yields_newBool3 (x := x) (v.boolean (.ref r)).val
    (v.boolean (.ref r)).varName t v hm.valid
  have hcontains : exec (I.contains (.ref r)) v = (.ok t, v) := by
    rw [exec_contains hm.valid.taintSet]
    exact congrArg (fun b => (Except.ok b, v)) hm.tainted
  obtain ⟨z, hz, hs, -, hbools, -⟩ := recordAssign_made (o := .boolAssign)
    (f := fun w => .bool (w.bools s).val) hset (hm.of_made hn)
  refine ⟨s, z, (exec_bind_ok hv).trans ?_, hs, (congrArg MyBool.val (congrFun hbools s)).trans hb⟩
  unfold I.myAssignBool
  rw [exec_bind_ok hcontains, exec_bind_ok (exec_get v), exec_bind_ok hw, exec_bind_ok hz,
    exec_pure]

theorem yields_newString (val : String) :
    Yields x (MyString.new val) false fun v r => (v.strings r).val = val := fun _ hu =>
  ⟨_, _, rfl, made_of_quiet hu (quiet_newString _) rfl rfl (fun _ => rfl) false,
    by simp [World.setString]⟩

theorem exec_newString2 (val : String) (t : Bool) (w : World) :
    exec (MyString.new2 val t) w = (.ok (.made w.next),
      let v := (w.grown .myString).setString (.made w.next) ⟨val, 0, ""⟩
      if t then v.taint (.made w.next) else v) := by
  cases t <;> rfl

theorem yields_newString2 (val : String) (t : Bool) :
    Yields x (MyString.new2 val t) t fun v r => (v.strings r).val = val := by
  intro u hu
  refine ⟨_, _, exec_newString2 val t u,
    made_of_quiet hu (quiet_newString _) rfl rfl (fun _ => rfl) t, ?_⟩
  cases t <;> simp [World.setString, World.taint]

theorem yields_assignString {e : Prog Ref} {t : Bool} {val : String} {set : SetArg}
    (he : Yields x e t fun v r => (v.strings r).val = val) (hset : Into x set) :
    Yields x (do I.myAssignString (.ref (← e)) set) t fun v r => (v.strings r).val = val := by
  intro u hu
  obtain ⟨r, v, hv, hm, hval⟩ := he u hu
  obtain ⟨s, w, hw, hn, hb⟩ := yields_newString2 (x := x) (v.string (.ref r)).val t v hm.valid
  have hcontains : exec (I.contains (.ref r)) v = (.ok t, v) := by
    rw [exec_contains hm.valid.taintSet]
    exact congrArg (fun b => (Except.ok b, v)) hm.tainted
  obtain ⟨z, hz, hs, -, -, hstrings⟩ := recordAssign_made (o := .stringAssign)
    (f := fun _ => .bool false) hset (hm.of_made hn)
  refine ⟨s, z, (exec_bind_ok hv).trans ?_, hs,
    (congrArg MyString.val (congrFun hstrings s)).trans (hb.trans hval)⟩
  unfold I.myAssignString
  rw [exec_bind_ok hcontains, exec_bind_ok (exec_get v), exec_bind_ok hw, exec_bind_ok hz,
    exec_pure]

/-- The copy of an integer register. -/
theorem yields_assignInt (hu : Valid u) (n : ℕ) (name : String) {set : SetArg}
    (hset : Into x set) :
    ∃ r v, exec (I.myAssignInt (.var n) name set) u = (.ok r, v) ∧
      Made x r (u.tainted (.var n)) u v ∧ (v.ints r).val = (u.ints (.var n)).val := by
  let v := (u.grown .myInt).setInt (.made u.next) ⟨(u.ints (.var n)).val, name⟩
  have hm := made_of_quiet (x := x) hu (quiet_newInt (u.ints (.var n)).val name) rfl rfl
    (fun _ => rfl) (u.tainted (.var n))
  have hif : exec (ifM (I.contains (.var n)) (I.addTaintedVar (.ref (.made u.next)))) v =
      (.ok (), if u.tainted (.var n) then v.taint (.made u.next) else v) := by
    have hc : exec (I.contains (.var n)) v = (.ok (u.tainted (.var n)), v) :=
      exec_contains (w := v) rfl _
    cases ht : u.tainted (.var n) <;> rw [ht] at hc
    · exact exec_ifM_of_false hc
    · exact exec_ifM_of_true hc
  obtain ⟨z, hz, hs, hints, -, -⟩ := recordAssign_made (o := .intAssign)
    (f := fun w => .int (w.ints (.made u.next)).val) hset hm
  refine ⟨_, z, ?_, hs, ?_⟩
  · unfold I.myAssignInt
    rw [exec_bind_ok (exec_get u)]
    refine (exec_bind_ok (exec_newInt _ _ u)).trans ((exec_bind_ok hif).trans ?_)
    rw [exec_bind_ok hz, exec_pure]
  · rw [hints]
    cases u.tainted (.var n) <;> simp [World.setInt, World.taint]

/-- Somewhere in a body that began in `z` and records into `x`: the registers and
the variables have the values that the instrumented body computes, `cf` is `k`, and
`c` and `s` say whether `cf` and the string are tainted. -/
structure During (x : ℕ) (z : World) (k c s : Bool) (w : World) (u : Instrumented.World) :
    Prop where
  valid : Valid w
  notes : Notes x z w
  var : ∀ n, (w.ints (.var n)).val = (u.var n).val
  state : erase w = { erase z with
    toVars := u.view
    cf := k
    cfTainted := c
    stringTainted := s
    out := u.out }
  untainted : Untainted z → Untainted w

/-- The same operand in both engines. -/
inductive Pair : Arg → IntRef → Prop
  | var (n : ℕ) : Pair (.var n) (.var n)
  | a422009172 : Pair (.field .a422009172) .a422009172
  | a2108127495 : Pair (.field .a2108127495) .a2108127495
  | a1522448132 : Pair (.field .a1522448132) .a1522448132

theorem Pair.operand {b : Arg} {b' : IntRef} (h : Pair b b') : Operand b := by
  cases h with
  | var n => exact .var n
  | a422009172 => exact .a422009172
  | a2108127495 => exact .a2108127495
  | a1522448132 => exact .a1522448132

section
variable {z : World} {k c s : Bool} {u' : Instrumented.World}

theorem During.view (h : During x z k c s w u') : w.view = u'.view :=
  congrArg Nested.State.toVars h.state

theorem During.pair (h : During x z k c s w u') {b : Arg} {b' : IntRef} (hb : Pair b b') :
    (w.int b).val = (u'.int b').val := by
  have hv := h.view
  cases hb with
  | var n => exact h.var n
  | a422009172 => exact congrArg Original.Vars.a422009172 hv
  | a2108127495 => exact congrArg Original.Vars.a2108127495 hv
  | a1522448132 => exact congrArg Original.Vars.a1522448132 hv

/-- The instrumented operation writes the same value, whatever it does to flags. -/
def Stores (q : Instrumented.Prog Unit) (op : Op) (a : ℕ) (b c : IntRef) : Prop :=
  ∀ u, ∃ r, exec q u = (.ok (), u.store op a b c r) ∧
    ∀ i j l, (r i j l).val = op.eval j.val l.val

theorem During.computed {a : ℕ} {i : Int32} {t : Bool} {op : Op} {b' c' : IntRef}
    {r : Instrumented.MyInt → Instrumented.MyInt → Instrumented.MyInt → Instrumented.MyInt}
    (h : During x z k c s w u') (hd : Computed x a i t w v) (ht : Untainted w → t = false)
    (hi : i = op.eval (u'.int b').val (u'.int c').val)
    (hr : ∀ i j l, (r i j l).val = op.eval j.val l.val) :
    During x z k c s v (u'.store op a b' c' r) where
  valid := hd.quiet.valid h.valid
  notes := h.notes.trans hd.quiet.notes
  var n := by
    by_cases hn : n = a
    · subst hn
      rw [hd.val, Instrumented.World.store_var_self, hr, hi]
    · rw [hd.ints n hn, Instrumented.World.store_var_ne hn, h.var n]
  state := by
    rw [erase_of h.valid hd.quiet.notes.objects hd.quiet.fields hd.quiet.out,
      hd.quiet.notes.decisions]
    simp only [hd.tainted]
    exact h.state
  untainted hz := by
    have hw := h.untainted hz
    have hfield (f : Field) : v.tainted (v.fields f) = w.tainted (w.fields f) := by
      rw [hd.quiet.fields]
      exact hd.quiet.notes.objects.tainted _ (h.valid.fields f)
    exact ⟨fun n => by rw [hd.taintedVar, hw.var, ht hw]; rfl, (hfield _).trans hw.a422009172,
      (hfield _).trans hw.a2108127495, (hfield _).trans hw.a1522448132⟩

theorem both_computes {p : Prog Unit} {q : Instrumented.Prog Unit} {a : ℕ} {f : World → Int32}
    {op : Op} {b' c' : IntRef} (hp : Computes x p a f) (hq : Stores q op a b' c')
    (hf : ∀ w u, During x z k c s w u → f w = op.eval (u.int b').val (u.int c').val) :
    Both (During x z k c s) p q (During x z k c s) := by
  intro w u h
  obtain ⟨v, t, hv, hd, ht⟩ := hp w h.valid
  obtain ⟨r, hu, hr⟩ := hq u
  exact ⟨v, _, hv, hu, h.computed hd ht (hf w u h) hr⟩

/-- `f = r`. -/
def assigned (f : Field) (r : Ref) (w : World) : World :=
  { w with fields := Function.update w.fields f r }

theorem exec_setField {e : Prog Ref} {f : Field} {r : Ref} (h : exec e w = (.ok r, v)) :
    exec (setField f e) w = (.ok (), assigned f r v) := exec_bind_ok h

theorem assigned_fields (f g : Field) (r : Ref) (w : World) :
    (assigned f r w).fields g = if g = f then r else w.fields g := Function.update_apply _ _ _ _

/-- What an object that was made for a field keeps. -/
theorem Made.erase {r : Ref} {t : Bool} (hw : Valid w) (h : Made x r t w v) :
    erase v = erase w := by
  rw [erase_of hw h.notes.objects h.fields h.out, h.notes.decisions]
  simp only [h.taintedBool]
  rfl

/-- The object goes into the field `f`; how the state looks then is left open. -/
theorem During.assigned {r : Ref} {t k' c' s' : Bool} {u'' : Instrumented.World}
    (h : During x z k c s w u') (hm : Made x r t w v) (f : Field) (hvar : u''.var = u'.var)
    (hstate : erase (assigned f r v) = { erase w with
      toVars := u''.view
      cf := k'
      cfTainted := c'
      stringTainted := s'
      out := u''.out })
    (hr : Untainted w → f = .cf ∨ f = .a1745113960 ∨ t = false) :
    During x z k' c' s' (Bodies.assigned f r v) u'' where
  valid := by
    refine ⟨fun g => ?_, hm.valid.taintSet, hm.valid.members⟩
    rw [assigned_fields]
    by_cases hg : g = f
    · rw [if_pos hg]
      exact hm.owned
    · rw [if_neg hg]
      exact hm.valid.fields g
  notes := by
    have hn := h.notes.trans hm.notes
    exact ⟨⟨hn.objects.next, hn.objects.ints, hn.objects.bools, hn.objects.strings,
      hn.objects.tainted, hn.objects.made, hn.objects.var⟩, hn.decisions, hn.latest, hn.nextSet,
      hn.others, hn.links, hn.branches, hn.instantiated, hn.moments⟩
  var n := by
    rw [hvar, ← h.var n, ← hm.ints n]
    rfl
  state := by rw [hstate, h.state]
  untainted hz := by
    have hw := h.untainted hz
    have hkeep (g : Field) (hg : w.tainted (w.fields g) = false)
        (hn : g ≠ .cf) (hn' : g ≠ .a1745113960) :
        (Bodies.assigned f r v).tainted ((Bodies.assigned f r v).fields g) = false := by
      rw [assigned_fields]
      by_cases hgf : g = f
      · rw [if_pos hgf]
        rcases hr hw with h' | h' | h'
        · exact absurd (hgf.trans h') hn
        · exact absurd (hgf.trans h') hn'
        · exact hm.tainted.trans h'
      · rw [if_neg hgf, hm.fields]
        exact (hm.notes.objects.tainted _ (h.valid.fields g)).trans hg
    exact ⟨fun n => (hm.taintedVar n).trans (hw.var n), hkeep _ hw.a422009172 nofun nofun,
      hkeep _ hw.a2108127495 nofun nofun, hkeep _ hw.a1522448132 nofun nofun⟩

theorem erase_assigned_cf (r : Ref) (w : World) : erase (assigned .cf r w) = { erase w with
    cf := (w.bools r).val
    cfTainted := w.tainted r } := rfl

theorem erase_assigned_string (r : Ref) (w : World) :
    erase (assigned .a1745113960 r w) = { erase w with
      a1745113960 := (w.strings r).val
      stringTainted := w.tainted r } := rfl

theorem erase_assigned_a422009172 (r : Ref) (w : World) :
    erase (assigned .a422009172 r w) = { erase w with a422009172 := (w.ints r).val } := rfl

theorem erase_assigned_a2108127495 (r : Ref) (w : World) :
    erase (assigned .a2108127495 r w) = { erase w with a2108127495 := (w.ints r).val } := rfl

theorem erase_assigned_a1522448132 (r : Ref) (w : World) :
    erase (assigned .a1522448132 r w) = { erase w with a1522448132 := (w.ints r).val } := rfl

theorem both_setCf {e : Prog Ref} {t : Bool} {b' : Instrumented.MyBool}
    (he : Yields x e t fun v r => (v.bools r).val = false) :
    Both (During x z k c s) (setField .cf e) (Instrumented.setCf b') (During x z false t s) := by
  intro w u h
  obtain ⟨r, v, hv, hm, hval⟩ := he w h.valid
  refine ⟨_, _, exec_setField hv, Instrumented.exec_setCf b' u,
    h.assigned hm .cf rfl ?_ fun _ => .inl rfl⟩
  rw [erase_assigned_cf, hval, hm.tainted, hm.erase h.valid, h.state]
  rfl

theorem both_setString {e : Prog Ref} {t : Bool} {b' : Instrumented.MyString} {val : String}
    (he : Yields x e t fun v r => (v.strings r).val = val) (hb : b'.val = val) :
    Both (During x z k c s) (setField .a1745113960 e) (Instrumented.setA1745113960 b')
      (During x z k c t) := by
  intro w u h
  obtain ⟨r, v, hv, hm, hval⟩ := he w h.valid
  refine ⟨_, _, exec_setField hv, Instrumented.exec_setA1745113960 b' u,
    h.assigned hm .a1745113960 rfl ?_ fun _ => .inr (.inl rfl)⟩
  rw [erase_assigned_string, hval, ← hb, hm.tainted, hm.erase h.valid, h.state]
  rfl

section
variable {n : ℕ} {name : String} {set : SetArg} {p : Prog Unit}
  {q : Instrumented.Prog Unit} {D : World → Instrumented.World → Prop}

theorem both_a2108127495 (hset : Into x set) (h : Both (During x z k c s) p q D) :
    Both (During x z k c s)
      (setField .a2108127495 (I.myAssignInt (.var n) name set) >>= fun _ => p)
      (Instrumented.I.myAssign (.var n) >>= fun i => Instrumented.setA2108127495 i >>= fun _ => q)
      D := by
  intro w u hw
  obtain ⟨r, v, hv, hm, hval⟩ := yields_assignInt hw.valid n name hset
  obtain ⟨w', u', hw', hu', hD⟩ := h _ { u with
      steps := u.steps ++ [.assign (u.var n) (Instrumented.I.copyInt (u.var n))]
      a2108127495 := Instrumented.I.copyInt (u.var n) } (hw.assigned hm .a2108127495 rfl (by
    rw [erase_assigned_a2108127495, hval, hm.erase hw.valid, hw.var n, hw.state]
    rfl) fun hu => .inr (.inr (hu.var n)))
  exact ⟨w', u', (exec_bind_ok (exec_setField hv)).trans hw', hu', hD⟩

theorem both_a422009172 (hset : Into x set) (h : Both (During x z k c s) p q D) :
    Both (During x z k c s)
      (setField .a422009172 (I.myAssignInt (.var n) name set) >>= fun _ => p)
      (Instrumented.I.myAssign (.var n) >>= fun i => Instrumented.setA422009172 i >>= fun _ => q)
      D := by
  intro w u hw
  obtain ⟨r, v, hv, hm, hval⟩ := yields_assignInt hw.valid n name hset
  obtain ⟨w', u', hw', hu', hD⟩ := h _ { u with
      steps := u.steps ++ [.assign (u.var n) (Instrumented.I.copyInt (u.var n))]
      a422009172 := Instrumented.I.copyInt (u.var n) } (hw.assigned hm .a422009172 rfl (by
    rw [erase_assigned_a422009172, hval, hm.erase hw.valid, hw.var n, hw.state]
    rfl) fun hu => .inr (.inr (hu.var n)))
  exact ⟨w', u', (exec_bind_ok (exec_setField hv)).trans hw', hu', hD⟩

theorem both_a1522448132 (hset : Into x set) (h : Both (During x z k c s) p q D) :
    Both (During x z k c s)
      (setField .a1522448132 (I.myAssignInt (.var n) name set) >>= fun _ => p)
      (Instrumented.I.myAssign (.var n) >>= fun i => Instrumented.setA1522448132 i >>= fun _ => q)
      D := by
  intro w u hw
  obtain ⟨r, v, hv, hm, hval⟩ := yields_assignInt hw.valid n name hset
  obtain ⟨w', u', hw', hu', hD⟩ := h _ { u with
      steps := u.steps ++ [.assign (u.var n) (Instrumented.I.copyInt (u.var n))]
      a1522448132 := Instrumented.I.copyInt (u.var n) } (hw.assigned hm .a1522448132 rfl (by
    rw [erase_assigned_a1522448132, hval, hm.erase hw.valid, hw.var n, hw.state]
    rfl) fun hu => .inr (.inr (hu.var n)))
  exact ⟨w', u', (exec_bind_ok (exec_setField hv)).trans hw', hu', hD⟩

end

theorem both_myPrint (word : String) : Both (During x z k c s) (I.myPrint word)
    (Instrumented.I.myPrint word) (During x z k c s) := by
  intro w u h
  let v := (w.grown .myString).setString (.made w.next) ⟨word, 0, ""⟩
  have hq : Quiet x w v := quiet_newString _
  have hn := h.notes.trans hq.notes
  have hword : (v.strings (.made w.next)).val = word := by simp [v, World.setString]
  have he : erase v = erase w :=
    (erase_of h.valid hq.notes.objects hq.fields hq.out).trans (by rw [hq.notes.decisions]; rfl)
  refine ⟨{ v with out := v.out ++ [(v.strings (.made w.next)).val] }, _, rfl,
    Instrumented.I.exec_myPrint word, ?_⟩
  rw [hword]
  have hv := hq.valid h.valid
  refine ⟨⟨hv.fields, hv.taintSet, hv.members⟩, ⟨⟨hn.objects.next, hn.objects.ints,
    hn.objects.bools, hn.objects.strings, hn.objects.tainted, hn.objects.made, hn.objects.var⟩,
    hn.decisions, hn.latest, hn.nextSet, hn.others, hn.links, hn.branches, hn.instantiated,
    hn.moments⟩, h.var, ?_, fun hz => ?_⟩
  · have hout : v.out = u.out := congrArg Nested.State.out (he.trans h.state)
    change { erase v with out := v.out ++ [word] } = _
    rw [he, h.state, hout]
    rfl
  · have hu := h.untainted hz
    exact ⟨hu.var, hu.a422009172, hu.a2108127495, hu.a1522448132⟩

section
variable {a : ℕ} {b d : Arg} {b' d' : IntRef} {i : Int32} {set : SetArg} {l : Bool}
  {q : Instrumented.Prog Unit}

theorem both_literal {op : Op} {p : Prog Unit} (hb : Pair b b')
    (hp : Computes x p a fun w => op.eval (w.int b).val i) (hq : Stores q op a b' (.int i)) :
    Both (During x z k c s) p q (During x z k c s) :=
  both_computes hp hq fun w u h => by rw [h.pair hb]; rfl

theorem both_myMul (hb : Pair b b') (hd : Pair d d') (hset : Into x set) :
    Both (During x z k c s) (I.myMul (.var a) b d set) (Instrumented.I.myMul a b' d')
      (During x z k c s) :=
  both_computes (computes_myMul hb.operand hd.operand hset)
    (fun _ => ⟨_, Instrumented.I.exec_myMul, fun _ _ _ => rfl⟩)
    fun w u h => by rw [h.pair hb, h.pair hd]

theorem both_myMul_flagged (hb : Pair b b') (hd : Pair d d') (hset : Into x set) :
    Both (During x z k c s) (I.myMul (.var a) b d set) (Instrumented.I.myMul a b' d' l)
      (During x z k c s) :=
  both_computes (computes_myMul hb.operand hd.operand hset)
    (fun _ => ⟨_, Instrumented.I.exec_myMul_flagged l, fun _ _ _ => rfl⟩)
    fun w u h => by rw [h.pair hb, h.pair hd]

theorem both_myMulInt (hb : Pair b b') (hset : Into x set) :
    Both (During x z k c s) (I.myMulInt (.var a) b i set) (Instrumented.I.myMul a b' (.int i))
      (During x z k c s) :=
  both_literal hb (computes_myMulInt hb.operand hset)
    fun _ => ⟨_, Instrumented.I.exec_myMul, fun _ _ _ => rfl⟩

theorem both_myAddInt (hb : Pair b b') (hset : Into x set) :
    Both (During x z k c s) (I.myAddInt (.var a) b i set) (Instrumented.I.myAdd a b' (.int i))
      (During x z k c s) :=
  both_literal hb (computes_myAddInt hb.operand hset)
    fun _ => ⟨_, Instrumented.I.exec_myAdd, fun _ _ _ => rfl⟩

theorem both_myAddInt_flagged (hb : Pair b b') (hset : Into x set) :
    Both (During x z k c s) (I.myAddInt (.var a) b i set) (Instrumented.I.myAdd a b' (.int i) l)
      (During x z k c s) :=
  both_literal hb (computes_myAddInt hb.operand hset)
    fun _ => ⟨_, Instrumented.I.exec_myAdd_flagged l, fun _ _ _ => rfl⟩

theorem both_myDelInt (hb : Pair b b') (hset : Into x set) :
    Both (During x z k c s) (I.myDelInt (.var a) b i set) (Instrumented.I.myDel a b' (.int i))
      (During x z k c s) :=
  both_literal hb (computes_myDelInt hb.operand hset)
    fun _ => ⟨_, Instrumented.I.exec_myDel, fun _ _ _ => rfl⟩

theorem both_myDelInt_flagged (hb : Pair b b') (hset : Into x set) :
    Both (During x z k c s) (I.myDelInt (.var a) b i set) (Instrumented.I.myDel a b' (.int i) l)
      (During x z k c s) :=
  both_literal hb (computes_myDelInt hb.operand hset)
    fun _ => ⟨_, Instrumented.I.exec_myDel_int l i, fun _ _ _ => rfl⟩

theorem both_myDivInt (hb : Pair b b') (hi : i ≠ 0) :
    Both (During x z k c s) (I.myDivInt (.var a) b i set) (Instrumented.I.myDiv a b' (.int i))
      (During x z k c s) :=
  both_literal hb (computes_myDivInt hb.operand hi)
    fun _ => ⟨_, Instrumented.I.exec_myDiv_int hi, fun _ _ _ => rfl⟩

theorem both_myModInt (hb : Pair b b') (hi : i ≠ 0) :
    Both (During x z k c s) (I.myModInt (.var a) b i set) (Instrumented.I.myMod a b' (.int i))
      (During x z k c s) :=
  both_literal hb (computes_myModInt hb.operand hi)
    fun _ => ⟨_, Instrumented.I.exec_myMod_int hi, fun _ _ _ => rfl⟩

end

end

/-- The set that the records of a body go into, given the set that was decided and
its left child. -/
def target (y l : ℕ) : Transition → ℕ
  | .m2Ne1 | .m8VoidReply => y
  | _ => l

section
variable {z : World} {k c s : Bool} {y l : ℕ}

theorem both_getLeftSet (hl : (z.sets y).leftSet = some l) {p : SetVar → Prog Unit}
    {q : Instrumented.Prog Unit} {D : World → Instrumented.World → Prop}
    (h : Both (During x z k c s) (p (some l)) q D) :
    Both (During x z k c s) (BranchSet.getLeftSet (some y) >>= p) q D := by
  intro w u hw
  obtain ⟨w', u', hw', hu', hD⟩ := h w u hw
  have hleft : exec (BranchSet.getLeftSet (some y)) w = (.ok (some l), w) := by
    rw [← hl, ← (hw.notes.links y).1]
    rfl
  exact ⟨w', u', (exec_bind_ok hleft).trans hw', hu', hD⟩

theorem block_both (hl : (z.sets y).leftSet = some l) (t : Transition) :
    Both (During (target y l t) z k c s) (DirectFinal.block (some y) t) (Blocks.block .copied t)
      (During (target y l t) z false (Nested.taintsCf t) ((Nested.taintsString t).getD s)) := by
  -- up to the names of the operations, so that none is unfolded
  cases t <;> simp only [DirectFinal.block, Blocks.block, target, Nested.taintsCf,
      Nested.taintsString, Option.getD] <;>
    repeat' first
    | rfl
    | with_reducible first
      | apply both_getLeftSet hl
      | apply both_a422009172
      | apply both_a2108127495
      | apply both_a1522448132
      | apply Both.seq
      | apply both_setCf
      | apply both_setString
      | apply yields_assignBool
      | apply yields_assignString
      | exact yields_newBool2 _ _
      | exact yields_newBool3 _ _ _
      | exact yields_newString _
      | exact yields_newString2 _ _
      | apply both_myMul
      | apply both_myMul_flagged
      | apply both_myMulInt
      | apply both_myAddInt
      | apply both_myAddInt_flagged
      | apply both_myDelInt
      | apply both_myDelInt_flagged
      | refine both_myDivInt ?_ (by decide)
      | refine both_myModInt ?_ (by decide)
      | exact both_myPrint _
      | exact into_absent
      | exact into_given
      | constructor

/-- An instrumented world with the same registers and variables. -/
def image (w : World) : Instrumented.World where
  var n := .new (w.ints (.var n)).val
  bool _ := .new false
  a422009172 := .new w.view.a422009172
  a2108127495 := .new w.view.a2108127495
  a1522448132 := .new w.view.a1522448132
  a1745113960 := .new w.view.a1745113960
  cf := .new false
  made := []
  branches := []
  out := w.out
  decisions := []
  steps := []

theorem during_image (hz : Valid z) : During x z (erase z).cf (erase z).cfTainted
    (erase z).stringTainted z (image z) :=
  ⟨hz, .refl x z, fun _ => rfl, rfl, id⟩

/-- The transition was taken, and its records went into `x`. -/
structure Acted (x : ℕ) (t : Transition) (u v : World) : Prop where
  valid : Valid v
  notes : Notes x u v
  state : erase v = (erase u).act t
  untainted : Untainted u → Untainted v

theorem block_acts (hz : Valid z) (hl : (z.sets y).leftSet = some l) (t : Transition) :
    ∃ w, exec (DirectFinal.block (some y) t) z = (.ok (), w) ∧ Acted (target y l t) t z w := by
  obtain ⟨w, u, hw, hu, hd⟩ := block_both hl t z (image z) (during_image hz)
  have hview := Blocks.block_view t (image z)
  have hout := Blocks.block_out t (image z)
  rw [hu] at hview hout
  refine ⟨w, hw, hd.valid, hd.notes, ?_, hd.untainted⟩
  rw [hd.state, hview, hout]
  rfl

end

end EcaEngines.Bodies
