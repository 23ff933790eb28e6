import EcaEngines.Trees

/-!
# The recording engine follows the engine without records

A program of the recording engine follows a program on states if both end alike,
in a world and the state it stands for. Nothing it does with branch sets matters
for that, as long as no set variable is null where it is used. Along the way it
says which branch sets get branches, and whether they are placed.
-/
namespace EcaEngines.Simulation
open Imperative Recording Effects Operations Conditions Bodies Trees Transitions
open BranchSet (getLeftSet getRightSet)
open Original (Throwable Vars)

variable {u v w : World} {x y z l r : ℕ} {d : Bool}

def Follows (p : Prog Unit) (q : Nested.Prog Unit) (w : World)
    (Q : Except Throwable Unit → World → Prop) : Prop :=
  ∃ r v, exec p w = (r, v) ∧ exec q (erase w) = (r, erase v) ∧ Q r v

/-- The program returns, with `E`. -/
def Returns (E : World → Prop) (r : Except Throwable Unit) (v : World) : Prop := r = .ok () ∧ E v

section
variable {p k : Prog Unit} {q k' : Nested.Prog Unit} {Q R : Except Throwable Unit → World → Prop}
  {E : World → Prop}

theorem Follows.seq (hp : Follows p q w (Returns E))
    (hk : ∀ v, E v → exec q (erase w) = (.ok (), erase v) → Follows k k' v Q) :
    Follows (p >>= fun _ => k) (q >>= fun _ => k') w Q := by
  obtain ⟨r, v, hv, hq, rfl, he⟩ := hp
  obtain ⟨r', v', hv', hq', hQ⟩ := hk v he hq
  exact ⟨r', v', (exec_bind_ok hv).trans hv', (exec_bind_ok hq).trans hq', hQ⟩

theorem Follows.mono (h : Follows p q w Q) (hQ : ∀ r v, Q r v → R r v) : Follows p q w R := by
  obtain ⟨r, v, hv, hq, h'⟩ := h
  exact ⟨r, v, hv, hq, hQ r v h'⟩

theorem Follows.left {f : SetVar → Prog Unit} (hl : (w.sets x).leftSet = some l)
    (h : Follows (f (some l)) q w Q) : Follows (getLeftSet (some x) >>= f) q w Q := by
  obtain ⟨r, v, hv, hq, hQ⟩ := h
  have hg : exec (getLeftSet (some x)) w = (.ok (some l), w) := hl ▸ rfl
  exact ⟨r, v, (exec_bind_ok hg).trans hv, hq, hQ⟩

theorem Follows.right {f : SetVar → Prog Unit} (hr : (w.sets x).rightSet = some r)
    (h : Follows (f (some r)) q w Q) : Follows (getRightSet (some x) >>= f) q w Q := by
  obtain ⟨r', v, hv, hq, hQ⟩ := h
  have hg : exec (getRightSet (some x)) w = (.ok (some r), w) := hr ▸ rfl
  exact ⟨r', v, (exec_bind_ok hg).trans hv, hq, hQ⟩

/-- Either way the `if` goes, `Q` holds after it. -/
theorem Follows.ifM {c : Prog Bool} {c' : Nested.Prog Bool} (hc : Tests c c' x d w)
    (ht : d = true → ∀ v l r, Tested x d l r w v → Added x w v →
      exec c w = (.ok d, v) → Follows p q v Q)
    (hf : d = false → ∀ v l r, Tested x d l r w v → Added x w v →
      exec c w = (.ok d, v) → Q (.ok ()) v) :
    Follows (ifM c p) (ifM c' q) w Q := by
  obtain ⟨l, r, v, hv, hq, htested, hadded⟩ := hc
  cases d with
  | true =>
    obtain ⟨r', v', hv', hq', hQ⟩ := ht rfl v l r htested hadded hv
    exact ⟨r', v', (exec_ifM_of_true hv).trans hv', (exec_ifM_of_true hq).trans hq', hQ⟩
  | false =>
    exact ⟨_, v, exec_ifM_of_false hv, exec_ifM_of_false hq, hf rfl v l r htested hadded hv⟩

end

/-- The argument is an object that holds the letter. -/
def Input (letter : String) (a : Arg) (w : World) : Prop :=
  ∃ r, a = .ref r ∧ Owned w r ∧ (w.strings r).val = letter

variable {letter : String} {input : Arg}

theorem Input.mono (h : Input letter input u) (k : Extends u v) : Input letter input v := by
  obtain ⟨r, rfl, hr, hval⟩ := h
  exact ⟨r, rfl, hr.mono k.next, (k.strings r hr).trans hval⟩

theorem Input.owned (h : Input letter input w) : Owned w (w.eval input) := by
  obtain ⟨r, rfl, hr, -⟩ := h
  exact hr

theorem Input.val (h : Input letter input w) : (w.string input).val = letter := by
  obtain ⟨r, rfl, -, hval⟩ := h
  exact hval

/-- An `if` on `x` is over. If it was taken, its body kept to placed sets exactly if
`C` holds. -/
structure Branched (x : ℕ) (d : Bool) (C : Prop) (l r : ℕ) (u v : World) : Prop extends
    Passed x d l r u v where
  clean : Clean u v ↔ (tree u).Placed x ∧ (d = true → C)
  idle : d = false → v.view = u.view ∧ (erase v).cf = (erase u).cf

variable {C : Prop}

/-- A condition that fails. -/
theorem tested_branched (hw : Sound w) (hx : x < w.nextSet) (h : Tested x d l r w v)
    (ha : Added x w v) (hd : d = false) : Branched x d C l r w v where
  toPassed := tested_passed hw hx h
  clean := by
    rw [clean_iff h ha]
    exact ⟨fun hp => ⟨hp, fun ht => by rw [hd] at ht; cases ht⟩, And.left⟩
  idle _ := by
    have he := h.erase hw.valid
    exact ⟨congrArg Nested.State.toVars he, by rw [he]⟩

/-- The body works on the left child. -/
theorem passed_branched (hx : x < w.nextSet) (hd : d = true) (h : Tested x d l r w u)
    (ha : Added x w u) (hp : Passed x d l r w u) (k : Within l u v)
    (hclean : (tree u).Placed l → (Clean u v ↔ C)) : Branched x d C l r w v where
  toPassed := hp.body hx k hp.newLeft
  clean := by
    rw [clean_append hp.moments k.moments, clean_iff h ha]
    have hl := hp.placed
    rw [if_pos hd] at hl
    exact ⟨fun ⟨h₁, h₂⟩ => ⟨h₁, fun _ => (hclean (hl h₁)).mp h₂⟩,
      fun ⟨h₁, h₂⟩ => ⟨h₁, (hclean (hl h₁)).mpr (h₂ hd)⟩⟩
  idle hf := by
    rw [hd] at hf
    cases hf

theorem plain_of_new (h : w.sets x = .new) : Plain w x := by
  intro k hk
  rw [members, h] at hk
  exact absurd hk List.not_mem_nil

/-- What else is known after such an `if`, for the sets and the branches. -/
structure Guarded (x : ℕ) (d : Bool) (C : Prop) (l r : ℕ) (u v : World) : Prop extends
    Branched x d C l r u v where
  plain : Plain u x → Plain v x
  plainRight : Plain v r
  sole : Sole x u v

/-- The `if`s of the engine: the body may start from the left child of the set that
was decided, and works on no other set that exists. `E` is about that child. -/
theorem guard_follows {c : Prog Bool} {c' : Nested.Prog Bool} {p : Prog Unit}
    {q : Nested.Prog Unit} {E : ℕ → World → Prop} (hw : Sound w) (hx : x < w.nextSet)
    (hin : Input letter input w) (hc : Tests c c' x d w)
    (hnew : ∀ v l, v.sets l = .new → E l v)
    (hp : d = true → ∀ v l, Within x w v → (v.sets x).leftSet = some l → w.nextSet ≤ l →
      l < v.nextSet → E l v → Input letter input v → v.view = w.view → (erase v).cf = (erase w).cf →
      Follows p q v (Returns fun v' =>
        Within l v v' ∧ ((tree v).Placed l → (Clean v v' ↔ C)) ∧ E l v')) :
    Follows (ifM c p) (ifM c' q) w (Returns fun v =>
      ∃ l r, Guarded x d C l r w v ∧ E l v) := by
  refine Follows.ifM hc (fun hd v l r ht ha _ => ?_) fun hd v l r ht ha _ => ?_
  all_goals
    have hl := ht.left
    have hlr := ht.order
    have hr := ht.right
    have hnewLeft := ht.fresh l (by omega) (by omega)
    have hnewRight := ht.fresh r (by omega) (by omega)
  · have hpassed := tested_passed hw hx ht
    have he := ht.erase hw.valid
    refine (hp hd v l hpassed.toWithin ht.leftSet hl (by omega) (hnew v l hnewLeft)
      (hin.mono ht.objects) (congrArg Nested.State.toVars he) (by rw [he])).mono ?_
    intro res v' ⟨hres, hwithin, hclean, hE⟩
    exact ⟨hres, l, r, ⟨passed_branched hx hd ht ha hpassed hwithin hclean,
      fun h => hwithin.plain (hx.trans_le hpassed.nextSet) (by omega) (ht.plain h),
      hwithin.plain hr (by omega) (plain_of_new hnewRight),
      (sole_of_added hw ht ha).within hpassed.moments hwithin⟩, hE⟩
  · exact ⟨rfl, l, r, ⟨tested_branched hw hx ht ha hd, ht.plain, plain_of_new hnewRight,
      sole_of_added hw ht ha⟩, hnew v l hnewLeft⟩

theorem clean_of_notes (h : Notes x u v) (hp : (tree u).Placed x) : Clean u v := by
  obtain ⟨ms, hms, hat⟩ := h.moments
  exact clean_of_at hms hat hp

/-- The body of a transition goes to the left child, or to the set itself. -/
theorem passed_noted (hx : x < u.nextSet) (h : Passed x d l r u v) (hn : Notes z v w)
    (hz : z = x ∨ z = l) (hv : Valid w) (ht : Untainted v → Untainted w) :
    Passed x d l r u w := by
  have hwithin := within_of_notes h.sound hn hv ht
  rcases hz with rfl | rfl
  · have htree := tree_of_notes hn
    refine ⟨h.toWithin.trans hwithin (.inl rfl), ?_, ?_, ?_, h.newLeft, h.order,
      h.newRight.trans_le hwithin.nextSet, fun hp => htree ▸ h.placed hp⟩
    · rw [(hn.links z).1, h.left]
    · rw [(hn.links z).2, h.right]
    · rw [hn.latest, h.latest]
  · exact h.body hx hwithin h.newLeft

theorem target_eq (t : Transition) : target x l t = x ∨ target x l t = l := by
  cases t <;> first | exact .inl rfl | exact .inr rfl

theorem target_of_ne {t : Transition} (h₂ : t ≠ .m2Ne1) (h₈ : t ≠ .m8VoidReply) :
    target x l t = l := by
  cases t <;> first | rfl | exact absurd rfl h₂ | exact absurd rfl h₈

theorem word_follows (hw : Sound w) (hx : x < w.nextSet) (hin : Input letter input w)
    (t : Transition) (cfFirst : Bool) :
    Follows (ifM (DirectFinal.equal input t.letter cfFirst input (some x))
        (DirectFinal.block (some x) t)) (Nested.word letter t) w (Returns fun v =>
      ∃ l r, Branched x (letter == t.letter && (erase w).cf) True l r w v ∧
        (t ≠ .m2Ne1 → t ≠ .m8VoidReply → Plain w x → Plain v x)) := by
  have hc : Tests (DirectFinal.equal input t.letter cfFirst input (some x))
      (Nested.equal (fun _ => letter) t.letter) x (letter == t.letter && (erase w).cf) w :=
    equal_tests hw.valid hx hin.owned hin.val.symm
  refine Follows.ifM hc (fun hd v l r ht ha _ => ?_) fun hd v l r ht ha _ =>
    ⟨rfl, l, r, tested_branched hw hx ht ha hd, fun _ _ => ht.plain⟩
  have hp := tested_passed hw hx ht
  obtain ⟨v', hv', hact⟩ := block_acts ht.valid ht.leftSet t
  have hb := passed_noted hx hp hact.notes (target_eq t) hact.valid hact.untainted
  have hprefix : v.moments <+: v'.moments := by
    obtain ⟨ms, hms, -⟩ := hact.notes.moments
    exact ⟨ms, hms.symm⟩
  refine ⟨_, v', hv', by rw [hact.state]; rfl, rfl, l, r, ⟨hb, ?_, fun hf => ?_⟩,
    fun h₂ h₈ hplain => ?_⟩
  · rw [clean_append hp.moments hprefix, clean_iff ht ha]
    refine ⟨fun h => ⟨h.1, fun _ => trivial⟩, fun h => ⟨h.1, ?_⟩⟩
    have hl := hp.placed h.1
    rw [if_pos hd] at hl
    rcases target_eq (x := x) (l := l) t with heq | heq <;> rw [heq] at hact
    · exact clean_of_notes hact.notes (h.1.kept hp.kept hx)
    · exact clean_of_notes hact.notes hl
  · rw [hd] at hf
    cases hf
  · have hl := ht.left
    have hne : x ≠ l := by omega
    have hothers := hact.notes.others x (by rwa [target_of_ne h₂ h₈])
    exact (ht.plain hplain).congr hothers hact.notes.objects.made

/-- The words of a method, each on the right child of the one before. -/
def words (input : Arg) : List (Transition × Bool) → SetVar → Prog Unit
  | [], _ => pure ()
  | [(t, cfFirst)], set =>
    ifM (DirectFinal.equal input t.letter cfFirst input set) (DirectFinal.block set t)
  | (t, cfFirst) :: t' :: ts, set => do
    ifM (DirectFinal.equal input t.letter cfFirst input set) (DirectFinal.block set t)
    words input (t' :: ts) (← getRightSet set)

/-- The same words on states. -/
def wordsOf (letter : String) : List (Transition × Bool) → Nested.Prog Unit
  | [] => pure ()
  | [(t, _)] => Nested.word letter t
  | (t, _) :: t' :: ts => do
    Nested.word letter t
    wordsOf letter (t' :: ts)

/-- The letter is that of a word which is not the last. -/
def Overrun (letter : String) (ts : List (Transition × Bool)) : Prop :=
  ∃ t ∈ ts.dropLast, letter = t.1.letter

theorem words_follow (ts : List (Transition × Bool)) (hw : Sound w) (hx : x < w.nextSet)
    (hin : Input letter input w) :
    Follows (words input ts (some x)) (wordsOf letter ts) w (Returns fun v => Within x w v ∧
      (ts ≠ [] → (Clean w v ↔
        (tree w).Placed x ∧ ¬ ((erase w).cf = true ∧ Overrun letter ts)))) := by
  induction ts generalizing w x with
  | nil => exact ⟨_, w, rfl, rfl, rfl, .refl hw x, fun h => absurd rfl h⟩
  | cons t ts ih =>
    obtain ⟨t, cfFirst⟩ := t
    cases ts with
    | nil =>
      refine (word_follows hw hx hin t cfFirst).mono fun res v ⟨hres, l, r, hb, _⟩ =>
        ⟨hres, hb.toWithin, fun _ => ?_⟩
      rw [hb.clean]
      simp [Overrun]
    | cons t' ts =>
      refine (word_follows hw hx hin t cfFirst).seq fun v ⟨l, r, hb, _⟩ _ => ?_
      refine .right hb.right ((ih hb.sound hb.newRight (hin.mono hb.objects)).mono ?_)
      intro res v' ⟨hres, hwithin, hclean⟩
      have hl := hb.newLeft
      have hlr := hb.order
      refine ⟨hres, hb.toWithin.trans hwithin (.inr (by omega)), fun _ => ?_⟩
      rw [clean_append hb.moments hwithin.moments, hb.clean, hclean (List.cons_ne_nil _ _)]
      have hside : (tree w).Placed x →
          ((tree v).Placed r ↔ (letter == t.letter && (erase w).cf) = false) := by
        intro hp
        refine ⟨fun h => h.side (tree_right hb.right) hb.latest, fun h => ?_⟩
        have hplaced := hb.placed hp
        rwa [h, if_neg Bool.false_ne_true] at hplaced
      have hover : Overrun letter ((t, cfFirst) :: t' :: ts) ↔
          letter = t.letter ∨ Overrun letter (t' :: ts) := by
        simp only [Overrun, List.dropLast_cons_cons, List.mem_cons, exists_eq_or_imp]
      constructor
      · intro ⟨⟨hp, _⟩, hr, hrest⟩
        have hd := (hside hp).mp hr
        have hcf := (hb.idle hd).2
        refine ⟨hp, fun ⟨hcf', ho⟩ => ?_⟩
        rcases hover.mp ho with heq | ho
        · simp [heq, hcf'] at hd
        · exact hrest ⟨hcf.trans hcf', ho⟩
      · intro ⟨hp, hno⟩
        have hd : (letter == t.letter && (erase w).cf) = false := by
          cases hcf : (erase w).cf with
          | false => exact Bool.and_false _
          | true =>
            rw [Bool.and_true, beq_eq_false_iff_ne]
            exact fun heq => hno ⟨hcf, hover.mpr (.inl heq)⟩
        refine ⟨⟨hp, fun _ => trivial⟩, (hside hp).mpr hd, fun ⟨hcf, ho⟩ => ?_⟩
        exact hno ⟨(hb.idle hd).2.symm.trans hcf, hover.mpr (.inr ho)⟩

example : DirectFinal.calculateOutputm4 =
    (words · [(.m4Ce2, true), (.m4Ce1, true), (.m4Ne1, false)]) := rfl

theorem not_overrun_singleton (t : Transition × Bool) : ¬ Overrun letter [t] := by
  simp [Overrun]

/-- A method that is called if the string is `word`. -/
theorem mode_follows (hw : Sound w) (hx : x < w.nextSet) (hin : Input letter input w)
    (word : String) (cfFirst : Bool) (ts : List (Transition × Bool)) (hts : ts ≠ []) :
    Follows (ifM (DirectFinal.equal (.field .a1745113960) word cfFirst input (some x)) (do
        words input ts (← getLeftSet (some x))))
      (ifM (Nested.equal Vars.a1745113960 word) (wordsOf letter ts)) w (Returns fun v =>
        ∃ l r, Guarded x (w.view.a1745113960 == word && (erase w).cf) (¬ Overrun letter ts)
          l r w v) := by
  have hc : Tests (DirectFinal.equal (.field .a1745113960) word cfFirst input (some x))
      (Nested.equal Vars.a1745113960 word) x (w.view.a1745113960 == word && (erase w).cf) w :=
    equal_tests hw.valid hx (hw.valid.fields _) rfl
  refine (guard_follows (E := fun _ _ => True) (C := ¬ Overrun letter ts) hw hx hin hc
    (fun _ _ _ => trivial) fun hd v l hwithin hl _ hlt _ hin' _ hcf => .left hl
      ((words_follow ts hwithin.sound hlt hin').mono ?_)).mono
    fun res v ⟨hres, l, r, hg, _⟩ => ⟨hres, l, r, hg⟩
  intro res v' ⟨hres, hwithin', hclean⟩
  refine ⟨hres, hwithin', fun hp => ?_, trivial⟩
  have hcf' : (erase v).cf = true := hcf.trans (Bool.and_eq_true_iff.mp hd).2
  rw [hclean hts]
  simp [hp, hcf']

/-- The first `if` of `low` asks about the left child, and so does the method. -/
theorem low_body_follows (hw : Sound w) (hl : (w.sets y).leftSet = some l) (hlt : l < w.nextSet)
    (hy : y < w.nextSet) (hne : y ≠ l) (hin : Input letter input w) :
    Follows (ifM (DirectFinal.between (-83) 18 (.field .a1522448132) true input (some l)) do
        let s2 ← getLeftSet (some y)
        DirectFinal.calculateOutputm1 input s2)
      (ifM (Nested.between (-83) 18 Vars.a1522448132) (Nested.calculateOutputm1 letter)) w
      (Returns fun v => Within l w v ∧ ((tree w).Placed l → (Clean w v ↔ True)) ∧
        (Plain w l → Plain v l)) := by
  have hc : Tests (DirectFinal.between (-83) 18 (.field .a1522448132) true input (some l))
      (Nested.between (-83) 18 Vars.a1522448132) l
      ((-83 < w.view.a1522448132 && 18 ≥ w.view.a1522448132) && (erase w).cf) w :=
    between_tests hw.valid hlt (hw.valid.fields .a1522448132) rfl
  refine Follows.ifM hc (fun _ v l' r ht ha _ => ?_) fun _ v l' r ht ha _ => ?_
  · have hwithin := tested_within hw hlt ht
    have hl' : (v.sets y).leftSet = some l := by rw [(hwithin.others y hy hne).1, hl]
    refine .left hl' ((word_follows hwithin.sound (hlt.trans_le hwithin.nextSet)
      (hin.mono hwithin.objects) .m1VoidReply false).mono ?_)
    intro res v' ⟨hres, l₂, r₂, hb, hplain⟩
    refine ⟨hres, hwithin.trans hb.toWithin (.inl rfl), fun hp => iff_of_true ?_ trivial,
      fun h => hplain nofun nofun (ht.plain h)⟩
    rw [clean_append hwithin.moments hb.moments, clean_iff ht ha, hb.clean]
    exact ⟨hp, hp.kept hwithin.kept hlt, fun _ => trivial⟩
  · exact ⟨rfl, tested_within hw hlt ht, fun hp => iff_of_true ((clean_iff ht ha).mpr hp) trivial,
      ht.plain⟩

theorem low_follows (hw : Sound w) (hy : y < w.nextSet) (hin : Input letter input w) :
    Follows (DirectFinal.low input (some y)) (Nested.low letter) w (Returns fun v =>
      ∃ l r, Guarded y (w.view.a2108127495 ≤ -164 && (erase w).cf) True l r w v ∧ Plain v l) := by
  have hc : Tests (DirectFinal.atMost (.field .a2108127495) (-164) input (some y))
      (Nested.atMost Vars.a2108127495 (-164)) y
      (w.view.a2108127495 ≤ -164 && (erase w).cf) w :=
    atMost_tests hw.valid hy (hw.valid.fields .a2108127495) rfl
  refine guard_follows (E := fun l v => Plain v l) hw hy hin hc (fun _ _ => plain_of_new)
    fun _ v l hwithin hl hnew hlt hplain hin' _ _ => .left hl ?_
  refine (low_body_follows hwithin.sound hl hlt (hy.trans_le hwithin.nextSet) (by omega)
    hin').mono ?_
  intro res v' ⟨hres, hwithin', hclean, hkeep⟩
  exact ⟨hres, hwithin', hclean, hkeep hplain⟩

end EcaEngines.Simulation
