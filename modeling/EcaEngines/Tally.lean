import EcaEngines.Regions

/-!
# The decisions of one call that are true

Of the decisions of one call at most three are true, and exactly three if it prints a
word: the region, the condition on the other variable, and the input.
-/
namespace EcaEngines.Tally
open Imperative Regions
open Original (Throwable Vars noTransition)
open Transitions (Transition)

section
variable {v : Vars} {k : ℕ} {o : List String} {m n : ℕ}

/-- No transition was taken yet, and `n` decisions were true. -/
structure Idle (v : Vars) (k : ℕ) (o : List String) (n : ℕ) (s : Nested.State) : Prop where
  vars : s.toVars = v
  cf : s.cf = true
  count : s.decisions.count true = k + n
  out : s.out = o

/-- A transition was taken, with the third decision that was true. -/
structure Acted (k : ℕ) (s : Nested.State) : Prop where
  cf : s.cf = false
  count : s.decisions.count true = k + 3

/-- The condition is `b` as long as no transition was taken. -/
structure Guards (v : Vars) (k : ℕ) (o : List String) (c : Nested.Prog Bool) (b : Bool) : Prop where
  idle : ∀ n s, Idle v k o n s → ∃ t, exec c s = (.ok b, t) ∧ Idle v k o (n + b.toNat) t
  acted : ∀ s, Acted k s → ∃ t, exec c s = (.ok false, t) ∧ Acted k t

/-- Begun after `m` true decisions the program ends after `n`, or takes a transition. -/
structure Counts (v : Vars) (k : ℕ) (o : List String) (p : Nested.Prog Unit) (m n : ℕ) : Prop where
  idle : ∀ s, Idle v k o m s → Leads p s fun t => Idle v k o n t ∨ Acted k t
  acted : ∀ s, Acted k s → Leads p s (Acted k)

theorem Counts.seq {p q : Nested.Prog Unit} {l : ℕ} (hp : Counts v k o p m n)
    (hq : Counts v k o q n l) : Counts v k o (p >>= fun _ => q) m l where
  idle s hs := by
    obtain ⟨t, ht, hidle | hacted⟩ := hp.idle s hs
    · exact .seq ht (hq.idle t hidle)
    · obtain ⟨u, hu, h⟩ := hq.acted t hacted
      exact .seq ht ⟨u, hu, .inr h⟩
  acted s hs := by
    obtain ⟨t, ht, hacted⟩ := hp.acted s hs
    exact .seq ht (hq.acted t hacted)

theorem Guards.counts {c : Nested.Prog Bool} {p : Nested.Prog Unit} {b : Bool}
    (hc : Guards v k o c b) (ht : b = true → Counts v k o p (m + 1) n) (hf : b = false → n = m) :
    Counts v k o (ifM c p) m n where
  idle s hs := by
    obtain ⟨t, h, hidle⟩ := hc.idle m s hs
    cases b with
    | true =>
      obtain ⟨u, hu, hend⟩ := (ht rfl).idle t hidle
      exact ⟨u, (exec_ifM_of_true h).trans hu, hend⟩
    | false =>
      obtain rfl := hf rfl
      exact ⟨t, exec_ifM_of_false h, .inl hidle⟩
  acted s hs := by
    obtain ⟨t, h, hacted⟩ := hc.acted s hs
    exact ⟨t, exec_ifM_of_false h, hacted⟩

theorem guards_decision {f : Vars → Bool → Bool} (hf : ∀ v, f v false = false) :
    Guards v k o (Nested.decision f) (f v true) where
  idle n s hs := by
    have hd : f s.toVars s.cf = f v true := by rw [hs.vars, hs.cf]
    refine ⟨s.decided (f v true), by rw [← hd]; rfl, hs.vars, hs.cf, ?_, hs.out⟩
    change (s.decisions ++ [f v true]).count true = _
    rw [List.count_append, hs.count]
    cases f v true <;> rfl
  acted s hs := by
    have hd : f s.toVars s.cf = false := by rw [hs.cf, hf]
    refine ⟨s.decided false, by rw [← hd]; rfl, hs.cf, ?_⟩
    change (s.decisions ++ [false]).count true = _
    rw [List.count_append, hs.count]
    rfl

/-- Taint does not count. -/
theorem guards_after {c : Nested.Prog Bool} {b : Bool} {f : Nested.State → Nested.State}
    (hc : Guards v k o c b) (hv : ∀ s, (f s).toVars = s.toVars) (hcf : ∀ s, (f s).cf = s.cf)
    (hd : ∀ s, (f s).decisions = s.decisions) (ho : ∀ s, (f s).out = s.out) :
    Guards v k o (modify f >>= fun _ => c) b where
  idle n s hs := by
    obtain ⟨t, ht, h⟩ := hc.idle n (f s)
      ⟨(hv s).trans hs.vars, (hcf s).trans hs.cf, by rw [hd, hs.count], (ho s).trans hs.out⟩
    exact ⟨t, (exec_bind_ok (exec_modify f s)).trans ht, h⟩
  acted s hs := by
    obtain ⟨t, ht, h⟩ := hc.acted (f s) ⟨(hcf s).trans hs.cf, by rw [hd, hs.count]⟩
    exact ⟨t, (exec_bind_ok (exec_modify f s)).trans ht, h⟩

theorem guards_equal (b : Vars → String) (word : String) :
    Guards v k o (Nested.equal b word) (b v == word && true) :=
  guards_after (guards_decision fun v => Bool.and_false (b v == word)) (fun _ => rfl)
    (fun _ => rfl) (fun _ => rfl) fun _ => rfl

theorem guards_between (lo hi : Int32) (c : Vars → Int32) :
    Guards v k o (Nested.between lo hi c) ((lo < c v && hi ≥ c v) && true) :=
  guards_after (guards_decision fun v => Bool.and_false (lo < c v && hi ≥ c v)) (fun _ => rfl)
    (fun _ => rfl) (fun _ => rfl) fun _ => rfl

theorem guards_atMost (b : Vars → Int32) (c : Int32) :
    Guards v k o (Nested.atMost b c) (b v ≤ c && true) :=
  guards_after (guards_decision fun v => Bool.and_false (b v ≤ c)) (fun _ => rfl)
    (fun _ => rfl) (fun _ => rfl) fun _ => rfl

theorem guards_above (b : Int32) (c : Vars → Int32) :
    Guards v k o (Nested.above b c) (b < c v && true) :=
  guards_after (guards_decision fun v => Bool.and_false (b < c v)) (fun _ => rfl)
    (fun _ => rfl) (fun _ => rfl) fun _ => rfl

theorem counts_block (t : Transition) : Counts v k o (Nested.block t) 3 n where
  idle s hs := ⟨s.act t, rfl, .inr ⟨rfl, hs.count⟩⟩
  acted s hs := ⟨s.act t, rfl, rfl, hs.count⟩

theorem counts_word (letter : String) (t : Transition) :
    Counts v k o (Nested.word letter t) 2 2 :=
  (guards_equal _ _).counts (fun _ => counts_block t) fun _ => rfl

/-- The method for a string, of which only one is the right one. -/
theorem counts_mode {p : Nested.Prog Unit} (hp : Counts v k o p 2 2) (word : String)
    (hm : v.a1745113960 = word → m = 1) :
    Counts v k o (ifM (Nested.equal Vars.a1745113960 word) p) m
      (if v.a1745113960 = word then 2 else m) := by
  refine (guards_equal _ _).counts (fun h => ?_) fun h => ?_
  · have heq : v.a1745113960 = word := by simpa using h
    rw [if_pos heq, hm heq]
    exact hp
  · have hne : v.a1745113960 ≠ word := by simpa using h
    rw [if_neg hne]

theorem counts_low (letter : String) :
    ∃ n, n ≤ 2 ∧ (¬ v.a2108127495 ≤ -164 → n = 0) ∧ Counts v k o (Nested.low letter) 0 n := by
  have hinner : Counts v k o (ifM (Nested.between (-83) 18 Vars.a1522448132)
      (Nested.calculateOutputm1 letter)) 1
      (if (-83 < v.a1522448132 && 18 ≥ v.a1522448132) && true then 2 else 1) := by
    refine (guards_between _ _ _).counts (fun h => ?_) fun h => ?_
    · rw [if_pos h]
      exact counts_word letter _
    · rw [if_neg (by rw [h]; exact Bool.false_ne_true)]
  by_cases hlow : v.a2108127495 ≤ -164
  · refine ⟨_, ?_, fun h => absurd hlow h, (guards_atMost _ _).counts (fun _ => hinner) fun h => ?_⟩
    · split_ifs <;> omega
    · simp [hlow] at h
  · refine ⟨0, by omega, fun _ => rfl, (guards_atMost _ _).counts (fun h => ?_) fun _ => rfl⟩
    simp [hlow] at h

theorem counts_middle (letter : String) (hm : m ≤ 2) (h₀ : inMiddle v = true → m = 0) :
    ∃ n, n ≤ 2 ∧ (¬ inMiddle v = true → n = m) ∧ Counts v k o (Nested.middle letter) m n := by
  have hword : ∀ t, Counts v k o (Nested.word letter t) 2 2 := counts_word letter
  let e := if v.a1745113960 = "e" then 2 else 1
  let g := if v.a1745113960 = "g" then 2 else e
  let h := if v.a1745113960 = "h" then 2 else g
  have he := counts_mode (m := 1) ((hword .m2Ne1).seq (hword .m2Ce2)) "e" fun _ => rfl
  have hg := counts_mode (m := e) (hword .m3VoidReply) "g" fun hs =>
    if_neg (by rw [hs]; decide)
  have hh := counts_mode (m := g) ((hword .m4Ce2).seq ((hword .m4Ce1).seq (hword .m4Ne1))) "h"
    fun hs => by
      have hne : e = 1 := if_neg (by rw [hs]; decide)
      exact (if_neg (by rw [hs]; decide)).trans hne
  have hi := counts_mode (m := h) (hword .m5VoidReply) "i" fun hs => by
    have hne : e = 1 := if_neg (by rw [hs]; decide)
    have hne' : g = e := if_neg (by rw [hs]; decide)
    exact (if_neg (by rw [hs]; decide)).trans (hne'.trans hne)
  by_cases hmid : inMiddle v = true
  · obtain rfl := h₀ hmid
    refine ⟨_, ?_, fun hn => absurd hmid hn, (guards_between _ _ _).counts
      (fun _ => he.seq (hg.seq (hh.seq hi))) fun hf => ?_⟩
    · simp only [h, g, e]
      split_ifs <;> omega
    · rw [Bool.and_true] at hf
      exact absurd (hf.symm.trans hmid) Bool.false_ne_true
  · refine ⟨m, hm, fun _ => rfl, (guards_between _ _ _).counts (fun hf => ?_) fun _ => rfl⟩
    rw [Bool.and_true] at hf
    exact absurd hf hmid

/-- What is known of the count when the call is over. -/
structure Ends (k : ℕ) (o : List String) (s : Nested.State) : Prop where
  count : s.decisions.count true ≤ k + 3
  printed : s.out ≠ o → s.decisions.count true = k + 3

theorem Idle.ends {s : Nested.State} (h : Idle v k o n s) (hn : n ≤ 3) : Ends k o s where
  count := by
    have hcount := h.count
    omega
  printed hne := absurd h.out hne

theorem Acted.ends {s : Nested.State} (h : Acted k s) : Ends k o s where
  count := le_of_eq h.count
  printed _ := h.count

/-- The check is one more decision. -/
theorem check_ends {s : Nested.State} (hn : n ≤ 2) (h : Idle v k o n s ∨ Acted k s) :
    Ends k o (exec Nested.check s).2 := by
  have hcf : Guards v k o (Nested.decision fun _ cf => cf) true := guards_decision fun _ => rfl
  rcases h with h | h
  · obtain ⟨t, ht, hidle⟩ := hcf.idle n s h
    have hcheck : exec Nested.check s = (.error noTransition, t) := exec_ifM_of_true ht
    rw [hcheck]
    exact hidle.ends (by rw [Bool.toNat_true]; omega)
  · obtain ⟨t, ht, hacted⟩ := hcf.acted s h
    have hcheck : exec Nested.check s = (.ok (), t) := exec_ifM_of_false ht
    rw [hcheck]
    exact hacted.ends

theorem Counts.ends {p q : Nested.Prog Unit} (hp : Counts v k o p m n)
    (hq : ∀ s, Idle v k o n s ∨ Acted k s → Ends k o (exec q s).2) (s : Nested.State)
    (hs : Idle v k o m s ∨ Acted k s) : Ends k o (exec (p >>= fun _ => q) s).2 := by
  rcases hs with hs | hs
  · obtain ⟨t, ht, hend⟩ := hp.idle s hs
    rw [exec_bind_ok ht]
    exact hq t hend
  · obtain ⟨t, ht, hend⟩ := hp.acted s hs
    rw [exec_bind_ok ht]
    exact hq t (.inr hend)

/-- Nothing in the region of the check is above 100. -/
theorem counts_above (letter : String) (hup : inUpper v = true) :
    Counts v k o (ifM (Nested.above 100 Vars.a2108127495) do
      ifM (Nested.between 103 198 Vars.a422009172) do
        Nested.calculateOutputm8 letter) m m := by
  refine (guards_above _ _).counts (fun h => ?_) fun _ => rfl
  have hle := (Bool.and_eq_true_iff.mp hup).2
  rw [decide_eq_true_eq] at hle
  rw [Bool.and_true, decide_eq_true_eq] at h
  exact absurd hle (Int32.not_le.mpr h)

theorem upper_ends (letter : String) (hm : m ≤ 2) (h₀ : inUpper v = true → m = 0)
    (s : Nested.State) (hs : Idle v k o m s ∨ Acted k s) :
    Ends k o (exec (Nested.upper letter) s).2 := by
  have hword : ∀ t, Counts v k o (Nested.word letter t) 2 2 := counts_word letter
  have hregion : Guards v k o (Nested.between (-19) 100 Vars.a2108127495) (inUpper v && true) :=
    guards_between _ _ _
  rw [Bool.and_true] at hregion
  rcases hs with hs | hs
  · obtain ⟨t, ht, hidle⟩ := hregion.idle m s hs
    cases hup : inUpper v with
    | true =>
      rw [hup] at ht hidle
      obtain rfl := h₀ hup
      let g := if v.a1745113960 = "g" then 2 else 1
      have hg := counts_mode (m := 1) ((hword .m6Ne1).seq (hword .m6VoidReply)) "g" fun _ => rfl
      have hh := counts_mode (m := g) ((hword .m7Ne1).seq (hword .m7VoidReply)) "h" fun hs =>
        if_neg (by rw [hs]; decide)
      have hcheck : ∀ s, Idle v k o (if v.a1745113960 = "h" then 2 else g) s ∨ Acted k s →
          Ends k o (exec Nested.check s).2 := fun s => check_ends (by
        simp only [g]
        split_ifs <;> omega)
      have hrun : exec (Nested.upper letter) s = _ := exec_ifM_of_true ht
      rw [hrun]
      exact hg.ends (hh.ends ((counts_above letter hup).ends hcheck)) t (.inl hidle)
    | false =>
      rw [hup] at ht hidle
      have hrun : exec (Nested.upper letter) s = (.ok (), t) := exec_ifM_of_false ht
      rw [hrun]
      exact hidle.ends (by rw [Bool.toNat_false]; omega)
  · obtain ⟨t, ht, hacted⟩ := hregion.acted s hs
    have hrun : exec (Nested.upper letter) s = (.ok (), t) := exec_ifM_of_false ht
    rw [hrun]
    exact hacted.ends

end

/-- In one call of the engine at most three decisions are true. -/
theorem calculateOutput_ends (letter : String) (s : Nested.State) :
    Ends (s.decisions.count true) s.out (exec (Nested.calculateOutput letter) s).2 := by
  obtain ⟨n, hn, hlow, hc⟩ := counts_low (v := s.toVars) (k := s.decisions.count true)
    (o := s.out) letter
  obtain ⟨m, hm, hmid, hc'⟩ := counts_middle (v := s.toVars) (k := s.decisions.count true)
    (o := s.out) (m := n) letter hn fun h => hlow (not_low_of_inMiddle h)
  rw [Nested.calculateOutput_start]
  refine hc.ends (hc'.ends (upper_ends letter hm fun hup => ?_)) _ (.inl ⟨rfl, rfl, rfl, rfl⟩)
  -- the region of the check excludes the two before
  have hnot : ¬ inMiddle s.toVars = true := fun h => not_inUpper_of_inMiddle h hup
  have hle : ¬ s.toVars.a2108127495 ≤ -164 := fun h => by
    have hlt := (Bool.and_eq_true_iff.mp hup).1
    rw [decide_eq_true_eq, Int32.lt_iff_toInt_lt] at hlt
    rw [Int32.le_iff_toInt_le] at h
    have h₁ : (-164 : Int32).toInt = -164 := rfl
    have h₂ : (-19 : Int32).toInt = -19 := rfl
    omega
  rw [hmid hnot, hlow hle]

end EcaEngines.Tally
