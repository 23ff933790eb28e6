import EcaEngines.TopTraces

/-!
# The trace that is suggested

`Run.getSuggestedTrace` of `instm183_LTL_CTLFuzzer`. It reads of the triplets only the
traces, and compares the inputs as objects.
-/
namespace EcaEngines.Suggestion
open TopTraces (Failure)

section
variable {α : Type} [DecidableEq α]

abbrev Map (α : Type) := α → Option (List Int32)

/-- `HashMap.put`. -/
def put (map : Map α) (k : α) (v : List Int32) : Map α := fun x => if x = k then some v else map x

/-- The map of the first trace. -/
def zeros (ar : List α) : Map α :=
  ar.foldl (fun map str => put map str (List.replicate ar.length 0)) fun _ => none

/-- The search for an object, from position `i` on. The body of the loop increments `i` too. -/
def search (str1 : α) (index : ℕ) : ℕ → List α → ℕ
  | _, [] => index
  | i, [a] => if a = str1 then i else index
  | i, a :: _ :: ar => if a = str1 then i else search str1 index (i + 2) ar

/-- The body of the loop over a trace. -/
def increment (ar : List α) (state : Map α × ℕ) (str1 : α) : Except Failure (Map α × ℕ) :=
  let index := search str1 state.2 0 ar
  match state.1 str1 with
  | none => throw (.thrown .nullPointer)
  | some tmp => match tmp[index]? with
    | none => throw (.indexOutOfBounds
        ("Index " ++ toString index ++ " out of bounds for length " ++ toString tmp.length))
    | some nummer => pure (put state.1 str1 (tmp.set index (nummer + 1)), index)

def countTrace (ar : List α) (map : Map α) (ar1 : List α) : Except Failure (Map α) := do
  let (map, _) ← ar1.foldlM (increment ar) (map, 0)
  pure map

/-- How often each object stood at each position. -/
def counts (ar : List α) (traces : List (List α)) : Except Failure (Map α) :=
  traces.foldlM (countTrace ar) (zeros ar)

/-- The first of the numbers of each key. -/
def firsts (map : Map α) (keys : List α) : Except Failure (List Int32) :=
  keys.mapM fun string => match (map string).bind (·[0]?) with
    | none => throw (.indexOutOfBounds "Index 0 out of bounds for length 0")
    | some n => pure n

def getSuggestedTrace : List (List α) → Except Failure (Option (List (List α)))
  | [] => throw (.indexOutOfBounds "Index 0 out of bounds for length 0")
  | ar :: traces => do
    let map ← counts ar (ar :: traces)
    let _ ← firsts map ar.dedup
    pure none

/-- The first even position of the first trace that holds the object. -/
def found (ar : List α) (o : α) : Option ℕ :=
  (ar.zipIdx.find? fun x => x.2 % 2 == 0 && x.1 == o).map Prod.snd

/-- Where the objects of a trace are counted: where they are found, and otherwise where the one
before them was counted, the first one at `index`. -/
def positions (ar : List α) (index : ℕ) : List α → List (α × ℕ)
  | [] => []
  | o :: ar1 => (o, (found ar o).getD index) :: positions ar ((found ar o).getD index) ar1

/-- Where the objects of all traces are counted. -/
def places (ar : List α) (traces : List (List α)) : List (α × ℕ) :=
  traces.flatMap (positions ar 0)

/-- The map with which objects have been counted: a list for each object of the first trace, with
how often it was counted at each position, as an `int`. -/
def tally (ar : List α) (counted : List (α × ℕ)) : Map α := fun o =>
  if o ∈ ar then
    some ((List.range ar.length).map fun p => Int32.ofNat (counted.count (o, p)))
  else none

theorem search_found (ar : List α) (str1 : α) (index : ℕ) :
    search str1 index 0 ar = (found ar str1).getD index := by
  have hgen (l : List α) (i : ℕ) (hi : i % 2 = 0) : search str1 index i l =
      ((l.zipIdx i |>.find? fun x => x.2 % 2 == 0 && x.1 == str1).map Prod.snd).getD index := by
    fun_induction search str1 index i l with
    | case1 => rfl
    | case2 i => simp [hi]
    | case3 i a hne => simp [hne]
    | case4 i _ l => simp [hi]
    | case5 i a b l hne ih =>
      have hodd : (i + 1) % 2 ≠ 0 := by omega
      simp only [List.zipIdx_cons, List.find?_cons, hi, beq_self_eq_true,
        beq_eq_false_iff_ne.mpr hne, beq_eq_false_iff_ne.mpr hodd, Bool.and_false, Bool.false_and,
        ih (by omega)]
  exact hgen ar 0 rfl

theorem found_mem {ar : List α} {o : α} {p : ℕ} (h : found ar o = some p) :
    p % 2 = 0 ∧ p < ar.length := by
  obtain ⟨x, hx, rfl⟩ := Option.map_eq_some_iff.mp h
  have heven := List.find?_some hx
  have hmem : (x.1, x.2) ∈ ar.zipIdx := List.mem_of_find?_eq_some hx
  simp only [Bool.and_eq_true, beq_iff_eq] at heven
  exact ⟨heven.1, by simpa using (List.mem_zipIdx hmem).2.1⟩

/-- A position to count at, also before anything was found. -/
def Even (ar : List α) (index : ℕ) : Prop := index % 2 = 0 ∧ (ar ≠ [] → index < ar.length)

omit [DecidableEq α] in
theorem even_zero (ar : List α) : Even ar 0 := ⟨rfl, List.length_pos_iff.mpr⟩

theorem found_even {ar : List α} {index : ℕ} (h : Even ar index) (o : α) :
    Even ar ((found ar o).getD index) := by
  cases hfound : found ar o with
  | none => exact h
  | some p => exact ⟨(found_mem hfound).1, fun _ => (found_mem hfound).2⟩

theorem zeros_tally (ar : List α) : zeros ar = tally ar [] := by
  have hgen (l : List α) (map : Map α) : l.foldl
      (fun map str => put map str (List.replicate ar.length 0)) map =
        fun o => if o ∈ l then some (List.replicate ar.length 0) else map o := by
    induction l generalizing map with
    | nil => simp
    | cons a l ih =>
      funext o
      rw [List.foldl_cons, ih]
      by_cases hl : o ∈ l
      · simp [hl]
      · by_cases ha : o = a <;> simp [hl, ha, put]
  have hlst : List.replicate ar.length (0 : Int32) =
      (List.range ar.length).map fun _ => Int32.ofNat 0 := by
    rw [List.map_const', List.length_range]
    rfl
  exact (hgen ar _).trans (by rw [hlst]; rfl)

variable {ar : List α} {counted : List (α × ℕ)} {index : ℕ}

/-- One object is counted. -/
theorem put_tally {str1 : α} (hstr1 : str1 ∈ ar) {tmp : List Int32}
    (htmp : tally ar counted str1 = some tmp) (hlt : index < tmp.length) :
    put (tally ar counted) str1 (tmp.set index (tmp[index] + 1)) =
      tally ar (counted ++ [(str1, index)]) := by
  have htmp : tmp = (List.range ar.length).map fun p => Int32.ofNat (counted.count (str1, p)) := by
    rw [tally, if_pos hstr1] at htmp
    exact (Option.some.inj htmp).symm
  subst htmp
  funext o
  by_cases ho : o = str1
  · subst ho
    rw [put, if_pos rfl, tally, if_pos hstr1]
    congr 1
    refine List.ext_getElem (by simp) fun p hp hp' => ?_
    rw [List.getElem_set]
    by_cases heq : index = p
    · subst heq
      simp
    · simp [heq, List.count_singleton]
  · have hne (p : ℕ) : ((str1, index) == (o, p)) = false := by simp [Ne.symm ho]
    rw [put, if_neg ho, tally, tally]
    simp only [List.count_append, List.count_singleton, hne, Bool.false_eq_true, if_false,
      Nat.add_zero]

theorem increment_counted (hindex : Even ar index) {str1 : α} (hstr1 : str1 ∈ ar) :
    increment ar (tally ar counted, index) str1 = .ok
      (tally ar (counted ++ [(str1, (found ar str1).getD index)]), (found ar str1).getD index) := by
  obtain ⟨tmp, htmp⟩ : ∃ tmp, tally ar counted str1 = some tmp := ⟨_, if_pos hstr1⟩
  have hlength : tmp.length = ar.length := by
    rw [tally, if_pos hstr1] at htmp
    rw [← Option.some.inj htmp, List.length_map, List.length_range]
  have hlt : (found ar str1).getD index < tmp.length :=
    hlength ▸ (found_even hindex str1).2 (List.ne_nil_of_mem hstr1)
  unfold increment
  simp only [search_found, htmp, List.getElem?_eq_getElem hlt]
  rw [← put_tally hstr1 htmp hlt]
  rfl

theorem increment_null {str1 : α} (hstr1 : str1 ∉ ar) :
    increment ar (tally ar counted, index) str1 = .error (.thrown .nullPointer) := by
  unfold increment
  simp only [tally, if_neg hstr1]
  rfl

/-- A trace of objects of the first one is counted. -/
theorem loop_counted (counted : List (α × ℕ)) (hindex : Even ar index) {ar1 : List α}
    (har1 : ∀ o ∈ ar1, o ∈ ar) :
    ∃ index', ar1.foldlM (increment ar) (tally ar counted, index) =
      .ok (tally ar (counted ++ positions ar index ar1), index') := by
  induction ar1 generalizing counted index with
  | nil => exact ⟨index, by rw [positions, List.append_nil]; rfl⟩
  | cons str1 ar1 ih =>
    obtain ⟨hstr1, har1⟩ := List.forall_mem_cons.mp har1
    obtain ⟨index', hloop⟩ :=
      ih (counted ++ [(str1, (found ar str1).getD index)]) (found_even hindex str1) har1
    rw [← List.append_cons] at hloop
    refine ⟨index', ?_⟩
    rw [List.foldlM_cons, increment_counted hindex hstr1, positions]
    exact hloop

/-- A trace with an object that the first one lacks ends the method. -/
theorem loop_null (hindex : Even ar index) {ar1 : List α} (har1 : ∃ o ∈ ar1, o ∉ ar) :
    ar1.foldlM (increment ar) (tally ar counted, index) = .error (.thrown .nullPointer) := by
  induction ar1 generalizing counted index with
  | nil =>
    obtain ⟨o, ho, -⟩ := har1
    exact absurd ho List.not_mem_nil
  | cons str1 ar1 ih =>
    rw [List.foldlM_cons]
    by_cases hstr1 : str1 ∈ ar
    · obtain ⟨o, ho, hnot⟩ := har1
      have htail : o ∈ ar1 := (List.mem_cons.mp ho).resolve_left fun he => hnot (he ▸ hstr1)
      rw [increment_counted hindex hstr1]
      exact ih (found_even hindex str1) ⟨o, htail, hnot⟩
    · rw [increment_null hstr1]
      rfl

theorem countTrace_counted {ar1 : List α} (har1 : ∀ o ∈ ar1, o ∈ ar) :
    countTrace ar (tally ar counted) ar1 = .ok (tally ar (counted ++ positions ar 0 ar1)) := by
  obtain ⟨index, hloop⟩ := loop_counted counted (even_zero ar) har1
  unfold countTrace
  rw [hloop]
  rfl

theorem countTrace_null {ar1 : List α} (har1 : ∃ o ∈ ar1, o ∉ ar) :
    countTrace ar (tally ar counted) ar1 = .error (.thrown .nullPointer) := by
  unfold countTrace
  rw [loop_null (even_zero ar) har1]
  rfl

theorem traces_counted {traces : List (List α)} (ht : ∀ trace ∈ traces, ∀ o ∈ trace, o ∈ ar) :
    traces.foldlM (countTrace ar) (tally ar counted) =
      .ok (tally ar (counted ++ places ar traces)) := by
  induction traces generalizing counted with
  | nil =>
    rw [places, List.flatMap_nil, List.append_nil]
    rfl
  | cons trace traces ih =>
    obtain ⟨htrace, ht⟩ := List.forall_mem_cons.mp ht
    rw [List.foldlM_cons, countTrace_counted htrace, places, List.flatMap_cons,
      ← List.append_assoc]
    exact ih ht

theorem traces_null {traces : List (List α)} (ht : ∃ trace ∈ traces, ∃ o ∈ trace, o ∉ ar) :
    traces.foldlM (countTrace ar) (tally ar counted) = .error (.thrown .nullPointer) := by
  induction traces generalizing counted with
  | nil =>
    obtain ⟨trace, htrace, -⟩ := ht
    exact absurd htrace List.not_mem_nil
  | cons trace traces ih =>
    rw [List.foldlM_cons]
    by_cases htrace : ∃ o ∈ trace, o ∉ ar
    · rw [countTrace_null htrace]
      rfl
    · push Not at htrace
      obtain ⟨trace', hmem, o, ho, hnot⟩ := ht
      have htail : trace' ∈ traces :=
        (List.mem_cons.mp hmem).resolve_left fun he => hnot (htrace o (he ▸ ho))
      rw [countTrace_counted htrace]
      exact ih ⟨trace', htail, o, ho, hnot⟩

/-- Every object of the traces is counted once. -/
theorem places_objects (ar : List α) (traces : List (List α)) :
    (places ar traces).map Prod.fst = traces.flatten := by
  have hpositions (index : ℕ) (ar1 : List α) : (positions ar index ar1).map Prod.fst = ar1 := by
    induction ar1 generalizing index with
    | nil => rfl
    | cons o ar1 ih => rw [positions, List.map_cons, ih]
  rw [places, List.map_flatMap]
  simp only [hpositions, List.flatMap_id']

theorem positions_even (hindex : Even ar index) {ar1 : List α} :
    ∀ x ∈ positions ar index ar1, Even ar x.2 := by
  induction ar1 generalizing index with
  | nil => simp [positions]
  | cons o ar1 ih =>
    rw [positions]
    exact List.forall_mem_cons.mpr ⟨found_even hindex o, ih (found_even hindex o)⟩

/-- Nothing is counted at an odd position. -/
theorem places_even (ar : List α) (traces : List (List α)) :
    ∀ x ∈ places ar traces, Even ar x.2 := fun x hx => by
  obtain ⟨trace, -, hx⟩ := List.mem_flatMap.mp hx
  exact positions_even (even_zero ar) x hx

theorem firsts_ok (counted : List (α × ℕ)) {keys : List α} (hkeys : ∀ o ∈ keys, o ∈ ar) :
    ∃ ints, firsts (tally ar counted) keys = .ok ints := by
  induction keys with
  | nil => exact ⟨[], rfl⟩
  | cons o keys ih =>
    obtain ⟨ho, hkeys⟩ := List.forall_mem_cons.mp hkeys
    obtain ⟨ints, hints⟩ := ih hkeys
    have hpos : 0 < ar.length := List.length_pos_of_mem ho
    refine ⟨Int32.ofNat (counted.count (o, 0)) :: ints, ?_⟩
    unfold firsts at hints ⊢
    rw [List.mapM_cons, hints, tally, if_pos ho, Option.bind_some, List.getElem?_map,
      List.getElem?_range hpos]
    rfl

theorem getSuggestedTrace_cons (ar : List α) (traces : List (List α)) :
    getSuggestedTrace (ar :: traces) = (do
      let map ← (ar :: traces).foldlM (countTrace ar) (tally ar [])
      let _ ← firsts map ar.dedup
      pure none) := by
  rw [← zeros_tally]
  rfl

theorem getSuggestedTrace_null {traces : List (List α)}
    (ht : ∃ trace ∈ traces, ∃ o ∈ trace, o ∉ ar) :
    getSuggestedTrace (ar :: traces) = .error (.thrown .nullPointer) := by
  obtain ⟨trace, htrace, ho⟩ := ht
  rw [getSuggestedTrace_cons, traces_null ⟨trace, List.mem_cons_of_mem ar htrace, ho⟩]
  rfl

/-- In `main` every trace is made of objects of its own. -/
theorem getSuggestedTrace_disjoint {trace : List α} {traces : List (List α)}
    (h : (ar :: traces).Pairwise List.Disjoint) (htrace : trace ∈ traces) (hne : trace ≠ []) :
    getSuggestedTrace (ar :: traces) = .error (.thrown .nullPointer) := by
  obtain ⟨o, ho⟩ := List.exists_mem_of_ne_nil trace hne
  have hdisjoint : List.Disjoint ar trace := (List.pairwise_cons.mp h).1 trace htrace
  exact getSuggestedTrace_null ⟨trace, htrace, o, ho, fun har => hdisjoint har ho⟩

theorem getSuggestedTrace_tally {traces : List (List α)}
    (ht : ∀ trace ∈ traces, ∀ o ∈ trace, o ∈ ar) :
    counts ar (ar :: traces) = .ok (tally ar (places ar (ar :: traces))) ∧
      getSuggestedTrace (ar :: traces) = .ok none := by
  have hall : ∀ trace ∈ ar :: traces, ∀ o ∈ trace, o ∈ ar :=
    List.forall_mem_cons.mpr ⟨fun _ ho => ho, ht⟩
  have hcounted : (ar :: traces).foldlM (countTrace ar) (tally ar []) =
      .ok (tally ar (places ar (ar :: traces))) := traces_counted hall
  obtain ⟨ints, hints⟩ := firsts_ok (places ar (ar :: traces))
    fun o (ho : o ∈ ar.dedup) => List.mem_dedup.mp ho
  refine ⟨?_, ?_⟩
  · rw [counts, zeros_tally, hcounted]
  · rw [getSuggestedTrace_cons, hcounted]
    change (do
      let _ ← firsts (tally ar (places ar (ar :: traces))) ar.dedup
      pure none) = _
    rw [hints]
    rfl

/-- Without a trace there is no first one. Otherwise the method meets a null if and only if a
trace has an object that the first one lacks; if none has, every object is counted once, at an
even position, and null is returned whatever was counted. -/
theorem getSuggestedTrace_cases (traces : List (List α)) :
    (traces = [] ∧ getSuggestedTrace traces =
      .error (.indexOutOfBounds "Index 0 out of bounds for length 0")) ∨
    ∃ ar rest, traces = ar :: rest ∧
      ((∃ trace ∈ rest, ∃ o ∈ trace, o ∉ ar) ∧
        getSuggestedTrace traces = .error (.thrown .nullPointer) ∨
      (∀ trace ∈ rest, ∀ o ∈ trace, o ∈ ar) ∧
        counts ar traces = .ok (tally ar (places ar traces)) ∧
        (places ar traces).map Prod.fst = traces.flatten ∧
        (∀ x ∈ places ar traces, Even ar x.2) ∧
        getSuggestedTrace traces = .ok none) := by
  cases traces with
  | nil => exact .inl ⟨rfl, rfl⟩
  | cons ar rest =>
    refine .inr ⟨ar, rest, rfl, ?_⟩
    by_cases ht : ∃ trace ∈ rest, ∃ o ∈ trace, o ∉ ar
    · exact .inl ⟨ht, getSuggestedTrace_null ht⟩
    · push Not at ht
      obtain ⟨hcounts, hnull⟩ := getSuggestedTrace_tally ht
      exact .inr ⟨ht, hcounts, places_objects _ _, places_even _ _, hnull⟩

/-- Objects are numbered. The second of the first trace is counted where the one before it was. -/
example : ((counts [7, 8] [[7, 8], [8]]).toOption.bind fun map => map 8) = some [2, 0] := by
  decide

end

end EcaEngines.Suggestion
