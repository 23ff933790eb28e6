import EcaEngines.Constraints

/-!
# The puzzle that is solved

`JavaExample.sudokuExample`. It asserts constraints on 81 integer constants and prints the values
that the solver gives them. The solver is a parameter, and arrays are lists.
-/
namespace EcaEngines.Sudoku
open Constraints

/-- The name of a constant. -/
def symbol (i j : ℕ) : String := "x_" ++ toString (i + 1) ++ "_" ++ toString (j + 1)

def X (i j : ℕ) : Term String := .const (symbol i j)

/-- A loop over an array of nine. -/
def nine {α : Type} (f : ℕ → α) : List α := (List.range 9).map f

def cells_c : List (List (Formula String)) := nine fun i => nine fun j =>
  .and [.le (.int 1) (X i j), .le (X i j) (.int 9)]

def rows_c : List (Formula String) := nine fun i => .distinct (nine (X i))

/-- The elements of `X` are rows, here too. -/
def cols_c : List (Formula String) := nine fun j => .distinct (nine (X j))

def square (i0 j0 : ℕ) : List (Term String) :=
  (List.range 3).flatMap fun i => (List.range 3).map fun j => X (3 * i0 + i) (3 * j0 + j)

def sq_c : List (List (Formula String)) := (List.range 3).map fun i0 =>
  (List.range 3).map fun j0 => .distinct (square i0 j0)

def sudoku_c : Formula String :=
  let c := cells_c.foldl (fun c t => .and [.and t, c]) .tru
  let c := .and [.and rows_c, c]
  let c := .and [.and cols_c, c]
  sq_c.foldl (fun c t => .and [.and t, c]) c

/-- The cells that are given; 0 is an empty one. -/
abbrev Instance := ℕ → ℕ → ℤ

def instance_c (given : Instance) : Formula String :=
  (List.range 9).foldl (fun c i => (List.range 9).foldl (fun c j => .and [c,
    .ite (.eq (.int (given i j)) (.int 0)) .tru (.eq (X i j) (.int (given i j)))]) c) .tru

/-- The array in the source. -/
def array : List (List ℤ) := [
  [0, 0, 0, 0, 9, 4, 0, 3, 0],
  [0, 0, 0, 5, 1, 0, 0, 0, 7],
  [0, 8, 9, 0, 0, 0, 0, 4, 0],
  [0, 0, 0, 0, 0, 0, 2, 0, 8],
  [0, 6, 0, 2, 0, 1, 0, 5, 0],
  [1, 0, 2, 0, 0, 0, 0, 0, 0],
  [0, 7, 0, 0, 0, 0, 5, 2, 0],
  [9, 0, 0, 0, 6, 5, 0, 0, 0],
  [0, 4, 0, 9, 7, 0, 0, 0, 0]]

def entries (l : List (List ℤ)) (i j : ℕ) : ℤ := (l.getD i []).getD j 0

/-- The lines that show a grid. -/
def lines (R : Instance) : List String :=
  nine fun i => String.join (nine fun j => " " ++ toString (R i j))

/-- What `sudokuExample` prints, and whether it then throws a `TestFailedException`. -/
def sudokuExample (solver : Solver String) (given : Instance) : List String × Bool :=
  match solver [sudoku_c, instance_c given] with
  | some m => ("SudokuExample" :: "Sudoku solution:" :: lines fun i j => m (symbol i j), false)
  | none => (["SudokuExample", "Failed to solve sudoku"], true)

/-- The cells of a square of a grid. -/
def block (grid : Instance) (i0 j0 : ℕ) : List ℤ :=
  (List.range 3).flatMap fun i => (List.range 3).map fun j => grid (3 * i0 + i) (3 * j0 + j)

/-- A grid of digits, with no digit twice in a row or a square, that completes the instance. -/
structure Admitted (given grid : Instance) : Prop where
  digits : ∀ i < 9, ∀ j < 9, 1 ≤ grid i j ∧ grid i j ≤ 9
  rows : ∀ i < 9, (nine (grid i)).Nodup
  squares : ∀ i0 < 3, ∀ j0 < 3, (block grid i0 j0).Nodup
  given : ∀ i < 9, ∀ j < 9, given i j ≠ 0 → grid i j = given i j

/-- A solution of the puzzle also has no digit twice in a column. -/
structure Solution (given grid : Instance) : Prop extends Admitted given grid where
  columns : ∀ j < 9, (nine fun i => grid i j).Nodup

theorem nine_congr {α : Type} {f g : ℕ → α} (h : ∀ i < 9, f i = g i) : nine f = nine g :=
  List.map_congr_left fun i hi => h i (List.mem_range.mp hi)

theorem block_congr {grid grid' : Instance} (h : ∀ i < 9, ∀ j < 9, grid i j = grid' i j)
    {i0 j0 : ℕ} (hi0 : i0 < 3) (hj0 : j0 < 3) : block grid i0 j0 = block grid' i0 j0 := by
  refine List.flatMap_congr fun i hi => List.map_congr_left fun j hj => h _ ?_ _ ?_
  · have := List.mem_range.mp hi
    omega
  · have := List.mem_range.mp hj
    omega

/-- Only the 81 cells count. -/
theorem Admitted.congr {given grid grid' : Instance} (h : Admitted given grid)
    (heq : ∀ i < 9, ∀ j < 9, grid i j = grid' i j) : Admitted given grid' where
  digits i hi j hj := heq i hi j hj ▸ h.digits i hi j hj
  rows i hi := nine_congr (heq i hi) ▸ h.rows i hi
  squares i0 hi0 j0 hj0 := block_congr heq hi0 hj0 ▸ h.squares i0 hi0 j0 hj0
  given i hi j hj hg := heq i hi j hj ▸ h.given i hi j hj hg

/-- The grid of a model. -/
def grid (M : String → ℤ) : Instance := fun i j => M (symbol i j)

section
variable {M : String → ℤ} {given : Instance}

theorem forall_mem_nine {α : Type} {f : ℕ → α} {P : α → Prop} :
    (∀ a ∈ nine f, P a) ↔ ∀ i < 9, P (f i) := by
  simp [nine]

theorem map_nine {α β : Type} (g : α → β) (f : ℕ → α) : (nine f).map g = nine fun i => g (f i) :=
  List.map_map

theorem map_square (M : String → ℤ) (i0 j0 : ℕ) :
    (square i0 j0).map (Term.eval M) = block (grid M) i0 j0 := by
  unfold square block
  rw [List.map_flatMap]
  simp only [List.map_map]
  rfl

/-- The rows are asserted twice, and the columns not at all. -/
theorem holds_sudoku_c : sudoku_c.Holds M ↔
    (∀ i < 9, ∀ j < 9, 1 ≤ grid M i j ∧ grid M i j ≤ 9) ∧
    (∀ i < 9, (nine (grid M i)).Nodup) ∧ ∀ i0 < 3, ∀ j0 < 3, (block (grid M) i0 j0).Nodup := by
  have hrow (i : ℕ) : (nine (X i)).map (Term.eval M) = nine (grid M i) := map_nine _ _
  unfold sudoku_c
  simp only [holds_foldl_and, holds_and, List.forall_mem_cons, List.not_mem_nil, IsEmpty.forall_iff,
    implies_true, and_true, holds_tru, rows_c, cols_c, cells_c, sq_c, forall_mem_nine,
    holds_distinct, hrow, holds_le, List.forall_mem_map, List.mem_range, map_square]
  constructor
  · rintro ⟨hsquares, hrows, -, hdigits⟩
    exact ⟨hdigits, hrows, hsquares⟩
  · rintro ⟨hdigits, hrows, hsquares⟩
    exact ⟨hsquares, hrows, hrows, hdigits⟩

theorem holds_instance_c : (instance_c given).Holds M ↔
    ∀ i < 9, ∀ j < 9, given i j ≠ 0 → grid M i j = given i j := by
  have hrow (i : ℕ) (c : Formula String) : ((List.range 9).foldl (fun c j => .and [c,
      .ite (.eq (.int (given i j)) (.int 0)) .tru (.eq (X i j) (.int (given i j)))]) c).Holds M ↔
        c.Holds M ∧ ∀ j < 9, given i j ≠ 0 → grid M i j = given i j := by
    rw [holds_foldl_and_right]
    simp only [List.mem_range, holds_ite, holds_tru, holds_eq, implies_true, true_and]
    rfl
  have hrows (l : List ℕ) (c : Formula String) : (l.foldl (fun c i =>
      (List.range 9).foldl (fun c j => .and [c, .ite (.eq (.int (given i j)) (.int 0)) .tru
        (.eq (X i j) (.int (given i j)))]) c) c).Holds M ↔
          c.Holds M ∧ ∀ i ∈ l, ∀ j < 9, given i j ≠ 0 → grid M i j = given i j := by
    induction l generalizing c with
    | nil => simp
    | cons i l ih => rw [List.foldl_cons, ih, hrow, and_assoc, List.forall_mem_cons]
  unfold instance_c
  rw [hrows]
  simp only [holds_tru, true_and, List.mem_range]

theorem holds_iff : (sudoku_c.Holds M ∧ (instance_c given).Holds M) ↔
    Admitted given (grid M) := by
  rw [holds_sudoku_c, holds_instance_c]
  constructor
  · rintro ⟨⟨hdigits, hrows, hsquares⟩, hgiven⟩
    exact ⟨hdigits, hrows, hsquares, hgiven⟩
  · rintro ⟨hdigits, hrows, hsquares, hgiven⟩
    exact ⟨⟨hdigits, hrows, hsquares⟩, hgiven⟩

end

/-- The cell that a constant stands for. -/
def cell (s : String) : ℕ × ℕ :=
  let digit (k : ℕ) := (s.toList.getD k '1').toNat - '1'.toNat
  (digit 2, digit 4)

/-- The 81 constants have names of their own. -/
theorem cell_symbol : ∀ i < 9, ∀ j < 9, cell (symbol i j) = (i, j) := by
  decide

theorem exists_grid (g : Instance) : ∃ M, ∀ i < 9, ∀ j < 9, grid M i j = g i j := by
  refine ⟨fun s => g (cell s).1 (cell s).2, fun i hi j hj => ?_⟩
  change g (cell (symbol i j)).1 (cell (symbol i j)).2 = g i j
  rw [cell_symbol i hi j hj]

/-- A grid in which all columns have a digit twice. -/
def repeated : List (List ℤ) := [
  [1, 5, 7, 2, 9, 4, 6, 3, 8],
  [3, 4, 6, 5, 1, 8, 2, 9, 7],
  [2, 8, 9, 3, 6, 7, 1, 4, 5],
  [4, 5, 9, 3, 6, 7, 2, 1, 8],
  [7, 6, 8, 2, 9, 1, 3, 5, 4],
  [1, 3, 2, 4, 5, 8, 6, 7, 9],
  [1, 7, 6, 3, 4, 8, 5, 2, 9],
  [9, 2, 3, 1, 6, 5, 4, 7, 8],
  [5, 4, 8, 9, 7, 2, 1, 3, 6]]

theorem repeated_admitted : Admitted (entries array) (entries repeated) :=
  ⟨by decide, by decide, by decide, by decide⟩

theorem repeated_not_solution : ¬ Solution (entries array) (entries repeated) :=
  fun h => absurd (h.columns 0) (by decide)

/-- The models of what is asserted are the admitted grids, for every instance. Not all of them
are solutions, also for the one in the source. -/
theorem asserted_iff :
    (∀ given g : Instance, (∃ M, sudoku_c.Holds M ∧ (instance_c given).Holds M ∧
      ∀ i < 9, ∀ j < 9, grid M i j = g i j) ↔ Admitted given g) ∧
    ∃ g, Admitted (entries array) g ∧ ¬ Solution (entries array) g := by
  refine ⟨fun given g => ⟨?_, fun h => ?_⟩, _, repeated_admitted, repeated_not_solution⟩
  · rintro ⟨M, hsudoku, hinstance, heq⟩
    exact (holds_iff.mp ⟨hsudoku, hinstance⟩).congr heq
  · obtain ⟨M, heq⟩ := exists_grid g
    obtain ⟨hsudoku, hinstance⟩ :=
      holds_iff.mpr (h.congr fun i hi j hj => (heq i hi j hj).symm)
    exact ⟨M, hsudoku, hinstance, heq⟩

/-- With a solver that is right, an admitted grid is printed if there is one. -/
theorem sudokuExample_prints (solver : Solver String) (hs : Sound solver) (hc : Complete solver)
    (given : Instance) :
    (∃ g, Admitted given g ∧ sudokuExample solver given =
      ("SudokuExample" :: "Sudoku solution:" :: lines g, false)) ∨
    ((¬ ∃ g, Admitted given g) ∧ sudokuExample solver given =
      (["SudokuExample", "Failed to solve sudoku"], true)) := by
  unfold sudokuExample
  cases hsolver : solver [sudoku_c, instance_c given] with
  | some m =>
    have hall := hs _ m hsolver
    have hgrid : Admitted given (grid m) := holds_iff.mp
      ⟨hall _ List.mem_cons_self, hall _ (List.mem_cons_of_mem _ List.mem_cons_self)⟩
    exact .inl ⟨grid m, hgrid, rfl⟩
  | none =>
    refine .inr ⟨?_, rfl⟩
    rintro ⟨g, hg⟩
    obtain ⟨M, heq⟩ := exists_grid g
    obtain ⟨hsudoku, hinstance⟩ :=
      holds_iff.mpr (hg.congr fun i hi j hj => (heq i hi j hj).symm)
    exact hc _ hsolver ⟨M, List.forall_mem_cons.mpr
      ⟨hsudoku, List.forall_mem_singleton.mpr hinstance⟩⟩

open Classical in
/-- A solver that has any model there is. -/
noncomputable def anyModel : Solver String := fun fs =>
  if h : ∃ M, ∀ f ∈ fs, f.Holds M then some h.choose else none

theorem anyModel_sound : Sound anyModel := by
  intro fs M h
  unfold anyModel at h
  split at h
  next hex =>
    obtain rfl := Option.some.inj h
    exact hex.choose_spec
  next => cases h

theorem anyModel_complete : Complete anyModel := by
  intro fs h
  unfold anyModel at h
  split at h
  next => cases h
  next hnone => exact hnone

theorem sudokuExample_prints_array :
    (∃ g, Admitted (entries array) g ∧ sudokuExample anyModel (entries array) =
      ("SudokuExample" :: "Sudoku solution:" :: lines g, false)) ∨
    ((¬ ∃ g, Admitted (entries array) g) ∧ sudokuExample anyModel (entries array) =
      (["SudokuExample", "Failed to solve sudoku"], true)) :=
  sudokuExample_prints anyModel anyModel_sound anyModel_complete (entries array)

end EcaEngines.Sudoku
