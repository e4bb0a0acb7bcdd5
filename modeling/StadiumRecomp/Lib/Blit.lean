import Mathlib.Data.List.Basic

/-!
Contract: rows written over stretches of a list, one after another.

Owns: the assignment of a slice, what a sequence of them leaves, and the tiling of an image by
cells with a border between them.

Does not own: what the rows hold.
-/

set_option autoImplicit false

namespace StadiumRecomp.Lib

/-- `cells[start : start + len(row)] = row`. -/
structure Blit (α : Type) where
  start : Nat
  row : List α

namespace Blit

variable {α : Type}

def apply (cells : List α) (blit : Blit α) : List α :=
  cells.take blit.start ++ blit.row ++ cells.drop (blit.start + blit.row.length)

def applyAll (blits : List (Blit α)) (cells : List α) : List α := blits.foldl apply cells

/-- The row stands at a position. -/
def Covers (blit : Blit α) (i : Nat) : Prop := blit.start ≤ i ∧ i < blit.start + blit.row.length

/-- The row lies inside a list of this length. -/
def Fits (length : Nat) (blit : Blit α) : Prop := blit.start + blit.row.length ≤ length

theorem length_apply {cells : List α} {blit : Blit α} (fits : blit.Fits cells.length) :
    (apply cells blit).length = cells.length := by
  unfold Fits at fits
  simp only [apply, List.length_append, List.length_take, List.length_drop]
  omega

theorem getElem?_apply_covers {cells : List α} {blit : Blit α} (fits : blit.Fits cells.length)
    {i : Nat} (covers : blit.Covers i) : (apply cells blit)[i]? = blit.row[i - blit.start]? := by
  obtain ⟨low, high⟩ := covers
  unfold Fits at fits
  have front : (cells.take blit.start).length = blit.start := by
    rw [List.length_take]
    omega
  rw [apply, List.append_assoc, List.getElem?_append_right (by omega), front,
    List.getElem?_append_left (by omega)]

theorem getElem?_apply_of_not_covers {cells : List α} {blit : Blit α}
    (fits : blit.Fits cells.length) {i : Nat} (outside : ¬ blit.Covers i) :
    (apply cells blit)[i]? = cells[i]? := by
  unfold Covers at outside
  unfold Fits at fits
  have front : (cells.take blit.start).length = blit.start := by
    rw [List.length_take]
    omega
  rw [apply, List.append_assoc]
  by_cases before : i < blit.start
  · rw [List.getElem?_append_left (by omega), List.getElem?_take_of_lt before]
  · rw [List.getElem?_append_right (by omega), List.getElem?_append_right (by omega), front,
      List.getElem?_drop]
    congr 1
    omega

theorem length_applyAll {blits : List (Blit α)} {cells : List α}
    (fit : ∀ blit ∈ blits, blit.Fits cells.length) :
    (applyAll blits cells).length = cells.length := by
  induction blits generalizing cells with
  | nil => rfl
  | cons first rest inductionHypothesis =>
      have same := length_apply (fit first List.mem_cons_self)
      show (applyAll rest (apply cells first)).length = _
      rw [inductionHypothesis fun blit member => same ▸ fit blit (List.mem_cons_of_mem _ member),
        same]

/-- A position that no row covers keeps its cell. -/
theorem getElem?_applyAll_of_not_covers {blits : List (Blit α)} {cells : List α}
    (fit : ∀ blit ∈ blits, blit.Fits cells.length) {i : Nat}
    (outside : ∀ blit ∈ blits, ¬ blit.Covers i) : (applyAll blits cells)[i]? = cells[i]? := by
  induction blits generalizing cells with
  | nil => rfl
  | cons first rest inductionHypothesis =>
      have same := length_apply (fit first List.mem_cons_self)
      show (applyAll rest (apply cells first))[i]? = _
      rw [inductionHypothesis (fun blit member => same ▸ fit blit (List.mem_cons_of_mem _ member))
          fun blit member => outside blit (List.mem_cons_of_mem _ member),
        getElem?_apply_of_not_covers (fit first List.mem_cons_self)
          (outside first List.mem_cons_self)]

/-- A position whose covering rows all hold one value there gets it. -/
theorem getElem?_applyAll {blits : List (Blit α)} {cells : List α}
    (fit : ∀ blit ∈ blits, blit.Fits cells.length) {i : Nat} {value : Option α}
    (covered : ∃ blit ∈ blits, blit.Covers i)
    (agree : ∀ blit ∈ blits, blit.Covers i → blit.row[i - blit.start]? = value) :
    (applyAll blits cells)[i]? = value := by
  induction blits generalizing cells with
  | nil =>
      obtain ⟨_, member, _⟩ := covered
      cases member
  | cons first rest inductionHypothesis =>
      have same := length_apply (fit first List.mem_cons_self)
      have fitRest : ∀ blit ∈ rest, blit.Fits (apply cells first).length := fun blit member =>
        same ▸ fit blit (List.mem_cons_of_mem _ member)
      show (applyAll rest (apply cells first))[i]? = value
      by_cases later : ∃ blit ∈ rest, blit.Covers i
      · exact inductionHypothesis fitRest later fun blit member =>
          agree blit (List.mem_cons_of_mem _ member)
      · have last : ∀ blit ∈ rest, ¬ blit.Covers i := fun blit member covers =>
          later ⟨blit, member, covers⟩
        obtain ⟨blit, member, covers⟩ := covered
        obtain rfl := (List.mem_cons.mp member).resolve_right fun inRest => last blit inRest covers
        rw [getElem?_applyAll_of_not_covers fitRest last,
          getElem?_apply_covers (fit blit List.mem_cons_self) covers]
        exact agree blit List.mem_cons_self covers

end Blit

/-! ## A grid of cells -/

/-- An image of cells `width` by `height` in `columns` columns, with a line of border before each
cell and one behind the last. -/
structure Grid where
  width : Nat
  height : Nat
  columns : Nat
  rows : Nat

namespace Grid

variable (grid : Grid)

def imageWidth : Nat := grid.columns * (grid.width + 1) + 1

def imageHeight : Nat := grid.rows * (grid.height + 1) + 1

/-- The position at which line `y` of a cell begins. -/
def lineStart (cell y : Nat) : Nat :=
  (cell / grid.columns * (grid.height + 1) + 1 + y) * grid.imageWidth +
    (cell % grid.columns * (grid.width + 1) + 1)

/-- What stands at a row and column of the image: a cell and a place in it, or the border. -/
def cellAt (row column : Nat) : Option (Nat × Nat × Nat) :=
  if row % (grid.height + 1) = 0 ∨ column % (grid.width + 1) = 0 then none
  else some (row / (grid.height + 1) * grid.columns + column / (grid.width + 1),
    row % (grid.height + 1) - 1, column % (grid.width + 1) - 1)

variable {grid}

theorem quotient_of_offset {unit offset : Nat} (quotient : Nat) (inside : offset < unit) :
    (quotient * (unit + 1) + 1 + offset) / (unit + 1) = quotient ∧
      (quotient * (unit + 1) + 1 + offset) % (unit + 1) = offset + 1 := by
  have split : quotient * (unit + 1) + 1 + offset = offset + 1 + (unit + 1) * quotient := by
    rw [Nat.mul_comm]
    omega
  rw [split, Nat.add_mul_div_left _ _ (Nat.succ_pos unit), Nat.add_mul_mod_self_left,
    Nat.div_eq_of_lt (by omega), Nat.mod_eq_of_lt (by omega)]
  exact ⟨Nat.zero_add _, rfl⟩

theorem column_lt {cell x : Nat} (positive : 0 < grid.columns) (inside : x < grid.width) :
    cell % grid.columns * (grid.width + 1) + 1 + x < grid.imageWidth := by
  have column : cell % grid.columns + 1 ≤ grid.columns := Nat.mod_lt cell positive
  have whole := Nat.mul_le_mul_right (grid.width + 1) column
  rw [Nat.succ_mul] at whole
  unfold imageWidth
  omega

/-- A place of a cell's line is where the cell is found. -/
theorem cellAt_lineStart (grid : Grid) (cell : Nat) {y x : Nat} (positive : 0 < grid.columns)
    (line : y < grid.height) (inside : x < grid.width) :
    grid.cellAt ((grid.lineStart cell y + x) / grid.imageWidth)
      ((grid.lineStart cell y + x) % grid.imageWidth) = some (cell, y, x) := by
  have column : cell % grid.columns * (grid.width + 1) + 1 + x < grid.imageWidth :=
    column_lt positive inside
  have position : grid.lineStart cell y + x =
      cell % grid.columns * (grid.width + 1) + 1 + x +
        grid.imageWidth * (cell / grid.columns * (grid.height + 1) + 1 + y) := by
    unfold lineStart
    rw [Nat.mul_comm grid.imageWidth]
    omega
  rw [position, Nat.add_mul_div_left _ _ (by omega), Nat.add_mul_mod_self_left,
    Nat.div_eq_of_lt column, Nat.mod_eq_of_lt column, Nat.zero_add]
  obtain ⟨row, above⟩ := quotient_of_offset (cell / grid.columns) line
  obtain ⟨rank, left⟩ := quotient_of_offset (cell % grid.columns) inside
  unfold cellAt
  rw [row, above, rank, left, if_neg (by omega), Nat.add_sub_cancel, Nat.add_sub_cancel,
    Nat.mul_comm, Nat.div_add_mod]

/-- A place that is a cell's is on that cell's line. -/
theorem lineStart_cellAt {position cell y x : Nat} (positive : 0 < grid.columns)
    (found : grid.cellAt (position / grid.imageWidth) (position % grid.imageWidth) =
      some (cell, y, x)) :
    y < grid.height ∧ x < grid.width ∧ position = grid.lineStart cell y + x := by
  unfold cellAt at found
  split at found
  next => cases found
  next inner =>
    cases found
    obtain ⟨rowInner, columnInner⟩ := not_or.mp inner
    generalize row : position / grid.imageWidth = row' at *
    generalize column : position % grid.imageWidth = column' at *
    have whole : grid.imageWidth * row' + column' = position := by
      rw [← row, ← column]
      exact Nat.div_add_mod position grid.imageWidth
    have rowBound : row' % (grid.height + 1) < grid.height + 1 := Nat.mod_lt row' (Nat.succ_pos _)
    have columnBound : column' % (grid.width + 1) < grid.width + 1 :=
      Nat.mod_lt column' (Nat.succ_pos _)
    have rowWhole := Nat.div_add_mod row' (grid.height + 1)
    have columnWhole := Nat.div_add_mod column' (grid.width + 1)
    have short : column' / (grid.width + 1) < grid.columns := by
      have bound : column' < grid.imageWidth := column ▸ Nat.mod_lt position (Nat.succ_pos _)
      by_contra high
      have reach := Nat.mul_le_mul_left (grid.width + 1) (Nat.le_of_not_lt high)
      unfold imageWidth at bound
      rw [Nat.mul_comm grid.columns] at bound
      omega
    refine ⟨by omega, by omega, ?_⟩
    have rank : (row' / (grid.height + 1) * grid.columns + column' / (grid.width + 1)) /
        grid.columns = row' / (grid.height + 1) := by
      rw [Nat.mul_comm, Nat.mul_add_div positive, Nat.div_eq_of_lt short, Nat.add_zero]
    have place : (row' / (grid.height + 1) * grid.columns + column' / (grid.width + 1)) %
        grid.columns = column' / (grid.width + 1) := by
      rw [Nat.mul_comm, Nat.mul_add_mod, Nat.mod_eq_of_lt short]
    have lines : row' / (grid.height + 1) * (grid.height + 1) + 1 + (row' % (grid.height + 1) - 1) =
        row' := by
      rw [Nat.mul_comm]
      omega
    have columns : column' / (grid.width + 1) * (grid.width + 1) + 1 +
        (column' % (grid.width + 1) - 1) = column' := by
      rw [Nat.mul_comm]
      omega
    unfold lineStart
    rw [rank, place, lines, Nat.add_assoc, columns, Nat.mul_comm row']
    exact whole.symm

/-- A line of a cell in the grid lies inside the image. -/
theorem lineStart_add_lt (grid : Grid) {cell y : Nat} (positive : 0 < grid.columns)
    (row : cell / grid.columns < grid.rows) (line : y < grid.height) :
    grid.lineStart cell y + grid.width < grid.imageWidth * grid.imageHeight := by
  have column : cell % grid.columns + 1 ≤ grid.columns := Nat.mod_lt cell positive
  have across := Nat.mul_le_mul_right (grid.width + 1) column
  rw [Nat.succ_mul] at across
  have down := Nat.mul_le_mul_right (grid.height + 1) (Nat.succ_le_of_lt row)
  rw [Nat.succ_mul] at down
  have last : cell / grid.columns * (grid.height + 1) + 1 + y + 1 ≤ grid.imageHeight := by
    unfold imageHeight
    omega
  have area := Nat.mul_le_mul_left grid.imageWidth last
  rw [Nat.mul_succ] at area
  unfold lineStart
  rw [Nat.mul_comm _ grid.imageWidth]
  have width : cell % grid.columns * (grid.width + 1) + 1 + grid.width < grid.imageWidth := by
    unfold imageWidth
    omega
  omega

end Grid

end StadiumRecomp.Lib
