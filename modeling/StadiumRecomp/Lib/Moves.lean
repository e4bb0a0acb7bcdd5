/-!
Contract: cells of a list copied over others in place, one after another.

Owns: sequences of moves, and what such a sequence leaves when no move reads a cell that an
earlier one has overwritten.

Does not own: which cells are moved.
-/

set_option autoImplicit false

namespace StadiumRecomp.Lib

/-- `cells[target] = cells[source]`. -/
structure Move where
  source : Nat
  target : Nat
deriving DecidableEq, Repr

namespace Move

variable {α : Type}

def apply (cells : List α) (move : Move) : List α :=
  match cells[move.source]? with
  | some value => cells.set move.target value
  | none => cells

def applyAll (moves : List Move) (cells : List α) : List α := moves.foldl apply cells

/-- A later move neither reads nor overwrites what an earlier one has written. -/
def Ahead (moves : List Move) : Prop :=
  moves.Pairwise fun earlier later =>
    later.source ≠ earlier.target ∧ later.target ≠ earlier.target

theorem length_apply (cells : List α) (move : Move) : (apply cells move).length = cells.length := by
  unfold apply
  split
  · exact List.length_set
  · rfl

theorem getElem?_apply_ne (cells : List α) {move : Move} {i : Nat} (other : i ≠ move.target) :
    (apply cells move)[i]? = cells[i]? := by
  unfold apply
  split
  · exact List.getElem?_set_ne (Ne.symm other)
  · rfl

theorem getElem?_apply {cells : List α} {move : Move} (source : move.source < cells.length)
    (target : move.target < cells.length) :
    (apply cells move)[move.target]? = cells[move.source]? := by
  unfold apply
  rw [List.getElem?_eq_getElem source]
  exact List.getElem?_set_self target

/-- Cells that are no target stay. -/
theorem getElem?_applyAll_of_ne {moves : List Move} (cells : List α) {i : Nat}
    (other : ∀ move ∈ moves, i ≠ move.target) : (applyAll moves cells)[i]? = cells[i]? := by
  induction moves generalizing cells with
  | nil => rfl
  | cons first rest inductionHypothesis =>
      show (applyAll rest (apply cells first))[i]? = _
      rw [inductionHypothesis _ (fun move member => other move (List.mem_cons_of_mem _ member)),
        getElem?_apply_ne cells (other first List.mem_cons_self)]

/-- Moves ahead of what they have written copy the cells as they were. -/
theorem getElem?_applyAll {moves : List Move} (ahead : Ahead moves) {cells : List α}
    (inside : ∀ move ∈ moves, move.source < cells.length ∧ move.target < cells.length) :
    ∀ move ∈ moves, (applyAll moves cells)[move.target]? = cells[move.source]? := by
  induction moves generalizing cells with
  | nil => exact fun move member => absurd member List.not_mem_nil
  | cons first rest inductionHypothesis =>
      obtain ⟨apart, tailAhead⟩ := List.pairwise_cons.mp ahead
      intro move member
      show (applyAll rest (apply cells first))[move.target]? = _
      rcases List.mem_cons.mp member with rfl | later
      · obtain ⟨source, target⟩ := inside move member
        rw [getElem?_applyAll_of_ne _ (fun other inRest => (apart other inRest).2.symm),
          getElem?_apply source target]
      · rw [inductionHypothesis tailAhead _ move later, getElem?_apply_ne cells (apart move later).1]
        intro other inRest
        rw [length_apply]
        exact inside other (List.mem_cons_of_mem _ inRest)

end Move

end StadiumRecomp.Lib
