import Mathlib.Data.List.Nodup

/-!
Contract: cells of a list that hold a value computed from other cells.

Owns: seals, rewriting them one after another, and that seals which read no sealed cell all
hold afterwards, whatever the order.

Does not own: what the values are.
-/

set_option autoImplicit false

namespace StadiumRecomp.Lib

/-- A cell and the value it is to hold, which depends only on the cells it reads. -/
structure Seal (α : Type) where
  target : Nat
  reads : Nat → Prop
  value : List α → α
  depends : ∀ {cells other : List α}, (∀ i, reads i → cells[i]? = other[i]?) →
    value cells = value other

namespace Seal

variable {α : Type}

def write (cells : List α) (sealed : Seal α) : List α :=
  cells.set sealed.target (sealed.value cells)

def Holds (cells : List α) (sealed : Seal α) : Prop :=
  cells[sealed.target]? = some (sealed.value cells)

def writeAll (seals : List (Seal α)) (cells : List α) : List α := seals.foldl write cells

/-- No seal reads a sealed cell, and no two share one. -/
structure Separate (seals : List (Seal α)) : Prop where
  unread : ∀ reader ∈ seals, ∀ sealed ∈ seals, ¬ reader.reads sealed.target
  distinct : (seals.map target).Nodup

theorem length_writeAll (seals : List (Seal α)) (cells : List α) :
    (writeAll seals cells).length = cells.length := by
  induction seals generalizing cells with
  | nil => rfl
  | cons first rest inductionHypothesis =>
      show (writeAll rest (first.write cells)).length = _
      rw [inductionHypothesis]
      exact List.length_set

/-- Only sealed cells change. -/
theorem getElem?_writeAll {seals : List (Seal α)} (cells : List α) {i : Nat}
    (unsealed : ∀ sealed ∈ seals, sealed.target ≠ i) : (writeAll seals cells)[i]? = cells[i]? := by
  induction seals generalizing cells with
  | nil => rfl
  | cons first rest inductionHypothesis =>
      show (writeAll rest (write cells first))[i]? = _
      rw [inductionHypothesis _
        (fun sealed member => unsealed sealed (List.mem_cons_of_mem _ member))]
      exact List.getElem?_set_ne (unsealed first List.mem_cons_self)

theorem value_writeAll {seals : List (Seal α)} (cells : List α) {reader : Seal α}
    (unread : ∀ sealed ∈ seals, ¬ reader.reads sealed.target) :
    reader.value (writeAll seals cells) = reader.value cells := by
  apply reader.depends
  intro i read
  apply getElem?_writeAll
  intro sealed member same
  rw [← same] at read
  exact unread sealed member read

theorem Separate.tail {first : Seal α} {rest : List (Seal α)}
    (separate : Separate (first :: rest)) : Separate rest where
  unread reader member sealed inside :=
    separate.unread reader (List.mem_cons_of_mem _ member) sealed (List.mem_cons_of_mem _ inside)
  distinct := (List.nodup_cons.mp separate.distinct).2

/-- Every seal holds behind the writes. -/
theorem holds_writeAll {seals : List (Seal α)} (separate : Separate seals) {cells : List α}
    (fits : ∀ sealed ∈ seals, sealed.target < cells.length) :
    ∀ sealed ∈ seals, Holds (writeAll seals cells) sealed := by
  induction seals generalizing cells with
  | nil => exact fun sealed member => absurd member List.not_mem_nil
  | cons first rest inductionHypothesis =>
      intro sealed member
      show (writeAll rest (write cells first))[sealed.target]? =
        some (sealed.value (writeAll rest (write cells first)))
      rcases List.mem_cons.mp member with rfl | later
      · have apart : ∀ other ∈ rest, other.target ≠ sealed.target := by
          intro other inside same
          apply (List.nodup_cons.mp separate.distinct).1
          exact List.mem_map.mpr ⟨other, inside, same⟩
        have untouched : sealed.value (write cells sealed) = sealed.value cells := by
          apply sealed.depends
          intro i read
          apply List.getElem?_set_ne
          intro same
          rw [← same] at read
          exact separate.unread sealed member sealed member read
        rw [getElem?_writeAll _ apart, value_writeAll _ (fun other inside =>
          separate.unread sealed member other (List.mem_cons_of_mem _ inside)), untouched]
        exact List.getElem?_set_self (fits sealed member)
      · apply inductionHypothesis separate.tail _ sealed later
        intro other inside
        rw [show (write cells first).length = cells.length from List.length_set]
        exact fits other (List.mem_cons_of_mem _ inside)

/-- Writing a seal that holds changes nothing. -/
theorem write_of_holds {cells : List α} {sealed : Seal α} (holds : Holds cells sealed) :
    write cells sealed = cells := by
  apply List.ext_getElem?
  intro i
  unfold write
  rw [List.getElem?_set]
  split
  next same =>
    rw [← same, holds, if_pos (List.getElem?_eq_some_iff.mp holds).1]
  next => rfl

end Seal

end StadiumRecomp.Lib
