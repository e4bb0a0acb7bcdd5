import Mathlib.Data.List.Induction
import Mathlib.Logic.Function.Basic

/-!
Contract: a ring of slots behind a count of the items that were put in.

Owns: one push, and what a slot holds after any pushes.

Does not own: the items.
-/

set_option autoImplicit false

namespace StadiumRecomp.Lib

variable {α : Type}

/-- The slots, and how many items were ever put in. -/
structure RingBuffer (α : Type) where
  slots : Nat → α
  count : Nat

namespace RingBuffer

/-- The next item, over the oldest one when the ring is full. -/
def push (capacity : Nat) (ring : RingBuffer α) (item : α) : RingBuffer α :=
  { slots := Function.update ring.slots (ring.count % capacity) item
    count := ring.count + 1 }

def empty (blank : α) : RingBuffer α := ⟨fun _ => blank, 0⟩

variable {capacity : Nat} {blank : α}

theorem count_foldl_push (ring : RingBuffer α) (items : List α) :
    (items.foldl (push capacity) ring).count = ring.count + items.length := by
  induction items generalizing ring with
  | nil => rfl
  | cons item items inductionHypothesis =>
      rw [List.foldl_cons, inductionHypothesis, List.length_cons]
      show ring.count + 1 + items.length = _
      omega

theorem count_empty (items : List α) :
    (items.foldl (push capacity) (empty blank)).count = items.length :=
  (count_foldl_push _ items).trans (Nat.zero_add _)

/-- Of the last `capacity` items each stands in the slot of its number. -/
theorem slots_foldl_push {items : List α} {i : Nat} {item : α} (known : items[i]? = some item)
    (recent : items.length ≤ i + capacity) :
    (items.foldl (push capacity) (empty blank)).slots (i % capacity) = item := by
  induction items using List.reverseRecOn with
  | nil => simp at known
  | append_singleton items last inductionHypothesis =>
      rw [List.foldl_append, List.foldl_cons, List.foldl_nil]
      rw [List.length_append, List.length_singleton] at recent
      show Function.update (items.foldl (push capacity) (empty blank)).slots
        ((items.foldl (push capacity) (empty blank)).count % capacity) last (i % capacity) = item
      rw [count_empty]
      have inside : i < items.length + 1 := by
        have bound := (List.getElem?_eq_some_iff.mp known).1
        rwa [List.length_append] at bound
      by_cases newest : i = items.length
      · subst newest
        rw [Function.update_self]
        simpa using known
      · have older : i < items.length := by omega
        rw [List.getElem?_append_left older] at known
        have apart : i % capacity ≠ items.length % capacity := by
          intro same
          have whole : (items.length - i) % capacity = 0 := Nat.sub_mod_eq_zero_of_mod_eq same.symm
          rw [Nat.mod_eq_of_lt (by omega)] at whole
          omega
        rw [Function.update_of_ne apart]
        exact inductionHypothesis known (by omega)

end RingBuffer

end StadiumRecomp.Lib
