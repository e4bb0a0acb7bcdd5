import Mathlib.Data.List.Basic
import Mathlib.Order.Nat

/-!
Contract: selection sort by swaps, greatest key first.

Owns: the search for the first greatest item, the sort, that it rearranges its items, and that no
later item has a greater key.

Does not own: the items and their keys.
-/

set_option autoImplicit false

namespace StadiumRecomp.Lib.SelectionSort

variable {α : Type}

/-- The first item with the greatest key, with its position; the best so far stands at `at'`
and the rest from `here` on. -/
def findBest (key : α → Nat) (best : α) (at' here : Nat) : List α → Nat × α
  | [] => (at', best)
  | item :: rest =>
      if key best < key item then findBest key item here (here + 1) rest
      else findBest key best at' (here + 1) rest

/-- The items from each position on: the best of them changes places with the first. -/
def sortFrom (key : α → Nat) : Nat → List α → List α
  | _, [] => []
  | 0, items => items
  | left + 1, first :: rest =>
      match findBest key first 0 1 rest with
      | (0, _) => first :: sortFrom key left rest
      | (place + 1, best) => best :: sortFrom key left (rest.set place first)

def sort (key : α → Nat) (items : List α) : List α := sortFrom key items.length items

variable {key : α → Nat}

/-- The best is the one so far or one of the rest, and none has a greater key. -/
theorem findBest_spec (key : α → Nat) (best : α) (at' here : Nat) (rest : List α) :
    let found := findBest key best at' here rest
    (found = (at', best) ∨ ∃ place, found.1 = here + place ∧ rest[place]? = some found.2) ∧
      key best ≤ key found.2 ∧ ∀ item ∈ rest, key item ≤ key found.2 := by
  induction rest generalizing best at' here with
  | nil => exact ⟨Or.inl rfl, Nat.le_refl _, fun _ member => absurd member List.not_mem_nil⟩
  | cons item rest inductionHypothesis =>
      rw [findBest]
      split
      next greater =>
        obtain ⟨found, least, all⟩ := inductionHypothesis item here (here + 1)
        refine ⟨Or.inr ?_, Nat.le_trans (Nat.le_of_lt greater) least, ?_⟩
        · rcases found with same | ⟨place, index, value⟩
          · exact ⟨0, congrArg Prod.fst same, by rw [same]; rfl⟩
          · exact ⟨place + 1, by omega, value⟩
        · exact List.forall_mem_cons.mpr ⟨least, all⟩
      next notGreater =>
        obtain ⟨found, least, all⟩ := inductionHypothesis best at' (here + 1)
        refine ⟨?_, least, List.forall_mem_cons.mpr
          ⟨Nat.le_trans (Nat.le_of_not_lt notGreater) least, all⟩⟩
        rcases found with same | ⟨place, index, value⟩
        · exact Or.inl same
        · exact Or.inr ⟨place + 1, by omega, value⟩

theorem swap_perm {rest : List α} {place : Nat} {best : α} (first : α)
    (found : rest[place]? = some best) : (best :: rest.set place first).Perm (first :: rest) := by
  obtain ⟨inside, rfl⟩ := List.getElem?_eq_some_iff.mp found
  have whole : rest.take place ++ rest[place] :: rest.drop (place + 1) = rest := by
    rw [List.getElem_cons_drop, List.take_append_drop]
  have swapped : (rest[place] :: (rest.take place ++ first :: rest.drop (place + 1))).Perm
      (first :: (rest.take place ++ rest[place] :: rest.drop (place + 1))) :=
    (List.Perm.cons _ List.perm_middle).trans
      ((List.Perm.swap _ _ _).trans (List.Perm.cons _ List.perm_middle.symm))
  rw [whole] at swapped
  rwa [List.set_eq_take_append_cons_drop, if_pos inside]

theorem sortFrom_spec {left : Nat} {items : List α} (enough : items.length ≤ left) :
    (sortFrom key left items).Perm items ∧
      (sortFrom key left items).Pairwise fun front back => key back ≤ key front := by
  induction left generalizing items with
  | zero =>
      obtain rfl := List.eq_nil_of_length_eq_zero (Nat.le_zero.mp enough)
      exact ⟨List.Perm.nil, List.Pairwise.nil⟩
  | succ left inductionHypothesis =>
      cases items with
      | nil => exact ⟨List.Perm.nil, List.Pairwise.nil⟩
      | cons first rest =>
          have short : rest.length ≤ left := Nat.le_of_succ_le_succ enough
          obtain ⟨found, least, all⟩ := findBest_spec key first 0 1 rest
          rw [sortFrom]
          generalize findBest key first 0 1 rest = result at found least all
          obtain ⟨place, best⟩ := result
          cases place with
          | zero =>
              have same : best = first := by
                rcases found with same | ⟨place, index, -⟩
                · exact congrArg Prod.snd same
                · have apart : 0 = 1 + place := index
                  omega
              subst same
              obtain ⟨perm, sorted⟩ := inductionHypothesis short
              refine ⟨perm.cons _, List.pairwise_cons.mpr ⟨fun item member => ?_, sorted⟩⟩
              exact all item (perm.mem_iff.mp member)
          | succ place =>
              have value : rest[place]? = some best := by
                rcases found with same | ⟨place', index, value⟩
                · exact absurd (congrArg Prod.fst same) (Nat.succ_ne_zero place)
                · have same : place + 1 = 1 + place' := index
                  obtain rfl : place = place' := by omega
                  exact value
              have long : (rest.set place first).length ≤ left := by rwa [List.length_set]
              obtain ⟨perm, sorted⟩ := inductionHypothesis long
              refine ⟨(perm.cons _).trans (swap_perm first value),
                List.pairwise_cons.mpr ⟨fun item member => ?_, sorted⟩⟩
              rcases List.mem_or_eq_of_mem_set (perm.mem_iff.mp member) with old | new
              · exact all item old
              · exact new ▸ least

theorem sort_perm (items : List α) : (sort key items).Perm items :=
  (sortFrom_spec (Nat.le_refl _)).1

theorem sort_pairwise (items : List α) :
    (sort key items).Pairwise fun front back => key back ≤ key front :=
  (sortFrom_spec (Nat.le_refl _)).2

end StadiumRecomp.Lib.SelectionSort
