import Mathlib.Data.List.Basic

/-!
Contract: a list told as runs of items that join the first of their run.

Owns: the collapsing, that the runs expand to the list again, that they follow one another
without a gap, and that no two neighbours could be one.

Does not own: when two items join.
-/

set_option autoImplicit false

namespace StadiumRecomp.Lib

variable {α : Type}

/-- So many like items from a position on. -/
structure Repeat (α : Type) where
  start : Nat
  item : α
  length : Nat
deriving DecidableEq, Repr

namespace Repeat

/-- The runs of a list behind an open one; `next` is the position of the list's first item. -/
def collapseFrom (joins : α → α → Bool) (next : Nat) (current : Repeat α) : List α → List (Repeat α)
  | [] => [current]
  | item :: rest =>
      if joins current.item item then
        collapseFrom joins (next + 1) { current with length := current.length + 1 } rest
      else current :: collapseFrom joins (next + 1) ⟨next, item, 1⟩ rest

/-- The runs of a list that stands from a position on. -/
def collapse (joins : α → α → Bool) (first : Nat) : List α → List (Repeat α)
  | [] => []
  | item :: rest => collapseFrom joins (first + 1) ⟨first, item, 1⟩ rest

def expand (runs : List (Repeat α)) : List α :=
  runs.flatMap fun run => List.replicate run.length run.item

/-- Runs that stand from `first` to `stop` one after another, none empty and none like its
neighbour. -/
def Follows (joins : α → α → Bool) : Nat → Nat → List (Repeat α) → Prop
  | first, stop, [] => first = stop
  | first, stop, run :: rest =>
      run.start = first ∧ 0 < run.length ∧ Follows joins (first + run.length) stop rest ∧
        ∀ next ∈ rest.head?, joins run.item next.item = false

variable {joins : α → α → Bool}

theorem expand_collapseFrom (alike : ∀ left right, joins left right = true → left = right)
    (next : Nat) (current : Repeat α) (items : List α) :
    expand (collapseFrom joins next current items) =
      List.replicate current.length current.item ++ items := by
  induction items generalizing next current with
  | nil => simp [collapseFrom, expand]
  | cons item items inductionHypothesis =>
      rw [collapseFrom]
      split
      next joined =>
        obtain rfl := alike _ _ joined
        rw [inductionHypothesis, List.replicate_succ', List.append_assoc]
        rfl
      next =>
        unfold expand at inductionHypothesis ⊢
        rw [List.flatMap_cons, inductionHypothesis]
        rfl

/-- The runs tell the whole list. -/
theorem expand_collapse (alike : ∀ left right, joins left right = true → left = right)
    (first : Nat) (items : List α) : expand (collapse joins first items) = items := by
  cases items with
  | nil => rfl
  | cons item items => exact expand_collapseFrom alike _ _ items

theorem head?_collapseFrom (joins : α → α → Bool) (next : Nat) (current : Repeat α) (items : List α) :
    ∃ run, (collapseFrom joins next current items).head? = some run ∧ run.item = current.item := by
  induction items generalizing next current with
  | nil => exact ⟨current, rfl, rfl⟩
  | cons item items inductionHypothesis =>
      rw [collapseFrom]
      split
      · obtain ⟨run, head, same⟩ :=
          inductionHypothesis (next + 1) { current with length := current.length + 1 }
        exact ⟨run, head, same⟩
      · exact ⟨current, rfl, rfl⟩

theorem follows_collapseFrom {next : Nat} (current : Repeat α) (items : List α)
    (open' : current.start + current.length = next) (some : 0 < current.length) :
    Follows joins current.start (next + items.length)
      (collapseFrom joins next current items) := by
  induction items generalizing next current with
  | nil => exact ⟨rfl, some, open', fun _ ends => by simp at ends⟩
  | cons item items inductionHypothesis =>
      have longer : next + (item :: items).length = next + 1 + items.length := by
        rw [List.length_cons]
        omega
      rw [collapseFrom, longer]
      split
      next =>
        exact inductionHypothesis { current with length := current.length + 1 }
          (by show current.start + (current.length + 1) = next + 1; omega) (Nat.succ_pos _)
      next apart =>
        refine ⟨rfl, some, ?_, ?_⟩
        · rw [open']
          exact inductionHypothesis ⟨next, item, 1⟩ rfl Nat.one_pos
        · intro run head
          obtain ⟨first, found, same⟩ :=
            head?_collapseFrom joins (next + 1) (⟨next, item, 1⟩ : Repeat α) items
          rw [Option.mem_def, found] at head
          obtain rfl := Option.some.inj head
          rw [same]
          exact Bool.eq_false_iff.mpr apart

/-- The runs follow one another over the whole list. -/
theorem follows_collapse (first : Nat) (items : List α) :
    Follows joins first (first + items.length) (collapse joins first items) := by
  cases items with
  | nil => rfl
  | cons item items =>
      have long : first + (item :: items).length = first + 1 + items.length := by
        rw [List.length_cons]
        omega
      rw [long]
      exact follows_collapseFrom ⟨first, item, 1⟩ items rfl Nat.one_pos

end Repeat

end StadiumRecomp.Lib
