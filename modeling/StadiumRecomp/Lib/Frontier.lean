import Mathlib.Data.Set.Insert
import Mathlib.Logic.Relation

/-!
Contract: graph search in any order, with one shared set of visited nodes.

Owns: reachability from a set of starts, the invariant between visited and pending nodes,
what skipping and visiting a pending node do to it, and that a search without pending nodes
has visited exactly the reachable ones.

Does not own: any order of visits.
-/

set_option autoImplicit false

namespace StadiumRecomp.Lib

variable {α : Type} {starts : Set α} {step : α → α → Prop}

/-- A node reached from some start. -/
def Reached (starts : Set α) (step : α → α → Prop) (node : α) : Prop :=
  ∃ start ∈ starts, Relation.ReflTransGen step start node

/-- Every start, and every successor of a visited node, is visited or pending, and nothing
else is. -/
structure Frontier (starts : Set α) (step : α → α → Prop) (seen pending : Set α) : Prop where
  started : ∀ node ∈ starts, node ∈ seen ∨ node ∈ pending
  closed : ∀ node ∈ seen, ∀ next, step node next → next ∈ seen ∨ next ∈ pending
  seenReached : ∀ node ∈ seen, Reached starts step node
  pendingReached : ∀ node ∈ pending, Reached starts step node

namespace Frontier

variable {seen pending : Set α} {node : α}

/-- Before the first visit the starts are pending. -/
theorem initial : Frontier starts step ∅ starts where
  started := fun _ member => Or.inr member
  closed := fun _ impossible => absurd impossible (Set.notMem_empty _)
  seenReached := fun _ impossible => absurd impossible (Set.notMem_empty _)
  pendingReached := fun start member => ⟨start, member, Relation.ReflTransGen.refl⟩

/-- A visited node need not be pending. -/
theorem skip (frontier : Frontier starts step seen (insert node pending))
    (visited : node ∈ seen) : Frontier starts step seen pending where
  started := by
    intro start member
    rcases frontier.started start member with old | rfl | waits
    · exact Or.inl old
    · exact Or.inl visited
    · exact Or.inr waits
  closed := by
    intro source member next successor
    rcases frontier.closed source member next successor with old | rfl | waits
    · exact Or.inl old
    · exact Or.inl visited
    · exact Or.inr waits
  seenReached := frontier.seenReached
  pendingReached := fun other member => frontier.pendingReached other (Or.inr member)

/-- A visit makes the successors pending. -/
theorem visit (frontier : Frontier starts step seen (insert node pending)) :
    Frontier starts step (insert node seen) (pending ∪ {next | step node next}) where
  started := by
    intro start member
    rcases frontier.started start member with old | rfl | waits
    · exact Or.inl (Or.inr old)
    · exact Or.inl (Or.inl rfl)
    · exact Or.inr (Or.inl waits)
  closed := by
    intro source member next successor
    rcases member with rfl | old
    · exact Or.inr (Or.inr successor)
    · rcases frontier.closed source old next successor with older | rfl | waits
      · exact Or.inl (Or.inr older)
      · exact Or.inl (Or.inl rfl)
      · exact Or.inr (Or.inl waits)
  seenReached := by
    intro other member
    rcases member with rfl | old
    · exact frontier.pendingReached other (Or.inl rfl)
    · exact frontier.seenReached other old
  pendingReached := by
    intro next member
    rcases member with waits | successor
    · exact frontier.pendingReached next (Or.inr waits)
    · obtain ⟨start, isStart, path⟩ := frontier.pendingReached node (Or.inl rfl)
      exact ⟨start, isStart, path.tail successor⟩

/-- A search that has nothing pending has visited the reachable nodes. -/
theorem mem_iff (frontier : Frontier starts step seen ∅) (node : α) :
    node ∈ seen ↔ Reached starts step node := by
  constructor
  · exact frontier.seenReached node
  · intro ⟨start, isStart, path⟩
    induction path with
    | refl =>
        rcases frontier.started start isStart with visited | impossible
        · exact visited
        · exact absurd impossible (Set.notMem_empty _)
    | tail _ successor inductionHypothesis =>
        rcases frontier.closed _ inductionHypothesis _ successor with visited | impossible
        · exact visited
        · exact absurd impossible (Set.notMem_empty _)

end Frontier

end StadiumRecomp.Lib
