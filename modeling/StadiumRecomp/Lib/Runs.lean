import Mathlib.Order.Nat

/-!
Contract: maximal runs of a predicate on an interval of naturals.

Owns: the runs, that every accepted position lies in one, and that it lies in only one.

Does not own: what is accepted.
-/

set_option autoImplicit false

namespace StadiumRecomp.Lib

variable {accepts : Nat → Prop} {base stop : Nat}

/-- A longest stretch `[first, last)` of `[base, stop)` whose positions are all accepted. -/
structure MaximalRun (accepts : Nat → Prop) (base stop first last : Nat) : Prop where
  low : base ≤ first
  nonempty : first < last
  high : last ≤ stop
  accepted : ∀ position, first ≤ position → position < last → accepts position
  opens : first = base ∨ ¬ accepts (first - 1)
  closes : last = stop ∨ ¬ accepts last

theorem exists_run_end {position : Nat} (inside : position < stop) (here : accepts position) :
    ∃ last, position < last ∧ last ≤ stop ∧
      (∀ other, position ≤ other → other < last → accepts other) ∧
      (last = stop ∨ ¬ accepts last) := by
  generalize distance : stop - position = room
  induction room generalizing position with
  | zero => omega
  | succ room inductionHypothesis =>
      by_cases ends : position + 1 = stop ∨ ¬ accepts (position + 1)
      · refine ⟨position + 1, Nat.lt_succ_self _, inside, ?_, ends⟩
        intro other above below
        have same : other = position := by omega
        exact same ▸ here
      · obtain ⟨notStop, goesOn⟩ := not_or.mp ends
        obtain ⟨last, above, below, accepted, closes⟩ :=
          inductionHypothesis (by omega) (not_not.mp goesOn) (by omega)
        refine ⟨last, Nat.lt_of_succ_lt above, below, ?_, closes⟩
        intro other lower upper
        rcases Nat.eq_or_lt_of_le lower with same | later
        · exact same ▸ here
        · exact accepted other later upper

theorem exists_run_start {position : Nat} (inside : base ≤ position) (here : accepts position) :
    ∃ first, base ≤ first ∧ first ≤ position ∧
      (∀ other, first ≤ other → other ≤ position → accepts other) ∧
      (first = base ∨ ¬ accepts (first - 1)) := by
  induction position, inside using Nat.le_induction with
  | base =>
      refine ⟨base, Nat.le_refl _, Nat.le_refl _, ?_, Or.inl rfl⟩
      intro other above below
      exact Nat.le_antisymm above below ▸ here
  | succ position low inductionHypothesis =>
      by_cases before : accepts position
      · obtain ⟨first, above, below, accepted, opens⟩ := inductionHypothesis before
        refine ⟨first, above, Nat.le_succ_of_le below, ?_, opens⟩
        intro other lower upper
        rcases Nat.eq_or_lt_of_le upper with same | earlier
        · exact same ▸ here
        · exact accepted other lower (Nat.le_of_lt_succ earlier)
      · refine ⟨position + 1, Nat.le_succ_of_le low, Nat.le_refl _, ?_, Or.inr before⟩
        intro other lower upper
        exact Nat.le_antisymm lower upper ▸ here

/-- Every accepted position lies in a maximal run. -/
theorem exists_maximalRun {position : Nat} (low : base ≤ position) (high : position < stop)
    (here : accepts position) :
    ∃ first last, MaximalRun accepts base stop first last ∧ first ≤ position ∧
      position < last := by
  obtain ⟨first, above, before, acceptedBefore, opens⟩ := exists_run_start low here
  obtain ⟨last, after, below, acceptedAfter, closes⟩ := exists_run_end high here
  refine ⟨first, last, ⟨above, by omega, below, ?_, opens, closes⟩, before, after⟩
  intro other lower upper
  rcases Nat.le_total other position with earlier | later
  · exact acceptedBefore other lower earlier
  · exact acceptedAfter other later upper

namespace MaximalRun

variable {first last : Nat}

/-- Accepted positions that continue a run belong to it. -/
theorem le_last (run : MaximalRun accepts base stop first last) {position next : Nat}
    (before : position ≤ last) (bound : next ≤ stop)
    (accepted : ∀ other, position ≤ other → other < next → accepts other) : next ≤ last := by
  by_contra beyond
  rcases run.closes with same | stops
  · omega
  · exact stops (accepted last before (by omega))

/-- Accepted positions that lead up to a run belong to it. -/
theorem first_le (run : MaximalRun accepts base stop first last) {position next : Nat}
    (bound : base ≤ next) (before : first ≤ position)
    (accepted : ∀ other, next ≤ other → other < position → accepts other) : first ≤ next := by
  by_contra beyond
  rcases run.opens with same | stops
  · omega
  · exact stops (accepted (first - 1) (by omega) (by omega))

/-- A position lies in one maximal run only. -/
theorem unique {otherFirst otherLast position : Nat}
    (run : MaximalRun accepts base stop first last)
    (other : MaximalRun accepts base stop otherFirst otherLast)
    (inside : first ≤ position ∧ position < last)
    (alsoInside : otherFirst ≤ position ∧ position < otherLast) :
    first = otherFirst ∧ last = otherLast := by
  have ends : last ≤ otherLast := other.le_last (Nat.le_of_lt alsoInside.2) run.high
    (fun position above below => run.accepted position (by omega) below)
  have ends' : otherLast ≤ last := run.le_last (Nat.le_of_lt inside.2) other.high
    (fun position above below => other.accepted position (by omega) below)
  have starts : otherFirst ≤ first := other.first_le run.low alsoInside.1
    (fun position above below => run.accepted position above (by omega))
  have starts' : first ≤ otherFirst := run.first_le other.low inside.1
    (fun position above below => other.accepted position above (by omega))
  omega

end MaximalRun

end StadiumRecomp.Lib
