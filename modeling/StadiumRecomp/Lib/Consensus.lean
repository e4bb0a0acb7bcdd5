import Mathlib.Data.List.Induction
import Mathlib.Data.List.Perm.Basic
import StadiumRecomp.Lib.Dict

/-!
Contract: streams of keyed values, and the value a key has when all its entries agree.

Owns: the tally of the first values and of the keys that had another one, and that what is left
without those keys is exactly what the entries agree on, whatever their order.

Does not own: what the keys and values are.
-/

set_option autoImplicit false

namespace StadiumRecomp.Lib.Consensus

variable {κ ν : Type} [DecidableEq κ]

/-- The first value of every key, and the keys that had another one later. -/
structure Tally (κ ν : Type) where
  first : Dict κ ν
  mixed : List κ

def Tally.empty : Tally κ ν := ⟨[], []⟩

def Tally.note [DecidableEq ν] (tally : Tally κ ν) (key : κ) (value : ν) : Tally κ ν :=
  match tally.first.get? key with
  | some other =>
      if other ≠ value then { tally with mixed := tally.mixed.insert key }
      else { tally with first := tally.first.set key value }
  | none => { tally with first := tally.first.set key value }

/-- The first values without the mixed keys. -/
def Tally.verdicts (tally : Tally κ ν) : Dict κ ν :=
  tally.first.filter fun entry => entry.1 ∉ tally.mixed

def tallyOf [DecidableEq ν] (entries : List (κ × ν)) : Tally κ ν :=
  entries.foldl (fun tally entry => tally.note entry.1 entry.2) .empty

/-- The key has entries, and all of them have this value. -/
def Agreed (entries : List (κ × ν)) (key : κ) (value : ν) : Prop :=
  (key, value) ∈ entries ∧ ∀ other, (key, other) ∈ entries → other = value

theorem get?_verdicts (tally : Tally κ ν) (key : κ) :
    tally.verdicts.get? key = if key ∈ tally.mixed then none else tally.first.get? key := by
  unfold Tally.verdicts
  induction tally.first with
  | nil => exact (ite_self none).symm
  | cons entry rest inductionHypothesis =>
      by_cases dropped : entry.1 ∈ tally.mixed
      · rw [List.filter_cons_of_neg (by simpa using dropped), inductionHypothesis,
          Dict.get?_cons]
        split
        · rfl
        next kept => rw [if_neg fun same : entry.1 = key => kept (same ▸ dropped)]
      · rw [List.filter_cons_of_pos (by simpa using dropped), Dict.get?_cons, Dict.get?_cons,
          inductionHypothesis]
        by_cases same : entry.1 = key
        · subst same
          rw [if_pos rfl, if_pos rfl, if_neg dropped]
        · rw [if_neg same, if_neg same]

/-! ## The tally -/

/-- What a tally knows of the entries so far. -/
structure Tallies (entries : List (κ × ν)) (tally : Tally κ ν) : Prop where
  seen : ∀ key value, tally.first.get? key = some value → (key, value) ∈ entries
  kept : ∀ key value, (key, value) ∈ entries → ∃ first, tally.first.get? key = some first
  mixed : ∀ key, key ∈ tally.mixed ↔
    ∃ first other, tally.first.get? key = some first ∧ (key, other) ∈ entries ∧ other ≠ first

theorem Tallies.empty : Tallies ([] : List (κ × ν)) .empty where
  seen key value found := by cases found
  kept key value member := absurd member List.not_mem_nil
  mixed key := by
    constructor
    · intro member
      cases member
    · intro ⟨first, other, found, _⟩
      cases found

/-- An entry that repeats the first value of its key, or is the first one. -/
theorem Tallies.set {entries : List (κ × ν)} {tally : Tally κ ν} (tallies : Tallies entries tally)
    {key : κ} {value : ν} (agrees : ∀ first, tally.first.get? key = some first → first = value) :
    Tallies (entries ++ [(key, value)]) { tally with first := tally.first.set key value } := by
  have unchanged (other : κ) (first : ν) (found : tally.first.get? other = some first) :
      (tally.first.set key value).get? other = some first := by
    rw [Dict.get?_set]
    split
    next same =>
      subst same
      rw [agrees first found]
    next => exact found
  constructor
  · intro other first found
    rw [Dict.get?_set] at found
    split at found
    next same =>
      cases found
      subst same
      exact List.mem_append_right _ List.mem_cons_self
    next => exact List.mem_append_left _ (tallies.seen other first found)
  · intro other noted member
    rcases List.mem_append.mp member with earlier | last
    · obtain ⟨first, found⟩ := tallies.kept other noted earlier
      exact ⟨first, unchanged other first found⟩
    · cases List.mem_singleton.mp last
      exact ⟨value, Dict.get?_set_self _ _ _⟩
  · intro other
    rw [tallies.mixed]
    constructor
    · rintro ⟨first, noted, found, member, different⟩
      exact ⟨first, noted, unchanged other first found, List.mem_append_left _ member, different⟩
    · rintro ⟨first, noted, found, member, different⟩
      rcases List.mem_append.mp member with earlier | last
      · obtain ⟨before, foundBefore⟩ := tallies.kept other noted earlier
        rw [unchanged other before foundBefore] at found
        cases found
        exact ⟨first, noted, foundBefore, earlier, different⟩
      · cases List.mem_singleton.mp last
        rw [Dict.get?_set_self] at found
        exact absurd (Option.some.inj found) different

/-- An entry that contradicts the first value of its key. -/
theorem Tallies.mix {entries : List (κ × ν)} {tally : Tally κ ν} (tallies : Tallies entries tally)
    {key : κ} {value first : ν} (found : tally.first.get? key = some first)
    (different : first ≠ value) :
    Tallies (entries ++ [(key, value)]) { tally with mixed := tally.mixed.insert key } := by
  constructor
  · intro other noted here
    exact List.mem_append_left _ (tallies.seen other noted here)
  · intro other noted member
    rcases List.mem_append.mp member with earlier | last
    · exact tallies.kept other noted earlier
    · cases List.mem_singleton.mp last
      exact ⟨first, found⟩
  · intro other
    rw [List.mem_insert_iff, tallies.mixed]
    constructor
    · rintro (same | ⟨before, noted, here, member, apart⟩)
      · subst same
        exact ⟨first, value, found, List.mem_append_right _ List.mem_cons_self, different.symm⟩
      · exact ⟨before, noted, here, List.mem_append_left _ member, apart⟩
    · intro ⟨before, noted, here, member, apart⟩
      rcases List.mem_append.mp member with earlier | last
      · exact Or.inr ⟨before, noted, here, earlier, apart⟩
      · cases List.mem_singleton.mp last
        exact Or.inl rfl

/-! ## Runs -/

section Runs

variable [DecidableEq ν]

theorem Tallies.note {entries : List (κ × ν)} {tally : Tally κ ν} (tallies : Tallies entries tally)
    (key : κ) (value : ν) : Tallies (entries ++ [(key, value)]) (tally.note key value) := by
  unfold Tally.note
  cases found : tally.first.get? key with
  | none =>
      apply tallies.set
      intro first here
      rw [found] at here
      cases here
  | some first =>
      simp only
      split
      next different => exact tallies.mix found different
      next same =>
        apply tallies.set
        intro before here
        rw [found] at here
        cases here
        exact Decidable.not_not.mp same

theorem tallies_tallyOf (entries : List (κ × ν)) : Tallies entries (tallyOf entries) := by
  induction entries using List.reverseRecOn with
  | nil => exact Tallies.empty
  | append_singleton earlier last inductionHypothesis =>
      unfold tallyOf
      rw [List.foldl_concat]
      exact inductionHypothesis.note last.1 last.2

/-- A verdict is what all entries of the key agree on. -/
theorem get?_verdicts_tallyOf {entries : List (κ × ν)} {key : κ} {value : ν} :
    (tallyOf entries).verdicts.get? key = some value ↔ Agreed entries key value := by
  have tallies := tallies_tallyOf entries
  rw [get?_verdicts]
  constructor
  · intro found
    split at found
    · cases found
    next pure =>
      constructor
      · exact tallies.seen key value found
      · intro other member
        by_contra different
        exact pure ((tallies.mixed key).mpr ⟨value, other, found, member, different⟩)
  · rintro ⟨member, agreed⟩
    obtain ⟨first, found⟩ := tallies.kept key value member
    have same := agreed first (tallies.seen key first found)
    subst same
    rw [if_neg]
    · exact found
    · intro mixed
      obtain ⟨before, other, here, noted, different⟩ := (tallies.mixed key).mp mixed
      rw [found] at here
      cases here
      exact different (agreed other noted)

/-- The order of the entries does not matter. -/
theorem verdicts_perm {left right : List (κ × ν)} (perm : left.Perm right) (key : κ) :
    (tallyOf left).verdicts.get? key = (tallyOf right).verdicts.get? key := by
  apply Option.ext
  intro value
  rw [get?_verdicts_tallyOf, get?_verdicts_tallyOf]
  unfold Agreed
  simp only [perm.mem_iff]

end Runs

end StadiumRecomp.Lib.Consensus
