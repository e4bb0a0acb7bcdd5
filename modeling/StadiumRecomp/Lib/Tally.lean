import Mathlib.Algebra.GroupWithZero.Nat
import Mathlib.Data.List.Nodup
import Mathlib.Data.List.Perm.Subperm
import StadiumRecomp.Lib.SeenLog

/-!
Contract: a table of so many rows, one for each key that came while there was a free row.

Owns: the update of a row from an event, what the table holds after any sequence of events, and
sums over its rows.

Does not own: the rows and the events.
-/

set_option autoImplicit false

namespace StadiumRecomp.Lib.Tally

variable {κ ε ρ : Type} [DecidableEq κ]

/-- What an event does: it updates the row of its key, or the first free row when there is no
such row and one is free. `free` counts the free rows behind the table. -/
def note (key : ρ → κ) (blank : κ → ρ) (update : ρ → ε → ρ) (free : Nat) (entry : κ × ε) :
    List ρ → List ρ
  | [] => if free = 0 then [] else [update (blank entry.1) entry.2]
  | row :: rest =>
      if key row = entry.1 then update row entry.2 :: rest
      else row :: note key blank update free entry rest

/-- The table after some events, from the empty one. -/
def run (key : ρ → κ) (blank : κ → ρ) (update : ρ → ε → ρ) (capacity : Nat)
    (entries : List (κ × ε)) : List ρ :=
  entries.foldl (fun table entry => note key blank update (capacity - table.length) entry table) []

/-- The events of a key. -/
def eventsOf (key : κ) (entries : List (κ × ε)) : List ε :=
  (entries.filter fun entry => entry.1 = key).map Prod.snd

/-- The row of a key after all its events. -/
def rowOf (blank : κ → ρ) (update : ρ → ε → ρ) (entries : List (κ × ε)) (key : κ) : ρ :=
  (eventsOf key entries).foldl update (blank key)

/-- Rows that know their key. -/
structure Keyed (key : ρ → κ) (blank : κ → ρ) (update : ρ → ε → ρ) : Prop where
  blank : ∀ k, key (blank k) = k
  update : ∀ row event, key (update row event) = key row

variable {key : ρ → κ} {blank : κ → ρ} {update : ρ → ε → ρ}

theorem eventsOf_append (k : κ) (entries : List (κ × ε)) (entry : κ × ε) :
    eventsOf k (entries ++ [entry]) =
      eventsOf k entries ++ if entry.1 = k then [entry.2] else [] := by
  unfold eventsOf
  rw [List.filter_append, List.map_append]
  by_cases same : entry.1 = k
  · rw [if_pos same, List.filter_cons_of_pos (by simpa using same)]
    rfl
  · rw [if_neg same, List.filter_cons_of_neg (by simpa using same)]
    rfl

theorem rowOf_append (entries : List (κ × ε)) (entry : κ × ε) (k : κ) :
    rowOf blank update (entries ++ [entry]) k =
      if entry.1 = k then update (rowOf blank update entries k) entry.2
      else rowOf blank update entries k := by
  unfold rowOf
  rw [eventsOf_append, List.foldl_append]
  split <;> rfl

theorem Keyed.rowOf (keyed : Keyed key blank update) (entries : List (κ × ε)) (k : κ) :
    key (rowOf blank update entries k) = k := by
  unfold Tally.rowOf
  generalize eventsOf k entries = events
  suffices kept : ∀ row, key row = k → key (events.foldl update row) = k from
    kept (blank k) (keyed.blank k)
  induction events with
  | nil => exact fun row same => same
  | cons event events inductionHypothesis =>
      exact fun row same => inductionHypothesis _ ((keyed.update row event).trans same)

/-- One event on rows of different keys. -/
theorem note_map {keys : List κ} {rows : κ → ρ} (named : ∀ k, key (rows k) = k)
    (distinct : keys.Nodup) (free : Nat) (entry : κ × ε) :
    note key blank update free entry (keys.map rows) =
      if entry.1 ∈ keys then
        keys.map fun k => if entry.1 = k then update (rows k) entry.2 else rows k
      else keys.map rows ++ if free = 0 then [] else [update (blank entry.1) entry.2] := by
  induction keys with
  | nil => rfl
  | cons k keys inductionHypothesis =>
      obtain ⟨fresh, distinct⟩ := List.nodup_cons.mp distinct
      rw [List.map_cons, note, named, inductionHypothesis distinct]
      by_cases here : k = entry.1
      · subst here
        have rest : keys.map (fun k => if entry.1 = k then update (rows k) entry.2 else rows k) =
            keys.map rows :=
          List.map_congr_left fun k member => if_neg fun same : entry.1 = k => fresh (same ▸ member)
        rw [if_pos rfl, if_pos List.mem_cons_self, List.map_cons, if_pos rfl, rest]
      · rw [if_neg here]
        by_cases known : entry.1 ∈ keys
        · rw [if_pos known, if_pos (List.mem_cons_of_mem k known), List.map_cons,
            if_neg (Ne.symm here)]
        · have absent : entry.1 ∉ k :: keys := by
            rintro (_ | later)
            · exact here rfl
            · exact known (by assumption)
          rw [if_neg known, if_neg absent]
          rfl

theorem keys_nodup (entries : List (κ × ε)) : (SeenLog.keys entries).Nodup := by
  induction entries using List.reverseRecOn with
  | nil => exact List.nodup_nil
  | append_singleton entries entry inductionHypothesis =>
      rw [SeenLog.keys_append]
      split
      next => exact inductionHypothesis
      next fresh =>
        rw [← List.concat_eq_append]
        exact List.Nodup.concat fresh inductionHypothesis

theorem rowOf_of_not_mem {entries : List (κ × ε)} {k : κ} (fresh : k ∉ SeenLog.keys entries) :
    rowOf blank update entries k = blank k := by
  have none : entries.filter (fun entry => entry.1 = k) = [] :=
    List.filter_eq_nil_iff.mpr fun entry member => by
      simp only [decide_eq_true_eq]
      exact fun same => fresh (SeenLog.mem_keys.mpr ⟨entry, member, same⟩)
  unfold rowOf eventsOf
  rw [none]
  rfl

/-- **What the table holds**: a row for each of the first keys there is room for, with all the
events of its key. -/
theorem run_eq (keyed : Keyed key blank update) (capacity : Nat) (entries : List (κ × ε)) :
    run key blank update capacity entries =
      (SeenLog.held capacity entries).map (rowOf blank update entries) := by
  induction entries using List.reverseRecOn with
  | nil =>
      show [] = List.map _ (List.take capacity [])
      rw [List.take_nil, List.map_nil]
  | append_singleton entries entry inductionHypothesis =>
      have distinct : (SeenLog.held capacity entries).Nodup :=
        (keys_nodup entries).sublist (List.take_sublist _ _)
      have size : (SeenLog.held capacity entries).length =
          min capacity (SeenLog.keys entries).length := List.length_take
      have rows : (SeenLog.held capacity entries).map (rowOf blank update (entries ++ [entry])) =
          (SeenLog.held capacity entries).map fun k =>
            if entry.1 = k then update (rowOf blank update entries k) entry.2
            else rowOf blank update entries k :=
        List.map_congr_left fun k _ => rowOf_append entries entry k
      unfold run at inductionHypothesis ⊢
      rw [List.foldl_append, List.foldl_cons, List.foldl_nil, inductionHypothesis, List.length_map,
        note_map (keyed.rowOf entries) distinct, SeenLog.held_append]
      by_cases known : entry.1 ∈ SeenLog.held capacity entries
      · rw [if_pos known, if_neg fun both => both.1 (SeenLog.mem_keys_of_held known), rows]
      · have kept : (SeenLog.held capacity entries).map
            (rowOf blank update (entries ++ [entry])) =
              (SeenLog.held capacity entries).map (rowOf blank update entries) := by
          rw [rows]
          exact List.map_congr_left fun k member =>
            if_neg fun same : entry.1 = k => known (same ▸ member)
        rw [if_neg known]
        by_cases room : (SeenLog.keys entries).length < capacity
        · have fresh : entry.1 ∉ SeenLog.keys entries := by
            intro member
            apply known
            unfold SeenLog.held
            rwa [List.take_of_length_le (Nat.le_of_lt room)]
          have free : capacity - (SeenLog.held capacity entries).length ≠ 0 := by omega
          rw [if_neg free, if_pos ⟨fresh, room⟩, List.map_append, kept, List.map_singleton,
            rowOf_append, if_pos rfl, rowOf_of_not_mem fresh]
        · have full : capacity - (SeenLog.held capacity entries).length = 0 := by omega
          rw [if_pos full, if_neg fun both => room both.2, kept, List.append_nil]

/-- The events of different keys, counted together. -/
theorem sum_length_eventsOf {keys : List κ} (distinct : keys.Nodup) (entries : List (κ × ε)) :
    (keys.map fun k => (eventsOf k entries).length).sum =
      entries.countP fun entry => entry.1 ∈ keys := by
  have one : ∀ k, (eventsOf k entries).length = entries.countP fun entry => entry.1 = k := by
    intro k
    unfold eventsOf
    rw [List.length_map, ← List.countP_eq_length_filter]
  simp only [one]
  induction keys with
  | nil => exact (List.countP_eq_zero.mpr fun entry _ => by simp).symm
  | cons k keys inductionHypothesis =>
      obtain ⟨fresh, distinct⟩ := List.nodup_cons.mp distinct
      rw [List.map_cons, List.sum_cons, inductionHypothesis distinct]
      clear one inductionHypothesis
      induction entries with
      | nil => rfl
      | cons entry entries inductionHypothesis =>
          rw [List.countP_cons, List.countP_cons, List.countP_cons, ← inductionHypothesis]
          by_cases here : entry.1 = k
          · have other : entry.1 ∉ keys := fun member => fresh (here ▸ member)
            simp [here, here ▸ other]
            omega
          · simp [here]
            omega

/-- Every event has a row exactly if there is a row for every key. -/
theorem countP_held_eq_length (capacity : Nat) (entries : List (κ × ε)) :
    (entries.countP fun entry => entry.1 ∈ SeenLog.held capacity entries) = entries.length ↔
      (SeenLog.keys entries).length ≤ capacity := by
  rw [List.countP_eq_length]
  constructor
  · intro all
    have kept : SeenLog.keys entries ⊆ SeenLog.held capacity entries := fun k member => by
      obtain ⟨entry, listed, rfl⟩ := SeenLog.mem_keys.mp member
      exact of_decide_eq_true (all entry listed)
    have short := ((keys_nodup entries).subperm kept).length_le
    unfold SeenLog.held at short
    rw [List.length_take] at short
    omega
  · intro room entry member
    unfold SeenLog.held
    rw [List.take_of_length_le room]
    exact decide_eq_true (SeenLog.mem_keys.mpr ⟨entry, member, rfl⟩)

end StadiumRecomp.Lib.Tally
