import Mathlib.Data.List.Induction

/-!
Contract: a log that leaves out every entry whose key it remembers, with a memory for so many
keys.

Owns: what such a log holds after any sequence of entries, by keys and by lines.

Does not own: the entries and how they get their keys.
-/

set_option autoImplicit false

namespace StadiumRecomp.Lib

/-- One more key is one more different key, unless it is known. -/
theorem eraseDups_concat {κ : Type} [DecidableEq κ] (known : List κ) (key : κ) :
    (known ++ [key]).eraseDups =
      if key ∈ known then known.eraseDups else known.eraseDups ++ [key] := by
  rw [List.eraseDups_append]
  by_cases member : key ∈ known <;> simp [List.removeAll, member, List.eraseDups_cons]

/-- The remembered keys, and the lines written so far. -/
structure SeenLog (κ ε : Type) where
  seen : List κ
  log : List ε
deriving DecidableEq, Repr

namespace SeenLog

variable {κ ε : Type} [DecidableEq κ]

def empty : SeenLog κ ε := ⟨[], []⟩

/-- A line is written unless its key is remembered; a new key is remembered while there is
room. -/
def note (capacity : Nat) (state : SeenLog κ ε) (entry : κ × ε) : SeenLog κ ε :=
  if entry.1 ∈ state.seen then state
  else
    { seen := if state.seen.length < capacity then state.seen ++ [entry.1] else state.seen
      log := state.log ++ [entry.2] }

def run (capacity : Nat) (entries : List (κ × ε)) : SeenLog κ ε :=
  entries.foldl (note capacity) empty

/-- The different keys, in the order of their first entries. -/
def keys (entries : List (κ × ε)) : List κ := (entries.map Prod.fst).eraseDups

/-- The keys there is room for. -/
def held (capacity : Nat) (entries : List (κ × ε)) : List κ := (keys entries).take capacity

/-- The line of the first entry with a key. -/
def firstLine (key : κ) (entries : List (κ × ε)) : Option ε :=
  (entries.find? fun entry => entry.1 = key).map Prod.snd

section Append

variable {capacity : Nat} {entries : List (κ × ε)} {entry : κ × ε}

theorem mem_keys {key : κ} : key ∈ keys entries ↔ ∃ entry ∈ entries, entry.1 = key := by
  unfold keys
  rw [List.mem_eraseDups, List.mem_map]

theorem mem_keys_of_held {key : κ} (isHeld : key ∈ held capacity entries) : key ∈ keys entries :=
  List.mem_of_mem_take isHeld

theorem keys_append : keys (entries ++ [entry]) =
    if entry.1 ∈ keys entries then keys entries else keys entries ++ [entry.1] := by
  unfold keys
  rw [List.map_append, List.map_singleton, eraseDups_concat]
  simp only [List.mem_eraseDups]

theorem held_append : held capacity (entries ++ [entry]) =
    if entry.1 ∉ keys entries ∧ (keys entries).length < capacity then
      held capacity entries ++ [entry.1]
    else held capacity entries := by
  unfold held
  rw [keys_append]
  by_cases known : entry.1 ∈ keys entries
  · rw [if_pos known, if_neg fun both => both.1 known]
  · rw [if_neg known]
    by_cases room : (keys entries).length < capacity
    · rw [if_pos ⟨known, room⟩, List.take_of_length_le (Nat.le_of_lt room),
        List.take_of_length_le]
      rw [List.length_append]
      exact room
    · rw [if_neg fun both => room both.2, List.take_append_of_le_length (Nat.le_of_not_lt room)]

/-- One more entry changes what is held of its own new key only. -/
theorem mem_held_append {key : κ} (settled : key ∈ keys entries ∨ entry.1 ≠ key) :
    key ∈ held capacity (entries ++ [entry]) ↔ key ∈ held capacity entries := by
  rw [held_append]
  split
  next fresh =>
    have other : key ≠ entry.1 := by
      rcases settled with known | other
      · intro same
        exact fresh.1 (same ▸ known)
      · exact Ne.symm other
    rw [List.mem_append, List.mem_singleton]
    exact ⟨fun either => either.resolve_right other, Or.inl⟩
  next => exact Iff.rfl

theorem run_append : run capacity (entries ++ [entry]) =
    note capacity (run capacity entries) entry := by
  unfold run
  rw [List.foldl_append, List.foldl_cons, List.foldl_nil]

/-- A run remembers the keys there is room for. -/
theorem seen_run (capacity : Nat) (entries : List (κ × ε)) :
    (run capacity entries).seen = held capacity entries := by
  induction entries using List.reverseRecOn with
  | nil => exact List.take_nil.symm
  | append_singleton entries entry inductionHypothesis =>
      have full : (held capacity entries).length < capacity ↔ (keys entries).length < capacity := by
        unfold held
        rw [List.length_take]
        omega
      rw [run_append, held_append]
      unfold note
      rw [inductionHypothesis]
      by_cases isHeld : entry.1 ∈ held capacity entries
      · rw [if_pos isHeld, if_neg fun both => both.1 (mem_keys_of_held isHeld)]
        exact inductionHypothesis
      · rw [if_neg isHeld]
        by_cases room : (keys entries).length < capacity
        · have fresh : entry.1 ∉ keys entries := by
            intro known
            apply isHeld
            unfold held
            rw [List.take_of_length_le (Nat.le_of_lt room)]
            exact known
          rw [if_pos (full.mpr room), if_pos ⟨fresh, room⟩]
        · rw [if_neg fun few => room (full.mp few), if_neg fun both => room both.2]

theorem log_append : (run capacity (entries ++ [entry])).log =
    (run capacity entries).log ++ if entry.1 ∈ held capacity entries then [] else [entry.2] := by
  rw [run_append, ← seen_run]
  unfold note
  split
  · exact (List.append_nil _).symm
  · rfl

theorem firstLine_append_of_mem {key : κ} (known : key ∈ keys entries) :
    firstLine key (entries ++ [entry]) = firstLine key entries := by
  obtain ⟨earlier, member, same⟩ := mem_keys.mp known
  unfold firstLine
  rw [List.find?_append]
  cases found : entries.find? fun entry => entry.1 = key with
  | none => exact absurd (decide_eq_true same) (List.find?_eq_none.mp found earlier member)
  | some first => rfl

theorem firstLine_append_of_not_mem {key : κ} (fresh : key ∉ keys entries) :
    firstLine key (entries ++ [entry]) = if entry.1 = key then some entry.2 else none := by
  have none : (entries.find? fun entry => entry.1 = key) = none := by
    rw [List.find?_eq_none]
    intro earlier member same
    exact fresh (mem_keys.mpr ⟨earlier, member, of_decide_eq_true same⟩)
  unfold firstLine
  rw [List.find?_append, none, Option.none_or, List.find?_singleton]
  by_cases same : entry.1 = key
  · rw [if_pos (decide_eq_true same), if_pos same]
    rfl
  · rw [if_neg (by rw [decide_eq_true_eq]; exact same), if_neg same]
    rfl

end Append

/-- How often lines of one key are written: at most once if there is room for the key, and then
only if they come first under it; else as often as they are offered. -/
theorem countP_log {capacity : Nat} {entries : List (κ × ε)} {key : κ} {wanted : ε → Bool}
    (keyed : ∀ entry ∈ entries, wanted entry.2 = true → entry.1 = key) :
    (run capacity entries).log.countP wanted =
      if key ∈ held capacity entries then (firstLine key entries).toList.countP wanted
      else entries.countP fun entry => wanted entry.2 := by
  induction entries using List.reverseRecOn with
  | nil => rw [if_neg fun isHeld => List.not_mem_nil (mem_keys_of_held isHeld)]; rfl
  | append_singleton entries entry inductionHypothesis =>
      have earlier := inductionHypothesis fun other member =>
        keyed other (List.mem_append_left _ member)
      have silent (other : entry.1 ≠ key) : [entry.2].countP wanted = 0 := by
        rw [List.countP_singleton]
        exact if_neg fun isWanted =>
          other (keyed entry (List.mem_append_right _ List.mem_cons_self) isWanted)
      have written : (if entry.1 ∈ held capacity entries then [] else [entry.2]).countP wanted =
          if key ∈ held capacity entries then 0 else [entry.2].countP wanted := by
        by_cases same : entry.1 = key
        · rw [same]
          split <;> rfl
        · rw [silent same, ite_self]
          split
          · rfl
          · exact silent same
      have offered : [entry].countP (fun entry => wanted entry.2) = [entry.2].countP wanted := by
        rw [List.countP_singleton, List.countP_singleton]
      rw [log_append, List.countP_append, List.countP_append, earlier, written, offered]
      by_cases known : key ∈ keys entries
      · rw [firstLine_append_of_mem known, if_congr (mem_held_append (Or.inl known)) rfl rfl]
        split <;> rfl
      · have none : entries.countP (fun entry => wanted entry.2) = 0 :=
          List.countP_eq_zero.mpr fun other member isWanted => known
            (mem_keys.mpr ⟨other, member, keyed other (List.mem_append_left _ member) isWanted⟩)
        have unheld : key ∉ held capacity entries := fun isHeld => known (mem_keys_of_held isHeld)
        have first : (firstLine key (entries ++ [entry])).toList.countP wanted =
            [entry.2].countP wanted := by
          rw [firstLine_append_of_not_mem known]
          by_cases same : entry.1 = key
          · rw [if_pos same]
            rfl
          · rw [if_neg same, silent same]
            rfl
        rw [if_neg unheld, if_neg unheld, none, first, Nat.zero_add, ite_self]

end SeenLog

end StadiumRecomp.Lib
