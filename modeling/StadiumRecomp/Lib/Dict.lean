import Mathlib.Data.List.Basic

/-!
Contract: finite maps kept as association lists in insertion order.

Owns: `set` (overwrite in place, append a new key at the end), `setDefault`,
the lookup laws of both, and the law that a run of writes leaves each key with
its last written value.

Does not own: any particular table. Python's `dict` and the two C++ map types
are all instances; none of their readers depends on iteration order beyond what
`set` fixes.
-/

set_option autoImplicit false

namespace StadiumRecomp.Lib

/-- An insertion-ordered map. -/
abbrev Dict (κ ν : Type) := List (κ × ν)

namespace Dict

variable {κ ν : Type}

variable [DecidableEq κ]

/-- The value a key currently has. -/
def get? (dict : Dict κ ν) (key : κ) : Option ν :=
  (dict.find? (fun entry => entry.1 = key)).map Prod.snd

/-- Overwrite `key` where it stands, or append it. -/
def set : Dict κ ν → κ → ν → Dict κ ν
  | [], key, value => [(key, value)]
  | entry :: rest, key, value =>
      if entry.1 = key then (key, value) :: rest
      else entry :: set rest key value

/-- Write `key` only when it has no value yet. -/
def setDefault (dict : Dict κ ν) (key : κ) (value : ν) : Dict κ ν :=
  if (get? dict key).isSome then dict else set dict key value

/-- Run a list of writes from an initial map. -/
def writes (dict : Dict κ ν) (entries : List (κ × ν)) : Dict κ ν :=
  entries.foldl (fun current entry => set current entry.1 entry.2) dict

/-- The value of the last entry of `entries` that writes `key`. -/
def lastWrite : List (κ × ν) → κ → Option ν
  | [], _ => none
  | entry :: rest, key =>
      match lastWrite rest key with
      | some value => some value
      | none => if entry.1 = key then some entry.2 else none

@[simp] theorem get?_nil (key : κ) : get? ([] : Dict κ ν) key = none := rfl

theorem get?_cons (entry : κ × ν) (rest : Dict κ ν) (key : κ) :
    get? (entry :: rest) key =
      if entry.1 = key then some entry.2 else get? rest key := by
  unfold get?
  by_cases equal : entry.1 = key <;> simp [equal]

theorem get?_set (dict : Dict κ ν) (key : κ) (value : ν) (other : κ) :
    get? (set dict key value) other =
      if key = other then some value else get? dict other := by
  induction dict with
  | nil => simp [set, get?_cons]
  | cons entry rest inductionHypothesis =>
      simp only [set]
      by_cases here : entry.1 = key
      · rw [if_pos here, get?_cons, get?_cons]
        by_cases equal : key = other
        · simp [equal]
        · simp [equal, here]
      · rw [if_neg here, get?_cons, inductionHypothesis, get?_cons]
        by_cases equal : key = other
        · subst equal
          simp [here]
        · simp [equal]

@[simp] theorem get?_set_self (dict : Dict κ ν) (key : κ) (value : ν) :
    get? (set dict key value) key = some value := by
  simp [get?_set]

/-- A run of writes leaves each key with the last value written to it. -/
theorem get?_writes (entries : List (κ × ν)) (dict : Dict κ ν) (key : κ) :
    get? (writes dict entries) key =
      (lastWrite entries key).or (get? dict key) := by
  induction entries generalizing dict with
  | nil => simp [writes, lastWrite]
  | cons entry rest inductionHypothesis =>
      have unfolded : writes dict (entry :: rest) =
          writes (set dict entry.1 entry.2) rest := rfl
      rw [unfolded, inductionHypothesis, get?_set]
      cases later : lastWrite rest key with
      | some value => simp [lastWrite, later]
      | none =>
          by_cases equal : entry.1 = key <;> simp [lastWrite, later, equal]

theorem lastWrite_append (left right : List (κ × ν)) (key : κ) :
    lastWrite (left ++ right) key =
      (lastWrite right key).or (lastWrite left key) := by
  induction left with
  | nil => simp [lastWrite]
  | cons entry rest inductionHypothesis =>
      simp only [List.cons_append, lastWrite, inductionHypothesis]
      cases lastWrite right key <;> simp

theorem lastWrite_eq_none_iff (entries : List (κ × ν)) (key : κ) :
    lastWrite entries key = none ↔ ∀ entry ∈ entries, entry.1 ≠ key := by
  induction entries with
  | nil => simp [lastWrite]
  | cons entry rest inductionHypothesis =>
      simp only [lastWrite, List.mem_cons, forall_eq_or_imp]
      rw [← inductionHypothesis]
      cases lastWrite rest key with
      | some value => simp
      | none => simp

theorem mem_of_lastWrite {entries : List (κ × ν)} {key : κ} {value : ν}
    (found : lastWrite entries key = some value) : (key, value) ∈ entries := by
  induction entries with
  | nil => simp [lastWrite] at found
  | cons entry rest inductionHypothesis =>
      simp only [lastWrite] at found
      cases later : lastWrite rest key with
      | some last =>
          rw [later] at found
          cases found
          exact List.mem_cons_of_mem _ (inductionHypothesis later)
      | none =>
          rw [later] at found
          by_cases equal : entry.1 = key
          · simp only [equal, if_true, Option.some.injEq] at found
            have same : entry = (key, value) := Prod.ext equal found
            simp [same]
          · simp [equal] at found

/-- Writing `value key` for each key of a list, in any order and any number of
times. -/
theorem lastWrite_map_of_mem (keys : List κ) (value : κ → ν) {key : κ}
    (member : key ∈ keys) :
    lastWrite (keys.map (fun key => (key, value key))) key = some (value key) := by
  induction keys with
  | nil => simp at member
  | cons head rest inductionHypothesis =>
      simp only [List.map_cons, lastWrite]
      by_cases later : key ∈ rest
      · rw [inductionHypothesis later]
      · have equal : head = key := by
          rcases List.mem_cons.mp member with same | inside
          · exact same.symm
          · exact absurd inside later
        subst equal
        have noLater : lastWrite (rest.map (fun key => (key, value key))) head = none := by
          rw [lastWrite_eq_none_iff]
          intro entry inside
          obtain ⟨other, otherMember, rfl⟩ := List.mem_map.mp inside
          intro same
          exact later (same ▸ otherMember)
        simp [noLater]

theorem lastWrite_map_snd {μ : Type} (entries : List (κ × ν)) (value : ν → μ) (key : κ) :
    lastWrite (entries.map (fun entry => (entry.1, value entry.2))) key =
      (lastWrite entries key).map value := by
  induction entries with
  | nil => rfl
  | cons entry rest inductionHypothesis =>
      simp only [List.map_cons, lastWrite, inductionHypothesis]
      cases lastWrite rest key with
      | some last => rfl
      | none => by_cases same : entry.1 = key <;> simp [same]

theorem lastWrite_filterMap_cons {ι : Type} (reader : ι → Option (κ × ν)) (line : ι)
    (rest : List ι) (key : κ) :
    lastWrite ((line :: rest).filterMap reader) key =
      (lastWrite (rest.filterMap reader) key).or (lastWrite (reader line).toList key) := by
  rw [← lastWrite_append]
  cases read : reader line <;> simp [read]

/-- Two readers that write two keys alike line by line leave them alike. -/
theorem lastWrite_filterMap_congr {ι κ' : Type} [DecidableEq κ'] {lines : List ι} {key : κ}
    {other : κ'} {left : ι → Option (κ × ν)} {right : ι → Option (κ' × ν)}
    (same : ∀ line ∈ lines,
      lastWrite (left line).toList key = lastWrite (right line).toList other) :
    lastWrite (lines.filterMap left) key = lastWrite (lines.filterMap right) other := by
  induction lines with
  | nil => rfl
  | cons line rest inductionHypothesis =>
      rw [lastWrite_filterMap_cons, lastWrite_filterMap_cons, same line List.mem_cons_self,
        inductionHypothesis (fun other member => same other (List.mem_cons_of_mem _ member))]

theorem lastWrite_toList_eq_some_iff {entry : Option (κ × ν)} {key : κ} {value : ν} :
    lastWrite entry.toList key = some value ↔ entry = some (key, value) := by
  cases entry with
  | none => simp [lastWrite]
  | some pair =>
      obtain ⟨other, written⟩ := pair
      by_cases same : other = key <;> simp [lastWrite, same]

/-- A reader that skips some values of a key keeps the last one, when that one is
not skipped. -/
theorem lastWrite_filterMap_of_kept {ι : Type} {lines : List ι} {key : κ} {value : ν}
    {entry kept : ι → Option (κ × ν)} {keeps : ν → Prop}
    (same : ∀ line ∈ lines, ∀ value,
      kept line = some (key, value) ↔ entry line = some (key, value) ∧ keeps value)
    (last : lastWrite (lines.filterMap entry) key = some value) (keptValue : keeps value) :
    lastWrite (lines.filterMap kept) key = some value := by
  induction lines with
  | nil => simp [lastWrite] at last
  | cons line rest inductionHypothesis =>
      have restSame := fun other member => same other (List.mem_cons_of_mem line member)
      rw [lastWrite_filterMap_cons] at last ⊢
      cases later : lastWrite (rest.filterMap entry) key with
      | some found =>
          rw [later, Option.some_or] at last
          rw [inductionHypothesis restSame (later.trans last), Option.some_or]
      | none =>
          rw [later, Option.none_or, lastWrite_toList_eq_some_iff] at last
          have laterKept : lastWrite (rest.filterMap kept) key = none := by
            rw [lastWrite_eq_none_iff] at later ⊢
            intro ⟨other, written⟩ member sameKey
            obtain ⟨source, inRest, read⟩ := List.mem_filterMap.mp member
            simp only at sameKey
            rw [sameKey] at read
            have readByBoth := ((restSame source inRest written).mp read).1
            exact later (key, written) (List.mem_filterMap.mpr ⟨source, inRest, readByBoth⟩) rfl
          rw [laterKept, Option.none_or, lastWrite_toList_eq_some_iff]
          exact (same line List.mem_cons_self value).mpr ⟨last, keptValue⟩

/-- When every value of a key is skipped, nothing is read for it. -/
theorem lastWrite_filterMap_of_skipped {ι : Type} {lines : List ι} {key : κ}
    {entry kept : ι → Option (κ × ν)} {keeps : ν → Prop}
    (same : ∀ line ∈ lines, ∀ value,
      kept line = some (key, value) ↔ entry line = some (key, value) ∧ keeps value)
    (skipped : ∀ value, (key, value) ∈ lines.filterMap entry → ¬ keeps value) :
    lastWrite (lines.filterMap kept) key = none := by
  rw [lastWrite_eq_none_iff]
  intro ⟨other, written⟩ member sameKey
  obtain ⟨source, inLines, read⟩ := List.mem_filterMap.mp member
  simp only at sameKey
  rw [sameKey] at read
  obtain ⟨readByBoth, keptValue⟩ := (same source inLines written).mp read
  exact skipped written (List.mem_filterMap.mpr ⟨source, inLines, readByBoth⟩) keptValue

/-- When only one of several parts writes a key, that part decides. -/
theorem lastWrite_flatMap {ι : Type} (parts : List ι) (entries : ι → List (κ × ν))
    {part : ι} {key : κ} (member : part ∈ parts)
    (others : ∀ other, other ≠ part → lastWrite (entries other) key = none) :
    lastWrite (parts.flatMap entries) key = lastWrite (entries part) key := by
  induction parts with
  | nil => simp at member
  | cons head rest inductionHypothesis =>
      rw [List.flatMap_cons, lastWrite_append]
      by_cases inRest : part ∈ rest
      · rw [inductionHypothesis inRest]
        by_cases same : head = part
        · rw [same, Option.or_self]
        · rw [others head same, Option.or_none]
      · have same : part = head := by
          rcases List.mem_cons.mp member with same | inside
          · exact same
          · exact absurd inside inRest
        have restNone : lastWrite (rest.flatMap entries) key = none := by
          rw [lastWrite_eq_none_iff]
          intro entry inside
          obtain ⟨other, otherMember, written⟩ := List.mem_flatMap.mp inside
          have different : other ≠ part := fun equal => inRest (equal ▸ otherMember)
          exact (lastWrite_eq_none_iff _ _).mp (others other different) entry written
        rw [restNone, Option.none_or, same]

theorem mem_of_get? {dict : Dict κ ν} {key : κ} {value : ν}
    (found : get? dict key = some value) : (key, value) ∈ dict := by
  induction dict with
  | nil => simp at found
  | cons entry rest inductionHypothesis =>
      rw [get?_cons] at found
      by_cases equal : entry.1 = key
      · simp only [equal, if_true, Option.some.injEq] at found
        have same : entry = (key, value) := Prod.ext equal found
        simp [same]
      · rw [if_neg equal] at found
        exact List.mem_cons_of_mem _ (inductionHypothesis found)

theorem get?_eq_none_iff (dict : Dict κ ν) (key : κ) :
    get? dict key = none ↔ ∀ entry ∈ dict, entry.1 ≠ key := by
  simp [get?]

theorem isSome_get?_iff (dict : Dict κ ν) (key : κ) :
    (get? dict key).isSome ↔ key ∈ dict.map Prod.fst := by
  rw [Option.isSome_iff_ne_none, ne_eq, get?_eq_none_iff]
  simp

/-! ## Distinct keys -/

/-- No key occurs twice. Every map built by `set` from `[]` is of this form. -/
def Distinct (dict : Dict κ ν) : Prop := (dict.map Prod.fst).Nodup

omit [DecidableEq κ] in
theorem Distinct.nil : Distinct ([] : Dict κ ν) := List.nodup_nil

theorem mem_keys_set (dict : Dict κ ν) (key : κ) (value : ν) (other : κ) :
    other ∈ (set dict key value).map Prod.fst ↔
      other = key ∨ other ∈ dict.map Prod.fst := by
  induction dict with
  | nil => simp [set]
  | cons entry rest inductionHypothesis =>
      simp only [set]
      by_cases here : entry.1 = key
      · simp [here]
      · simp only [here, if_false, List.map_cons, List.mem_cons,
          inductionHypothesis]
        tauto

theorem mem_keys_writes (entries : List (κ × ν)) (dict : Dict κ ν) (key : κ) :
    key ∈ (writes dict entries).map Prod.fst ↔
      key ∈ dict.map Prod.fst ∨ key ∈ entries.map Prod.fst := by
  induction entries generalizing dict with
  | nil => simp [writes]
  | cons head rest inductionHypothesis =>
      have tail := inductionHypothesis (set dict head.1 head.2)
      rw [mem_keys_set] at tail
      change key ∈ (writes (set dict head.1 head.2) rest).map Prod.fst ↔ _
      rw [tail, List.map_cons, List.mem_cons]
      tauto

theorem mem_set {dict : Dict κ ν} {key : κ} {value : ν} {entry : κ × ν}
    (member : entry ∈ set dict key value) :
    entry = (key, value) ∨ entry ∈ dict := by
  induction dict with
  | nil => simpa [set] using member
  | cons head rest inductionHypothesis =>
      simp only [set] at member
      split at member
      · simp only [List.mem_cons] at member ⊢
        tauto
      · rcases List.mem_cons.mp member with equal | tail
        · simp [equal]
        · have known := inductionHypothesis tail
          simp only [List.mem_cons]
          tauto

theorem mem_writes {entries : List (κ × ν)} {dict : Dict κ ν} {entry : κ × ν}
    (member : entry ∈ writes dict entries) : entry ∈ entries ∨ entry ∈ dict := by
  induction entries generalizing dict with
  | nil => exact Or.inr member
  | cons head rest inductionHypothesis =>
      rcases inductionHypothesis member with inside | inside
      · simp [inside]
      · rcases mem_set inside with equal | inside
        · simp [equal]
        · exact Or.inr inside

theorem Distinct.set {dict : Dict κ ν} (distinct : Distinct dict) (key : κ)
    (value : ν) : Distinct (set dict key value) := by
  induction dict with
  | nil => simp [Distinct, Dict.set]
  | cons entry rest inductionHypothesis =>
      unfold Distinct at distinct inductionHypothesis ⊢
      simp only [List.map_cons, List.nodup_cons] at distinct
      simp only [Dict.set]
      by_cases here : entry.1 = key
      · simpa [here] using distinct
      · rw [if_neg here, List.map_cons, List.nodup_cons, mem_keys_set]
        refine ⟨?_, inductionHypothesis distinct.2⟩
        rintro (equal | member)
        · exact here equal
        · exact distinct.1 member

theorem Distinct.writes {dict : Dict κ ν} (distinct : Distinct dict)
    (entries : List (κ × ν)) : Distinct (writes dict entries) := by
  induction entries generalizing dict with
  | nil => exact distinct
  | cons entry rest inductionHypothesis =>
      exact inductionHypothesis (distinct.set entry.1 entry.2)

/-- With distinct keys, every entry is the last write of its key. -/
theorem lastWrite_of_mem {entries : List (κ × ν)} (distinct : Distinct entries)
    {entry : κ × ν} (member : entry ∈ entries) :
    lastWrite entries entry.1 = some entry.2 := by
  induction entries with
  | nil => simp at member
  | cons head rest inductionHypothesis =>
      unfold Distinct at distinct inductionHypothesis
      simp only [List.map_cons, List.nodup_cons] at distinct
      simp only [lastWrite]
      rcases List.mem_cons.mp member with rfl | tail
      · have absent : lastWrite rest entry.1 = none := by
          rw [lastWrite_eq_none_iff]
          intro other inside same
          exact distinct.1 (same ▸ List.mem_map_of_mem inside)
        simp [absent]
      · rw [inductionHypothesis distinct.2 tail]

/-- With distinct keys, an entry is what its key has. -/
theorem get?_eq_some_iff {dict : Dict κ ν} (distinct : Distinct dict) {key : κ} {value : ν} :
    get? dict key = some value ↔ (key, value) ∈ dict := by
  constructor
  · exact mem_of_get?
  · intro member
    induction dict with
    | nil => cases member
    | cons entry rest inductionHypothesis =>
        obtain ⟨headFresh, restDistinct⟩ := List.nodup_cons.mp distinct
        rw [get?_cons]
        rcases List.mem_cons.mp member with rfl | later
        · rw [if_pos rfl]
        · rw [if_neg fun same : entry.1 = key => headFresh (same ▸ List.mem_map_of_mem later)]
          exact inductionHypothesis restDistinct later

theorem set_of_not_mem {dict : Dict κ ν} {key : κ} (fresh : key ∉ dict.map Prod.fst) (value : ν) :
    set dict key value = dict ++ [(key, value)] := by
  induction dict with
  | nil => rfl
  | cons entry rest inductionHypothesis =>
      rw [List.map_cons, List.mem_cons, not_or] at fresh
      rw [Dict.set, if_neg (Ne.symm fresh.1), inductionHypothesis fresh.2]
      rfl

/-- Entries with distinct new keys are appended as they are. -/
theorem writes_of_distinct {dict : Dict κ ν} {entries : List (κ × ν)}
    (distinct : Distinct (dict ++ entries)) : writes dict entries = dict ++ entries := by
  induction entries generalizing dict with
  | nil => exact (List.append_nil dict).symm
  | cons entry rest inductionHypothesis =>
      have split : dict ++ entry :: rest = (dict ++ [entry]) ++ rest := by simp
      have fresh : entry.1 ∉ dict.map Prod.fst := by
        unfold Distinct at distinct
        rw [List.map_append, List.nodup_append] at distinct
        intro member
        exact distinct.2.2 _ member _ List.mem_cons_self rfl
      rw [split] at distinct ⊢
      show writes (Dict.set dict entry.1 entry.2) rest = _
      rw [set_of_not_mem fresh]
      exact inductionHypothesis distinct

/-- Overwriting a key leaves the keys where they stand. -/
theorem keys_set_of_mem {dict : Dict κ ν} {key : κ} (known : key ∈ dict.map Prod.fst) (value : ν) :
    (set dict key value).map Prod.fst = dict.map Prod.fst := by
  induction dict with
  | nil => cases known
  | cons entry rest inductionHypothesis =>
      rw [Dict.set]
      split
      next here => rw [List.map_cons, List.map_cons, here]
      next other =>
        rw [List.map_cons, List.mem_cons] at known
        rw [List.map_cons, List.map_cons,
          inductionHypothesis (known.resolve_left fun same => other same.symm)]

/-- Two maps with the same keys in the same order, compared key by key. -/
theorem forall₂_of_keys_eq {ν' : Type} {relates : ν → ν' → Prop} {left : Dict κ ν}
    {right : Dict κ ν'} (keys : right.map Prod.fst = left.map Prod.fst) (distinct : Distinct left)
    (values : ∀ key before after, get? left key = some before → get? right key = some after →
      relates before after) :
    List.Forall₂ relates (left.map Prod.snd) (right.map Prod.snd) := by
  induction left generalizing right with
  | nil =>
      rw [List.map_eq_nil_iff.mp keys]
      exact .nil
  | cons entry rest inductionHypothesis =>
      obtain _ | ⟨other, others⟩ := right
      · cases keys
      rw [List.map_cons, List.map_cons, List.cons.injEq] at keys
      obtain ⟨fresh, restDistinct⟩ := List.nodup_cons.mp distinct
      rw [List.map_cons, List.map_cons]
      constructor
      · apply values entry.1
        · rw [get?_cons, if_pos rfl]
        · rw [get?_cons, if_pos keys.1]
      · apply inductionHypothesis keys.2 restDistinct
        intro key before after found foundAfter
        have inRest : key ∈ rest.map Prod.fst :=
          List.mem_map.mpr ⟨(key, before), mem_of_get? found, rfl⟩
        have different : entry.1 ≠ key := fun same => fresh (same ▸ inRest)
        apply values key
        · rw [get?_cons, if_neg different, found]
        · rw [get?_cons, if_neg (keys.1 ▸ different), foundAfter]

end Dict

end StadiumRecomp.Lib
