import StadiumRecomp.Lib.SeenLog
import StadiumRecomp.Translate.Loader
import Mathlib.Data.List.ProdSigma
import Mathlib.Data.List.Nodup
import Mathlib.Data.List.Perm.Subperm

/-!
Contract: the string inventory `g_strinv`, over whole runs of `strinv_upsert`.

Owns: the table and one call, the keys in order of first appearance, the entry a run
leaves for a key, and the table any run from the empty one ends in.

Does not own: which strings are offered, and the dump that writes the table out.
-/

set_option autoImplicit false

namespace StadiumRecomp.Census

open StadiumRecomp.Lib
open StadiumRecomp.Translate

/-! ## The table -/

def kStrInvCap : Nat := 4096

/-- `StrInvEntry`, with the stored bytes up to its length. -/
structure StrInvEntry where
  key : UInt64
  bytes : Bytes
  a0 : UInt16
  a1 : UInt16
  count : UInt32
  used : Bool
deriving DecidableEq, Repr

def StrInvEntry.unused : StrInvEntry := ⟨0, [], 0, 0, 0, false⟩

/-- `g_strinv` and `g_strinv_dropped`. -/
structure StrInv where
  slots : List StrInvEntry
  dropped : UInt32
deriving DecidableEq, Repr

def StrInv.empty : StrInv := ⟨List.replicate kStrInvCap .unused, 0⟩

/-- The arguments of one call: the source bytes and the coordinates. -/
structure UpsertCall where
  bytes : Bytes
  a0 : UInt16
  a1 : UInt16
deriving DecidableEq, Repr

def UpsertCall.key (call : UpsertCall) : UInt64 := pmsFnv1a call.bytes

/-- Last-seen coordinates and one more count. -/
def StrInvEntry.touch (call : UpsertCall) (slot : StrInvEntry) : StrInvEntry :=
  { slot with a0 := call.a0, a1 := call.a1, count := slot.count + 1 }

/-- A free slot taken for the string of a call. -/
def StrInvEntry.fill (call : UpsertCall) (slot : StrInvEntry) : StrInvEntry :=
  { slot with used := true, key := call.key, bytes := call.bytes, count := 0 }

def StrInvEntry.holds (key : UInt64) (slot : StrInvEntry) : Bool := slot.used && slot.key == key

/-- `strinv_upsert`. -/
def strinvUpsert (inv : StrInv) (call : UpsertCall) : StrInv :=
  if call.bytes = [] then inv
  else
    match inv.slots.findIdx? (·.holds call.key) with
    | some slot => { inv with slots := inv.slots.modify slot (·.touch call) }
    | none =>
        match inv.slots.findIdx? (!·.used) with
        | none => { inv with dropped := inv.dropped + 1 }
        | some free =>
            { inv with slots := inv.slots.modify free (fun slot => (slot.fill call).touch call) }

/-- A used slot has these bytes. -/
def StrInv.stores (inv : StrInv) (s : Bytes) : Bool :=
  inv.slots.any (fun slot => slot.used && slot.bytes == s)

/-- The string would get a slot of its own. -/
def StrInv.takes (inv : StrInv) (s : Bytes) : Prop :=
  inv.stores s = false ∧ inv.slots.findIdx? (·.holds (pmsFnv1a s)) = none ∧
    (inv.slots.findIdx? (!·.used)).isSome

instance (inv : StrInv) (s : Bytes) : Decidable (inv.takes s) :=
  inferInstanceAs (Decidable (_ ∧ _ ∧ _))

/-! ## What one call stores -/

theorem any_modify_of_same {slots : List StrInvEntry} {free : Nat}
    {change : StrInvEntry → StrInvEntry} {accepts : StrInvEntry → Bool}
    (same : ∀ slot, accepts (change slot) = accepts slot) :
    (slots.modify free change).any accepts = slots.any accepts := by
  by_cases inside : free < slots.length
  · rw [List.modify_eq_take_cons_drop inside]
    conv_rhs => rw [← List.take_append_drop free slots, List.drop_eq_getElem_cons inside]
    rw [List.any_append, List.any_append, List.any_cons, List.any_cons, same]
  · rw [List.modify_eq_self (Nat.le_of_not_lt inside)]

/-- A call stores its own string, where that gets a slot, and no other. -/
theorem stores_strinvUpsert (inv : StrInv) (call : UpsertCall) (s : Bytes)
    (new : inv.stores s = false) :
    (strinvUpsert inv call).stores s = true ↔
      s = call.bytes ∧ call.bytes ≠ [] ∧ inv.takes call.bytes := by
  unfold strinvUpsert
  split
  next empty => simp [new, empty]
  next nonempty =>
    split
    next slot found =>
      have kept : StrInv.stores { inv with slots := inv.slots.modify slot (·.touch call) } s =
          inv.stores s := any_modify_of_same fun _ => rfl
      rw [kept, new]
      constructor
      · intro impossible
        cases impossible
      · intro ⟨_, _, _, absent, _⟩
        rw [show inv.slots.findIdx? (·.holds (pmsFnv1a call.bytes)) = some slot from found] at absent
        cases absent
    next absent =>
      split
      next full =>
        rw [show StrInv.stores { inv with dropped := inv.dropped + 1 } s = inv.stores s from rfl,
          new]
        constructor
        · intro impossible
          cases impossible
        · intro ⟨_, _, _, _, room⟩
          rw [full] at room
          cases room
      next free room =>
        obtain ⟨inside, unused, _⟩ := List.findIdx?_eq_some_iff_getElem.mp room
        have others := new
        unfold StrInv.stores at others
        rw [← List.take_append_drop free inv.slots, List.drop_eq_getElem_cons inside,
          List.any_append, List.any_cons, Bool.or_eq_false_iff, Bool.or_eq_false_iff] at others
        obtain ⟨front, _, back⟩ := others
        unfold StrInv.stores
        dsimp only
        rw [List.modify_eq_take_cons_drop inside, List.any_append, List.any_cons, front, back,
          Bool.false_or, Bool.or_false]
        show (true && call.bytes == s) = true ↔ _
        rw [Bool.true_and, beq_iff_eq]
        constructor
        · intro same
          subst same
          exact ⟨rfl, nonempty, new, absent, by rw [room]; rfl⟩
        · intro ⟨same, _⟩
          exact same.symm

/-! ## What a run leaves -/

/-- The calls that offer the string with this key. -/
def callsOf (calls : List UpsertCall) (key : UInt64) : List UpsertCall :=
  calls.filter (fun call => call.bytes ≠ [] ∧ call.key = key)

def offeredKeys (calls : List UpsertCall) : List UInt64 :=
  (calls.filter (fun call => call.bytes ≠ [])).map UpsertCall.key

/-- The distinct keys of the offered strings, in order of first appearance. -/
def firstKeys (calls : List UpsertCall) : List UInt64 := (offeredKeys calls).eraseDups

/-- The entry a run leaves for a key. -/
def entryFor (calls : List UpsertCall) (key : UInt64) : StrInvEntry where
  key := key
  bytes := ((callsOf calls key).head?.map UpsertCall.bytes).getD []
  a0 := ((callsOf calls key).getLast?.map UpsertCall.a0).getD 0
  a1 := ((callsOf calls key).getLast?.map UpsertCall.a1).getD 0
  count := UInt32.ofNat (callsOf calls key).length
  used := true

/-- The keys the table has room for. -/
def keptKeys (calls : List UpsertCall) : List UInt64 := (firstKeys calls).take kStrInvCap

/-- The calls that found the table full of other strings. -/
def droppedCalls (calls : List UpsertCall) : List UpsertCall :=
  calls.filter (fun call => call.bytes ≠ [] ∧ call.key ∉ keptKeys calls)

/-- The table a run leaves. -/
def recorded (calls : List UpsertCall) : StrInv where
  slots := (keptKeys calls).map (entryFor calls) ++
    List.replicate (kStrInvCap - (keptKeys calls).length) .unused
  dropped := UInt32.ofNat (droppedCalls calls).length

/-! ## One more call -/

section Append

variable (calls : List UpsertCall) (call : UpsertCall)

theorem callsOf_append (key : UInt64) :
    callsOf (calls ++ [call]) key =
      callsOf calls key ++ if call.bytes ≠ [] ∧ call.key = key then [call] else [] := by
  unfold callsOf
  rw [List.filter_append, List.filter_singleton]
  by_cases both : call.bytes ≠ [] ∧ call.key = key <;> simp [both]

theorem mem_firstKeys {calls : List UpsertCall} {key : UInt64} :
    key ∈ firstKeys calls ↔ callsOf calls key ≠ [] := by
  unfold firstKeys offeredKeys callsOf
  rw [List.mem_eraseDups, ne_eq, List.filter_eq_nil_iff]
  simp only [List.mem_map, List.mem_filter, decide_eq_true_eq]
  constructor
  · intro ⟨other, ⟨inCalls, nonempty⟩, same⟩ none
    exact none other inCalls ⟨nonempty, same⟩
  · intro some
    by_contra none
    exact some (fun other inCalls both => none ⟨other, ⟨inCalls, both.1⟩, both.2⟩)

theorem offeredKeys_append :
    offeredKeys (calls ++ [call]) =
      offeredKeys calls ++ if call.bytes ≠ [] then [call.key] else [] := by
  unfold offeredKeys
  rw [List.filter_append, List.map_append, List.filter_singleton]
  by_cases nonempty : call.bytes ≠ [] <;> simp [nonempty]

theorem firstKeys_append_empty (empty : call.bytes = []) :
    firstKeys (calls ++ [call]) = firstKeys calls := by
  unfold firstKeys
  rw [offeredKeys_append, if_neg (not_not.mpr empty), List.append_nil]

theorem firstKeys_append (nonempty : call.bytes ≠ []) :
    firstKeys (calls ++ [call]) =
      if call.key ∈ firstKeys calls then firstKeys calls else firstKeys calls ++ [call.key] := by
  unfold firstKeys
  rw [offeredKeys_append, if_pos nonempty, eraseDups_concat]
  simp only [List.mem_eraseDups]

theorem nodup_firstKeys : (firstKeys calls).Nodup := by
  induction calls using List.reverseRecOn with
  | nil => exact List.nodup_nil
  | append_singleton calls call inductionHypothesis =>
      by_cases empty : call.bytes = []
      · rw [firstKeys_append_empty calls call empty]
        exact inductionHypothesis
      · rw [firstKeys_append calls call empty]
        split
        next => exact inductionHypothesis
        next new =>
          rw [List.nodup_append]
          refine ⟨inductionHypothesis, by simp, ?_⟩
          rintro key inKeys _ last rfl
          exact new (List.mem_singleton.mp last ▸ inKeys)

/-- Calls for other strings leave an entry alone. -/
theorem entryFor_append_other {key : UInt64} (other : call.key ≠ key) :
    entryFor (calls ++ [call]) key = entryFor calls key := by
  unfold entryFor
  rw [callsOf_append, if_neg (fun both => other both.2), List.append_nil]

/-- A call for a string seen before updates its entry. -/
theorem entryFor_append_seen (nonempty : call.bytes ≠ []) (seen : call.key ∈ firstKeys calls) :
    entryFor (calls ++ [call]) call.key = (entryFor calls call.key).touch call := by
  have some := mem_firstKeys.mp seen
  unfold entryFor StrInvEntry.touch
  rw [callsOf_append, if_pos ⟨nonempty, rfl⟩]
  simp only [StrInvEntry.mk.injEq, true_and, and_true]
  refine ⟨?_, ?_, ?_, ?_⟩
  · rw [List.head?_append_of_ne_nil _ some]
  · simp
  · simp
  · rw [List.length_append, List.length_singleton, UInt32.ofNat_add]
    rfl

/-- The first call for a string makes its entry. -/
theorem entryFor_append_new (nonempty : call.bytes ≠ []) (new : call.key ∉ firstKeys calls) :
    entryFor (calls ++ [call]) call.key = (StrInvEntry.unused.fill call).touch call := by
  have none : callsOf calls call.key = [] := not_not.mp (mt mem_firstKeys.mpr new)
  unfold entryFor StrInvEntry.touch StrInvEntry.fill
  rw [callsOf_append, if_pos ⟨nonempty, rfl⟩, none]
  rfl

end Append

/-! ## The slots -/

section Slots

variable (entry : UInt64 → StrInvEntry) {keys : List UInt64} {key : UInt64}

/-- The slot of a stored string is found and changed alone. -/
theorem modify_holds (named : ∀ key, (entry key).key = key ∧ (entry key).used = true)
    (distinct : keys.Nodup) (member : key ∈ keys) (free : List StrInvEntry)
    (change : StrInvEntry → StrInvEntry) :
    ∃ slot, (keys.map entry ++ free).findIdx? (·.holds key) = some slot ∧
      (keys.map entry ++ free).modify slot change =
        keys.map (fun other => if other = key then change (entry other) else entry other) ++
          free := by
  induction keys with
  | nil => cases member
  | cons head rest inductionHypothesis =>
      obtain ⟨headNotInRest, restDistinct⟩ := List.nodup_cons.mp distinct
      by_cases isHead : head = key
      · subst isHead
        have holds : (entry head).holds head = true := by
          simp [StrInvEntry.holds, named head]
        refine ⟨0, ?_, ?_⟩
        · rw [List.map_cons, List.cons_append, List.findIdx?_cons, if_pos holds]
        · have others : rest.map (fun other =>
              if other = head then change (entry other) else entry other) = rest.map entry := by
            apply List.map_congr_left
            intro other inRest
            have different : other ≠ head := fun same => headNotInRest (same ▸ inRest)
            rw [if_neg different]
          rw [List.map_cons, List.map_cons, others, if_pos rfl]
          rfl
      · have inRest : key ∈ rest := by
          rcases List.mem_cons.mp member with same | inside
          · exact absurd same.symm isHead
          · exact inside
        have notHolds : (entry head).holds key = false := by
          simp [StrInvEntry.holds, named head, isHead]
        obtain ⟨slot, found, changed⟩ := inductionHypothesis restDistinct inRest
        refine ⟨slot + 1, ?_, ?_⟩
        · rw [List.map_cons, List.cons_append, List.findIdx?_cons, notHolds, found]
          rfl
        · rw [List.map_cons, List.cons_append, List.modify_succ_cons, changed, List.map_cons,
            if_neg isHead]
          rfl

/-- A string that is not stored is not found. -/
theorem findIdx?_holds_none (named : ∀ key, (entry key).key = key) (absent : key ∉ keys)
    (room : Nat) :
    (keys.map entry ++ List.replicate room StrInvEntry.unused).findIdx? (·.holds key) = none := by
  rw [List.findIdx?_eq_none_iff]
  intro slot member
  rcases List.mem_append.mp member with inKeys | inFree
  · obtain ⟨other, isKey, rfl⟩ := List.mem_map.mp inKeys
    have different : other ≠ key := fun same => absent (same ▸ isKey)
    simp [StrInvEntry.holds, named, different]
  · rw [(List.mem_replicate.mp inFree).2]
    rfl

theorem findIdx?_free_none (used : ∀ key, (entry key).used = true) (keys : List UInt64) :
    (keys.map entry).findIdx? (!·.used) = none := by
  rw [List.findIdx?_eq_none_iff]
  intro slot member
  obtain ⟨other, _, rfl⟩ := List.mem_map.mp member
  simp [used]

/-- The first free slot stands behind the used ones. -/
theorem modify_free (used : ∀ key, (entry key).used = true) (keys : List UInt64) (room : Nat)
    (change : StrInvEntry → StrInvEntry) :
    (keys.map entry ++ List.replicate (room + 1) StrInvEntry.unused).findIdx? (!·.used) =
        some keys.length ∧
      (keys.map entry ++ List.replicate (room + 1) StrInvEntry.unused).modify keys.length change =
        keys.map entry ++ change .unused :: List.replicate room .unused := by
  induction keys with
  | nil => exact ⟨rfl, rfl⟩
  | cons head rest inductionHypothesis =>
      obtain ⟨found, changed⟩ := inductionHypothesis
      constructor
      · rw [List.map_cons, List.cons_append, List.findIdx?_cons, used, found]
        rfl
      · rw [List.map_cons, List.cons_append, List.length_cons, List.modify_succ_cons, changed]
        rfl

end Slots

/-! ## Runs -/

theorem keptKeys_subset (calls : List UpsertCall) : keptKeys calls ⊆ firstKeys calls :=
  List.take_subset _ _

/-- A string that is not kept when the table has room was never seen. -/
theorem not_mem_firstKeys {calls : List UpsertCall} {key : UInt64}
    (room : (firstKeys calls).length < kStrInvCap) (notKept : key ∉ keptKeys calls) :
    key ∉ firstKeys calls := by
  unfold keptKeys at notKept
  rwa [List.take_of_length_le room.le] at notKept

theorem nodup_keptKeys (calls : List UpsertCall) : (keptKeys calls).Nodup :=
  (nodup_firstKeys calls).sublist (List.take_sublist _ _)

theorem length_keptKeys (calls : List UpsertCall) :
    (keptKeys calls).length = min kStrInvCap (firstKeys calls).length :=
  List.length_take

section Step

variable {calls : List UpsertCall} {call : UpsertCall}

/-- Calls that leave the kept keys as they are, up to the entry of their own string. -/
theorem map_entryFor_append (nonempty : call.bytes ≠ []) (kept : call.key ∈ keptKeys calls)
    (same : keptKeys (calls ++ [call]) = keptKeys calls) :
    (keptKeys (calls ++ [call])).map (entryFor (calls ++ [call])) =
      (keptKeys calls).map (fun other =>
        if other = call.key then (entryFor calls other).touch call else entryFor calls other) := by
  rw [same]
  apply List.map_congr_left
  intro other _
  by_cases isKey : other = call.key
  · rw [if_pos isKey, isKey]
    exact entryFor_append_seen calls call nonempty (keptKeys_subset calls kept)
  · rw [if_neg isKey]
    exact entryFor_append_other calls call (Ne.symm isKey)

theorem map_entryFor_append_other {keys : List UInt64} (absent : call.key ∉ keys) :
    keys.map (entryFor (calls ++ [call])) = keys.map (entryFor calls) := by
  apply List.map_congr_left
  intro other member
  exact entryFor_append_other calls call (fun same => absent (same ▸ member))

theorem keptKeys_append_seen (nonempty : call.bytes ≠ [])
    (seen : call.key ∈ firstKeys calls) : keptKeys (calls ++ [call]) = keptKeys calls := by
  unfold keptKeys
  rw [firstKeys_append calls call nonempty, if_pos seen]

theorem keptKeys_append_full (call : UpsertCall) (full : kStrInvCap ≤ (firstKeys calls).length) :
    keptKeys (calls ++ [call]) = keptKeys calls := by
  by_cases empty : call.bytes = []
  · unfold keptKeys
    rw [firstKeys_append_empty calls call empty]
  · by_cases seen : call.key ∈ firstKeys calls
    · exact keptKeys_append_seen empty seen
    · unfold keptKeys
      rw [firstKeys_append calls call empty, if_neg seen, List.take_append_of_le_length full]

theorem keptKeys_append_new (nonempty : call.bytes ≠ [])
    (room : (firstKeys calls).length < kStrInvCap) (new : call.key ∉ firstKeys calls) :
    keptKeys (calls ++ [call]) = keptKeys calls ++ [call.key] := by
  unfold keptKeys
  rw [firstKeys_append calls call nonempty, if_neg new, List.take_of_length_le room.le,
    List.take_of_length_le (by rw [List.length_append, List.length_singleton]; exact room)]

/-- A key once kept stays kept, and one dropped stays out. -/
theorem droppedCalls_append (keeps : ∀ other ∈ calls,
      other.bytes ≠ [] → (other.key ∈ keptKeys (calls ++ [call]) ↔ other.key ∈ keptKeys calls)) :
    droppedCalls (calls ++ [call]) = droppedCalls calls ++
      if call.bytes ≠ [] ∧ call.key ∉ keptKeys (calls ++ [call]) then [call] else [] := by
  have old : calls.filter (fun other => other.bytes ≠ [] ∧
      other.key ∉ keptKeys (calls ++ [call])) = droppedCalls calls := by
    apply List.filter_congr
    intro other member
    by_cases empty : other.bytes = []
    · simp [empty]
    · simp [keeps other member empty]
  have split : droppedCalls (calls ++ [call]) = calls.filter (fun other => other.bytes ≠ [] ∧
      other.key ∉ keptKeys (calls ++ [call])) ++ [call].filter (fun other => other.bytes ≠ [] ∧
        other.key ∉ keptKeys (calls ++ [call])) := List.filter_append _ _
  rw [split, old, List.filter_singleton]
  by_cases dropped : call.bytes ≠ [] ∧ call.key ∉ keptKeys (calls ++ [call]) <;> simp [dropped]

theorem mem_firstKeys_of_mem {other : UpsertCall} (member : other ∈ calls)
    (nonempty : other.bytes ≠ []) : other.key ∈ firstKeys calls := by
  rw [mem_firstKeys]
  apply List.ne_nil_of_mem (a := other)
  exact List.mem_filter.mpr ⟨member, by simp [nonempty]⟩

/-- A call for no bytes. -/
theorem recorded_append_empty (empty : call.bytes = []) :
    recorded (calls ++ [call]) = recorded calls := by
  have kept : keptKeys (calls ++ [call]) = keptKeys calls := by
    unfold keptKeys
    rw [firstKeys_append_empty calls call empty]
  have entries : entryFor (calls ++ [call]) = entryFor calls := by
    funext key
    unfold entryFor
    rw [callsOf_append, if_neg (fun both => both.1 empty), List.append_nil]
  have dropped := droppedCalls_append (fun other _ _ => by rw [kept])
  rw [if_neg (fun both => both.1 empty), List.append_nil] at dropped
  unfold recorded
  rw [kept, entries, dropped]

theorem droppedCalls_append_kept (kept : call.key ∈ keptKeys (calls ++ [call]))
    (same : ∀ other ∈ calls, other.bytes ≠ [] →
      (other.key ∈ keptKeys (calls ++ [call]) ↔ other.key ∈ keptKeys calls)) :
    droppedCalls (calls ++ [call]) = droppedCalls calls := by
  rw [droppedCalls_append same, if_neg (fun both => both.2 kept), List.append_nil]

/-- A call for a stored string. -/
theorem strinvUpsert_kept (nonempty : call.bytes ≠ []) (kept : call.key ∈ keptKeys calls) :
    strinvUpsert (recorded calls) call = recorded (calls ++ [call]) := by
  have same := keptKeys_append_seen nonempty (keptKeys_subset calls kept)
  obtain ⟨slot, found, changed⟩ := modify_holds (entryFor calls)
    (fun _ => ⟨rfl, rfl⟩) (nodup_keptKeys calls) kept
    (List.replicate (kStrInvCap - (keptKeys calls).length) .unused) (·.touch call)
  have dropped := droppedCalls_append_kept (same ▸ kept) (fun _ _ _ => by rw [same])
  unfold strinvUpsert
  rw [if_neg nonempty]
  simp only [recorded, found, changed, dropped]
  rw [map_entryFor_append nonempty kept same, same]

/-- A call for a new string, with room in the table. -/
theorem strinvUpsert_new (nonempty : call.bytes ≠ [])
    (room : (firstKeys calls).length < kStrInvCap) (new : call.key ∉ firstKeys calls) :
    strinvUpsert (recorded calls) call = recorded (calls ++ [call]) := by
  have kept := keptKeys_append_new nonempty room new
  have notKept : call.key ∉ keptKeys calls := fun inside => new (keptKeys_subset calls inside)
  have length : (keptKeys calls).length < kStrInvCap := by
    rw [length_keptKeys]
    exact lt_of_le_of_lt (min_le_right _ _) room
  obtain ⟨left, leftEq⟩ : ∃ left, kStrInvCap - (keptKeys calls).length = left + 1 :=
    ⟨kStrInvCap - (keptKeys calls).length - 1, by omega⟩
  have notFound := findIdx?_holds_none (entryFor calls) (fun _ => rfl) notKept (left + 1)
  obtain ⟨free, changed⟩ := modify_free (entryFor calls) (fun _ => rfl)
    (keptKeys calls) left (fun slot => (slot.fill call).touch call)
  have dropped := droppedCalls_append_kept (by rw [kept]; simp) (fun other member some => by
    have seen := mem_firstKeys_of_mem member some
    have different : other.key ≠ call.key := fun equal => new (equal ▸ seen)
    rw [kept, List.mem_append, List.mem_singleton, or_iff_left different])
  have roomLeft : kStrInvCap - (keptKeys calls ++ [call.key]).length = left := by
    rw [List.length_append, List.length_singleton]
    omega
  unfold strinvUpsert
  rw [if_neg nonempty]
  simp only [recorded, leftEq, notFound, free, changed, dropped, kept, roomLeft,
    List.map_append, List.map_cons, List.map_nil, entryFor_append_new calls call nonempty new,
    map_entryFor_append_other notKept, List.append_assoc, List.singleton_append]

/-- A call for a new string when the table is full. -/
theorem strinvUpsert_full (nonempty : call.bytes ≠ [])
    (full : kStrInvCap ≤ (firstKeys calls).length) (notKept : call.key ∉ keptKeys calls) :
    strinvUpsert (recorded calls) call = recorded (calls ++ [call]) := by
  have same := keptKeys_append_full call full
  have length : kStrInvCap - (keptKeys calls).length = 0 := by
    rw [length_keptKeys, min_eq_left full, Nat.sub_self]
  have notFound := findIdx?_holds_none (entryFor calls) (fun _ => rfl) notKept 0
  have noFree := findIdx?_free_none (entryFor calls) (fun _ => rfl) (keptKeys calls)
  rw [List.replicate_zero, List.append_nil] at notFound
  have dropped := droppedCalls_append (fun other (_ : other ∈ calls) _ => by rw [same])
  rw [if_pos ⟨nonempty, same ▸ notKept⟩] at dropped
  unfold strinvUpsert
  rw [if_neg nonempty]
  simp only [recorded, length, List.replicate_zero, List.append_nil, notFound, noFree, same,
    dropped, map_entryFor_append_other notKept, List.length_append, List.length_singleton,
    UInt32.ofNat_add]
  rfl

theorem strinvUpsert_recorded :
    strinvUpsert (recorded calls) call = recorded (calls ++ [call]) := by
  by_cases empty : call.bytes = []
  · rw [recorded_append_empty empty, strinvUpsert, if_pos empty]
  · by_cases kept : call.key ∈ keptKeys calls
    · exact strinvUpsert_kept empty kept
    · by_cases room : (firstKeys calls).length < kStrInvCap
      · exact strinvUpsert_new empty room (not_mem_firstKeys room kept)
      · exact strinvUpsert_full empty (not_lt.mp room) kept

end Step

/-- What any run from the empty table leaves. -/
theorem foldl_strinvUpsert (calls : List UpsertCall) :
    calls.foldl strinvUpsert .empty = recorded calls := by
  induction calls using List.reverseRecOn with
  | nil => rfl
  | append_singleton calls call inductionHypothesis =>
      rw [List.foldl_append, inductionHypothesis, List.foldl_cons, List.foldl_nil,
        strinvUpsert_recorded]

/-! ## The inventory -/

/-- A used slot holds its string as first offered, the coordinates of the last call
for it and the number of these calls. -/
structure RecordsString (calls : List UpsertCall) (slot : StrInvEntry) : Prop where
  hash : slot.key = pmsFnv1a slot.bytes
  bytes : (callsOf calls slot.key).head?.map UpsertCall.bytes = some slot.bytes
  coords : (callsOf calls slot.key).getLast?.map (fun call => (call.a0, call.a1)) =
    some (slot.a0, slot.a1)
  count : slot.count = UInt32.ofNat (callsOf calls slot.key).length

/-- The used slots come first and hold the first keys seen, in order; every other
string that was offered is counted as dropped. -/
structure Records (calls : List UpsertCall) (inv : StrInv) : Prop where
  size : inv.slots.length = kStrInvCap
  usedFirst : ∀ i slot, inv.slots[i]? = some slot →
    (slot.used = true ↔ i < (firstKeys calls).length)
  keys : (inv.slots.filter StrInvEntry.used).map StrInvEntry.key =
    (firstKeys calls).take kStrInvCap
  distinct : ((inv.slots.filter StrInvEntry.used).map StrInvEntry.key).Nodup
  strings : ∀ slot ∈ inv.slots, slot.used = true → RecordsString calls slot
  dropped : inv.dropped = UInt32.ofNat (droppedCalls calls).length

theorem recordsString_entryFor {calls : List UpsertCall} {key : UInt64}
    (seen : key ∈ firstKeys calls) : RecordsString calls (entryFor calls key) := by
  have some := mem_firstKeys.mp seen
  have keyEq : (entryFor calls key).key = key := rfl
  obtain ⟨first, firstEq⟩ : ∃ first, (callsOf calls key).head? = .some first :=
    ⟨_, List.head?_eq_some_head some⟩
  obtain ⟨last, lastEq⟩ : ∃ last, (callsOf calls key).getLast? = .some last :=
    ⟨_, List.getLast?_eq_some_getLast some⟩
  have firstKey : first.key = key := by
    have member := List.mem_filter.mp (List.mem_of_mem_head? firstEq)
    simp only [decide_eq_true_eq] at member
    exact member.2.2
  constructor
  · change key = pmsFnv1a (entryFor calls key).bytes
    simp only [entryFor, firstEq, Option.map_some, Option.getD_some]
    exact firstKey.symm
  · rw [keyEq]
    simp [entryFor, firstEq]
  · rw [keyEq]
    simp [entryFor, lastEq]
  · rw [keyEq]
    rfl

theorem filter_used_recorded (calls : List UpsertCall) :
    (recorded calls).slots.filter StrInvEntry.used = (keptKeys calls).map (entryFor calls) := by
  have kept : ((keptKeys calls).map (entryFor calls)).filter StrInvEntry.used =
      (keptKeys calls).map (entryFor calls) := by
    rw [List.filter_eq_self]
    intro slot member
    obtain ⟨key, _, rfl⟩ := List.mem_map.mp member
    rfl
  have free : (List.replicate (kStrInvCap - (keptKeys calls).length)
      StrInvEntry.unused).filter StrInvEntry.used = [] := by
    rw [List.filter_eq_nil_iff]
    intro slot member
    rw [(List.mem_replicate.mp member).2]
    decide
  unfold recorded
  rw [List.filter_append, kept, free, List.append_nil]

theorem records_recorded (calls : List UpsertCall) : Records calls (recorded calls) := by
  have keys : ((recorded calls).slots.filter StrInvEntry.used).map StrInvEntry.key =
      (firstKeys calls).take kStrInvCap := by
    rw [filter_used_recorded, List.map_map]
    exact List.map_id _
  have size : (recorded calls).slots.length = kStrInvCap := by
    have bound : (keptKeys calls).length ≤ kStrInvCap := by
      rw [length_keptKeys]
      exact min_le_left _ _
    simp only [recorded, List.length_append, List.length_map, List.length_replicate]
    omega
  refine ⟨size, ?_, keys, ?_, ?_, rfl⟩
  · intro i slot found
    have inTable : i < kStrInvCap := by
      rw [← size]
      exact (List.getElem?_eq_some_iff.mp found).1
    have keptLength := length_keptKeys calls
    by_cases early : i < (keptKeys calls).length
    · have isEntry : slot ∈ (keptKeys calls).map (entryFor calls) := by
        simp only [recorded] at found
        rw [List.getElem?_append_left (by rw [List.length_map]; exact early)] at found
        exact List.mem_of_getElem? found
      obtain ⟨key, _, rfl⟩ := List.mem_map.mp isEntry
      simp only [entryFor, true_iff]
      omega
    · have isFree : slot ∈ List.replicate (kStrInvCap - (keptKeys calls).length)
          StrInvEntry.unused := by
        simp only [recorded] at found
        rw [List.getElem?_append_right (by rw [List.length_map]; omega)] at found
        exact List.mem_of_getElem? found
      rw [(List.mem_replicate.mp isFree).2]
      simp only [StrInvEntry.unused, Bool.false_eq_true, false_iff]
      omega
  · rw [keys]
    exact nodup_keptKeys calls
  · intro slot member used
    have inUsed : slot ∈ (recorded calls).slots.filter StrInvEntry.used :=
      List.mem_filter.mpr ⟨member, used⟩
    rw [filter_used_recorded] at inUsed
    obtain ⟨key, kept, rfl⟩ := List.mem_map.mp inUsed
    exact recordsString_entryFor (keptKeys_subset calls kept)

/-- Every run of calls from the empty table leaves the inventory of its strings, with
the number of dropped calls as a 32-bit counter holds it. Calls without bytes change
nothing. -/
theorem strinvUpsert_records (calls : List UpsertCall) :
    Records calls (calls.foldl strinvUpsert .empty) ∧
      ∀ call, call.bytes = [] →
        strinvUpsert (calls.foldl strinvUpsert .empty) call =
          calls.foldl strinvUpsert .empty := by
  constructor
  · rw [foldl_strinvUpsert]
    exact records_recorded calls
  · intro call empty
    rw [strinvUpsert, if_pos empty]

/-! ## The counter wraps -/

theorem mul_prime_injective {left right : UInt64}
    (same : left * 1099511628211 = right * 1099511628211) : left = right := by
  have inverse : (1099511628211 : UInt64) * 14886173955864302971 = 1 := by decide
  have products := congrArg (· * 14886173955864302971) same
  simp only [UInt64.mul_assoc, inverse, UInt64.mul_one] at products
  exact products

/-- The hash tells strings of two bytes apart, for a few first bytes. -/
theorem pmsFnv1a_pair {first first' : Nat} (small : first < 17) (small' : first' < 17)
    {second second' : UInt8}
    (same : pmsFnv1a [UInt8.ofNat first, second] = pmsFnv1a [UInt8.ofNat first', second']) :
    first = first' ∧ second = second' := by
  have apart : ∀ first ∈ List.range 17, ∀ first' ∈ List.range 17,
      ((1469598103934665603 ^^^ (UInt8.ofNat first).toUInt64) * 1099511628211) >>> 8 =
        ((1469598103934665603 ^^^ (UInt8.ofNat first').toUInt64) * 1099511628211) >>> 8 →
      first = first' := by decide +kernel
  have low : ∀ byte : UInt8, byte.toUInt64 >>> 8 = 0 := by
    intro byte
    rw [← UInt64.toNat_inj, UInt64.toNat_shiftRight, UInt8.toNat_toUInt64,
      Nat.shiftRight_eq_div_pow]
    have bound := byte.toNat_lt
    exact Nat.div_eq_of_lt bound
  have mixed : (1469598103934665603 ^^^ (UInt8.ofNat first).toUInt64) * 1099511628211 ^^^
        second.toUInt64 =
      (1469598103934665603 ^^^ (UInt8.ofNat first').toUInt64) * 1099511628211 ^^^
        second'.toUInt64 := mul_prime_injective same
  have high := congrArg (fun word : UInt64 => word >>> 8) mixed
  simp only [UInt64.shiftRight_xor, low, UInt64.xor_zero] at high
  have firsts := apart first (List.mem_range.mpr small) first' (List.mem_range.mpr small') high
  subst firsts
  rw [UInt64.xor_right_inj] at mixed
  refine ⟨rfl, ?_⟩
  have values := congrArg UInt64.toNat mixed
  rw [UInt8.toNat_toUInt64, UInt8.toNat_toUInt64] at values
  exact UInt8.toNat_inj.mp values

/-- 4352 strings of two bytes. -/
def manyStrings : List UpsertCall :=
  (List.range 17 ×ˢ List.range 256).map
    (fun pair => ⟨[UInt8.ofNat pair.1, UInt8.ofNat pair.2], 0, 0⟩)

theorem nodup_manyStrings : (manyStrings.map UpsertCall.key).Nodup := by
  unfold manyStrings
  rw [List.map_map]
  refine List.Nodup.map_on ?_ (List.Nodup.product List.nodup_range List.nodup_range)
  intro ⟨first, second⟩ member ⟨first', second'⟩ member' same
  rw [List.mem_product, List.mem_range, List.mem_range] at member member'
  simp only [Function.comp_apply, UpsertCall.key] at same
  obtain ⟨firsts, seconds⟩ := pmsFnv1a_pair member.1 member'.1 same
  have values := congrArg UInt8.toNat seconds
  rw [UInt8.toNat_ofNat', UInt8.toNat_ofNat', Nat.mod_eq_of_lt member.2,
    Nat.mod_eq_of_lt member'.2] at values
  exact Prod.ext firsts values

/-- One of them has no room in the table. -/
theorem exists_not_kept : ∃ call ∈ manyStrings, call.bytes ≠ [] ∧
    call.key ∉ keptKeys manyStrings := by
  have nonempty : ∀ call ∈ manyStrings, call.bytes ≠ [] := by
    intro call member
    obtain ⟨pair, _, rfl⟩ := List.mem_map.mp member
    exact List.cons_ne_nil _ _
  by_contra allKept
  have subset : manyStrings.map UpsertCall.key ⊆ keptKeys manyStrings := by
    intro key member
    obtain ⟨call, inMany, rfl⟩ := List.mem_map.mp member
    by_contra notKept
    exact allKept ⟨call, inMany, nonempty call inMany, notKept⟩
  have bound := (nodup_manyStrings.subperm subset).length_le
  have many : manyStrings.length = 4352 := by
    rw [manyStrings, List.length_map, List.length_product, List.length_range, List.length_range]
  rw [List.length_map, many, length_keptKeys] at bound
  have cap : kStrInvCap = 4096 := rfl
  omega

theorem keptKeys_append_replicate {calls : List UpsertCall} {call : UpsertCall}
    (member : call ∈ calls) (nonempty : call.bytes ≠ []) (count : Nat) :
    keptKeys (calls ++ List.replicate count call) = keptKeys calls := by
  induction count with
  | zero => rw [List.replicate_zero, List.append_nil]
  | succ count inductionHypothesis =>
      have seen : call.key ∈ firstKeys (calls ++ List.replicate count call) :=
        mem_firstKeys_of_mem (List.mem_append_left _ member) nonempty
      rw [List.replicate_succ', ← List.append_assoc, keptKeys_append_seen nonempty seen,
        inductionHypothesis]

/-- Some run drops more calls than the counter shows. -/
theorem dropped_wraps : ∃ calls : List UpsertCall,
    (calls.foldl strinvUpsert .empty).dropped.toNat ≠ (droppedCalls calls).length := by
  obtain ⟨call, member, nonempty, notKept⟩ := exists_not_kept
  refine ⟨manyStrings ++ List.replicate (2 ^ 32) call, ?_⟩
  have kept := keptKeys_append_replicate member nonempty (2 ^ 32)
  have again : List.replicate (2 ^ 32) call =
      (List.replicate (2 ^ 32) call).filter (fun other => other.bytes ≠ [] ∧
        other.key ∉ keptKeys (manyStrings ++ List.replicate (2 ^ 32) call)) := by
    symm
    rw [List.filter_eq_self]
    intro other isCall
    rw [(List.mem_replicate.mp isCall).2, kept]
    simp [nonempty, notKept]
  have many : 2 ^ 32 ≤ (droppedCalls (manyStrings ++ List.replicate (2 ^ 32) call)).length := by
    unfold droppedCalls
    rw [List.filter_append, ← again, List.length_append, List.length_replicate]
    exact Nat.le_add_left _ _
  have counter := (recorded (manyStrings ++ List.replicate (2 ^ 32) call)).dropped.toNat_lt
  rw [foldl_strinvUpsert]
  omega

end StadiumRecomp.Census
