import StadiumRecomp.Lib.ProbeSet

/-!
Contract: the lock-free set of text-draw addresses.

Owns: `g_textpc_set`, the atomic accesses of `textpc_add` and `textpc_contains`, both as
one uninterrupted call, and what holds of every interleaving on nonzero addresses.

Does not own: which addresses are added.
-/

set_option autoImplicit false

namespace StadiumRecomp.Census

open StadiumRecomp.Lib.ProbeSet

/-! ## The table -/

def kTextPcSetN : Nat := 512

/-- `g_textpc_set`; zero is an empty slot. -/
abbrev PcSlots := Fin kTextPcSetN → UInt32

/-- The slot of a probe, `(h + i) & (kTextPcSetN - 1)`. -/
def pcSlot (pc : UInt32) (i : Nat) : Fin kTextPcSetN :=
  let h := (pc * 2654435761) &&& 511
  ⟨((h + UInt32.ofNat i) &&& 511).toNat, by
    rw [UInt32.toNat_and]
    exact Nat.lt_of_le_of_lt Nat.and_le_right (by decide)⟩

/-- `textpc_contains`, from a probe on, with so many probes left. -/
def containsFrom (slots : PcSlots) (pc : UInt32) : Nat → Nat → Bool
  | 0, _ => false
  | probes + 1, i =>
      let v := slots (pcSlot pc i)
      if v = pc then true
      else if v = 0 then false
      else containsFrom slots pc probes (i + 1)

/-- `textpc_contains` while no other thread runs. -/
def textpcContains (slots : PcSlots) (pc : UInt32) : Bool := containsFrom slots pc kTextPcSetN 0

/-- `textpc_add` from a probe on, while no other thread runs. -/
def addFrom (slots : PcSlots) (pc : UInt32) : Nat → Nat → PcSlots
  | 0, _ => slots
  | probes + 1, i =>
      let v := slots (pcSlot pc i)
      if v = pc then slots
      else if v = 0 then Function.update slots (pcSlot pc i) pc
      else addFrom slots pc probes (i + 1)

/-- `textpc_add` while no other thread runs. -/
def textpcAdd (slots : PcSlots) (pc : UInt32) : PcSlots :=
  if pc = 0 then slots else addFrom slots pc kTextPcSetN 0

/-! ## Interleavings -/

/-- The slots and the phase of every thread. -/
structure PcConfig (τ : Type) where
  slots : PcSlots
  phase : τ → Phase UInt32

def PcConfig.initial {τ : Type} : PcConfig τ := ⟨fun _ => 0, fun _ => .idle⟩

/-- `++i` of the loop in `textpc_add`. -/
def nextLoad (pc : UInt32) (i : Nat) : Phase UInt32 :=
  if i + 1 < kTextPcSetN then .load pc (i + 1) else .added pc

/-- `++i` of the loop in `textpc_contains`. -/
def nextSeek (pc : UInt32) (i : Nat) : Phase UInt32 :=
  if i + 1 < kTextPcSetN then .seek pc (i + 1) else .answer pc false

/-- `textpc_add` after its load of a slot. -/
def afterLoad (v pc : UInt32) (i : Nat) : Phase UInt32 :=
  if v = pc then .added pc else if v = 0 then .exchange pc i else nextLoad pc i

/-- `textpc_add` after the load behind a lost exchange. -/
def afterReload (v pc : UInt32) (i : Nat) : Phase UInt32 :=
  if v = pc then .added pc else nextLoad pc i

/-- `textpc_contains` after its load of a slot. -/
def afterSeek (v pc : UInt32) (i : Nat) : Phase UInt32 :=
  if v = pc then .answer pc true else if v = 0 then .answer pc false else nextSeek pc i

section Steps

variable {τ : Type} [DecidableEq τ]

/-- One atomic access, call or return of one thread. -/
inductive PcStep : PcConfig τ → Event τ UInt32 → PcConfig τ → Prop
  | startAdd {config : PcConfig τ} {thread : τ} {pc : UInt32} :
      config.phase thread = .idle → pc ≠ 0 →
      PcStep config (.startAdd thread pc)
        ⟨config.slots, Function.update config.phase thread (.load pc 0)⟩
  | startContains {config : PcConfig τ} {thread : τ} {pc : UInt32} :
      config.phase thread = .idle → pc ≠ 0 →
      PcStep config (.startContains thread pc)
        ⟨config.slots, Function.update config.phase thread (.seek pc 0)⟩
  | load {config : PcConfig τ} {thread : τ} {pc : UInt32} {i : Nat} :
      config.phase thread = .load pc i →
      PcStep config (.load thread) ⟨config.slots, Function.update config.phase thread
        (afterLoad (config.slots (pcSlot pc i)) pc i)⟩
  | claim {config : PcConfig τ} {thread : τ} {pc : UInt32} {i : Nat} :
      config.phase thread = .exchange pc i → config.slots (pcSlot pc i) = 0 →
      PcStep config (.exchange thread) ⟨Function.update config.slots (pcSlot pc i) pc,
        Function.update config.phase thread (.added pc)⟩
  | lose {config : PcConfig τ} {thread : τ} {pc : UInt32} {i : Nat} :
      config.phase thread = .exchange pc i → config.slots (pcSlot pc i) ≠ 0 →
      PcStep config (.exchange thread)
        ⟨config.slots, Function.update config.phase thread (.reload pc i)⟩
  | reload {config : PcConfig τ} {thread : τ} {pc : UInt32} {i : Nat} :
      config.phase thread = .reload pc i →
      PcStep config (.reload thread) ⟨config.slots, Function.update config.phase thread
        (afterReload (config.slots (pcSlot pc i)) pc i)⟩
  | returnAdd {config : PcConfig τ} {thread : τ} {pc : UInt32} :
      config.phase thread = .added pc →
      PcStep config (.returnAdd thread pc)
        ⟨config.slots, Function.update config.phase thread .idle⟩
  | seek {config : PcConfig τ} {thread : τ} {pc : UInt32} {i : Nat} :
      config.phase thread = .seek pc i →
      PcStep config (.load thread) ⟨config.slots, Function.update config.phase thread
        (afterSeek (config.slots (pcSlot pc i)) pc i)⟩
  | returnContains {config : PcConfig τ} {thread : τ} {pc : UInt32} {found : Bool} :
      config.phase thread = .answer pc found →
      PcStep config (.returnContains thread pc found)
        ⟨config.slots, Function.update config.phase thread .idle⟩

inductive PcSteps : PcConfig τ → List (Event τ UInt32) → PcConfig τ → Prop
  | refl (config : PcConfig τ) : PcSteps config [] config
  | step {first middle last : PcConfig τ} {events : List (Event τ UInt32)}
      {event : Event τ UInt32} :
      PcSteps first events middle → PcStep middle event last →
      PcSteps first (events ++ [event]) last

/-- An interleaving from the empty table. -/
structure PcRun (τ : Type) [DecidableEq τ] where
  events : List (Event τ UInt32)
  config : PcConfig τ
  steps : PcSteps .initial events config

end Steps

/-! ## The probe sequence -/

theorem pcSlot_val (pc : UInt32) (i : Nat) :
    (pcSlot pc i).val = ((pc * 2654435761).toNat + i) % kTextPcSetN := by
  have mask : ∀ value : Nat, value &&& 511 = value % 512 :=
    fun value => Nat.and_two_pow_sub_one_eq_mod value 9
  unfold pcSlot kTextPcSetN
  simp only [UInt32.toNat_and, UInt32.toNat_add, UInt32.toNat_ofNat', UInt32.reduceToNat]
  rw [mask, mask]
  omega

/-- Every address visits every slot once in 512 probes. -/
def pcProbing : Probing UInt32 (Fin kTextPcSetN) where
  count := kTextPcSetN
  probe := pcSlot
  positive := by decide
  injective := by
    intro pc i j bound bound' same
    have values := congrArg Fin.val same
    rw [pcSlot_val, pcSlot_val] at values
    unfold kTextPcSetN at *
    omega
  surjective := by
    intro pc slot
    refine ⟨(slot.val + (kTextPcSetN - (pc * 2654435761).toNat % kTextPcSetN)) % kTextPcSetN,
      Nat.mod_lt _ (by decide), ?_⟩
    apply Fin.ext
    have bound := slot.isLt
    rw [pcSlot_val]
    unfold kTextPcSetN at *
    omega

/-! ## Calls alone -/

/-- What is found stands in a slot. -/
theorem exists_slot_of_containsFrom {slots : PcSlots} {pc : UInt32} {probes i : Nat}
    (found : containsFrom slots pc probes i = true) : ∃ slot, slots slot = pc := by
  induction probes generalizing i with
  | zero => cases found
  | succ probes inductionHypothesis =>
      rw [containsFrom] at found
      split at found
      next same => exact ⟨_, same⟩
      next =>
        split at found
        · cases found
        · exact inductionHypothesis found

/-- Zero stands for an empty slot: the probes find the first one. -/
theorem containsFrom_zero {slots : PcSlots} {probes i j : Nat} (reached : i ≤ j)
    (within : j < i + probes) (empty : slots (pcSlot 0 j) = 0) :
    containsFrom slots 0 probes i = true := by
  induction probes generalizing i with
  | zero => omega
  | succ probes inductionHypothesis =>
      rw [containsFrom]
      by_cases here : slots (pcSlot 0 i) = 0
      · exact if_pos here
      · rw [if_neg here, if_neg here]
        have later : i ≠ j := fun same => here (same ▸ empty)
        exact inductionHypothesis (by omega) (by omega)

/-- The set contains zero as long as it has room. -/
theorem textpcContains_zero_iff {slots : PcSlots} :
    textpcContains slots 0 = true ↔ ∃ slot, slots slot = 0 := by
  constructor
  · exact exists_slot_of_containsFrom
  · intro ⟨slot, empty⟩
    obtain ⟨j, within, same⟩ := pcProbing.surjective 0 slot
    rw [← same] at empty
    exact containsFrom_zero (Nat.zero_le j) (by rw [Nat.zero_add]; exact within) empty

/-- An add changes no slot but to its own address. -/
theorem addFrom_slot (slots : PcSlots) (pc : UInt32) (probes i : Nat) (slot : Fin kTextPcSetN) :
    addFrom slots pc probes i slot = slots slot ∨ addFrom slots pc probes i slot = pc := by
  induction probes generalizing i with
  | zero => exact .inl rfl
  | succ probes inductionHypothesis =>
      rw [addFrom]
      split
      · exact .inl rfl
      · split
        · by_cases here : slot = pcSlot pc i
          · rw [here, Function.update_self]
            exact .inr rfl
          · rw [Function.update_of_ne here]
            exact .inl rfl
        · exact inductionHypothesis (i + 1)

theorem textpcAdd_slot (slots : PcSlots) (pc : UInt32) (slot : Fin kTextPcSetN) :
    textpcAdd slots pc slot = slots slot ∨ textpcAdd slots pc slot = pc := by
  unfold textpcAdd
  split
  · exact .inl rfl
  · exact addFrom_slot slots pc kTextPcSetN 0 slot

/-! ## The table as a set of keys -/

/-- The key in a slot. -/
def keyOf (v : UInt32) : Option UInt32 := if v = 0 then none else some v

theorem keyOf_eq_some_iff {v pc : UInt32} : keyOf v = some pc ↔ v = pc ∧ pc ≠ 0 := by
  unfold keyOf
  split
  next zero =>
    subst zero
    simp only [reduceCtorEq, false_iff, not_and, not_not]
    exact fun same => same.symm
  next nonzero =>
    rw [Option.some.injEq]
    exact ⟨fun same => ⟨same, same ▸ nonzero⟩, fun both => both.1⟩

theorem keyOf_eq_none_iff {v : UInt32} : keyOf v = none ↔ v = 0 := by
  unfold keyOf
  split <;> simp_all

theorem keyOf_ne_none_iff {v : UInt32} : keyOf v ≠ none ↔ v ≠ 0 := by
  rw [ne_eq, keyOf_eq_none_iff]

theorem keyOf_of_ne {v : UInt32} (nonzero : v ≠ 0) : keyOf v = some v :=
  keyOf_eq_some_iff.mpr ⟨rfl, nonzero⟩

/-- The configuration as the library sees it. -/
def PcConfig.view {τ : Type} (config : PcConfig τ) : Config UInt32 (Fin kTextPcSetN) τ :=
  ⟨fun slot => keyOf (config.slots slot), config.phase⟩

theorem afterLoad_view {v pc : UInt32} (nonzero : pc ≠ 0) (i : Nat) :
    pcProbing.afterLoad (keyOf v) pc i = afterLoad v pc i := by
  unfold Probing.afterLoad afterLoad keyOf
  by_cases zero : v = 0
  · subst zero
    rw [if_pos rfl, if_neg (Ne.symm nonzero), if_pos rfl]
  · rw [if_neg zero]
    simp only [if_neg zero]
    rfl

theorem afterReload_view {v pc : UInt32} (nonzero : pc ≠ 0) (i : Nat) :
    pcProbing.afterReload (keyOf v) pc i = afterReload v pc i := by
  have same : keyOf v = some pc ↔ v = pc :=
    keyOf_eq_some_iff.trans (and_iff_left nonzero)
  unfold Probing.afterReload afterReload
  simp only [same]
  rfl

theorem afterSeek_view {v pc : UInt32} (nonzero : pc ≠ 0) (i : Nat) :
    pcProbing.afterSeek (keyOf v) pc i = afterSeek v pc i := by
  unfold Probing.afterSeek afterSeek keyOf
  by_cases zero : v = 0
  · subst zero
    rw [if_pos rfl, if_neg (Ne.symm nonzero), if_pos rfl]
  · rw [if_neg zero]
    simp only [if_neg zero]
    rfl

/-! ## The code refines the set -/

/-- The address of a running operation is not zero. -/
def NonzeroPc : Phase UInt32 → Prop
  | .idle => True
  | .load pc _ => pc ≠ 0
  | .exchange pc _ => pc ≠ 0
  | .reload pc _ => pc ≠ 0
  | .added pc => pc ≠ 0
  | .seek pc _ => pc ≠ 0
  | .answer pc _ => pc ≠ 0

theorem nonzeroPc_nextLoad {pc : UInt32} (nonzero : pc ≠ 0) (i : Nat) :
    NonzeroPc (nextLoad pc i) := by
  unfold nextLoad
  split <;> exact nonzero

theorem nonzeroPc_afterLoad {pc : UInt32} (nonzero : pc ≠ 0) (v : UInt32) (i : Nat) :
    NonzeroPc (afterLoad v pc i) := by
  unfold afterLoad
  split
  · exact nonzero
  · split
    · exact nonzero
    · exact nonzeroPc_nextLoad nonzero i

theorem nonzeroPc_afterReload {pc : UInt32} (nonzero : pc ≠ 0) (v : UInt32) (i : Nat) :
    NonzeroPc (afterReload v pc i) := by
  unfold afterReload
  split
  · exact nonzero
  · exact nonzeroPc_nextLoad nonzero i

theorem nonzeroPc_afterSeek {pc : UInt32} (nonzero : pc ≠ 0) (v : UInt32) (i : Nat) :
    NonzeroPc (afterSeek v pc i) := by
  unfold afterSeek nextSeek
  split
  · exact nonzero
  · split
    · exact nonzero
    · split <;> exact nonzero

section Refinement

variable {τ : Type} [DecidableEq τ]

theorem nonzeroPc_update {phases : τ → Phase UInt32} (nonzero : ∀ thread, NonzeroPc (phases thread))
    {thread : τ} {next : Phase UInt32} (isNonzero : NonzeroPc next) (other : τ) :
    NonzeroPc (Function.update phases thread next other) := by
  by_cases same : other = thread
  · rw [same, Function.update_self]
    exact isNonzero
  · rw [Function.update_of_ne same]
    exact nonzero other

theorem PcStep.nonzeroPc {config next : PcConfig τ} {event : Event τ UInt32}
    (step : PcStep config event next) (nonzero : ∀ thread, NonzeroPc (config.phase thread)) :
    ∀ thread, NonzeroPc (next.phase thread) := by
  cases step with
  | startAdd _ isNonzero => exact nonzeroPc_update nonzero isNonzero
  | startContains _ isNonzero => exact nonzeroPc_update nonzero isNonzero
  | @load thread pc i phase =>
      have isNonzero := nonzero thread
      rw [phase] at isNonzero
      exact nonzeroPc_update nonzero (nonzeroPc_afterLoad isNonzero _ i)
  | @claim thread pc i phase _ =>
      have isNonzero := nonzero thread
      rw [phase] at isNonzero
      exact nonzeroPc_update nonzero isNonzero
  | @lose thread pc i phase _ =>
      have isNonzero := nonzero thread
      rw [phase] at isNonzero
      exact nonzeroPc_update nonzero isNonzero
  | @reload thread pc i phase =>
      have isNonzero := nonzero thread
      rw [phase] at isNonzero
      exact nonzeroPc_update nonzero (nonzeroPc_afterReload isNonzero _ i)
  | returnAdd => exact nonzeroPc_update nonzero trivial
  | @seek thread pc i phase =>
      have isNonzero := nonzero thread
      rw [phase] at isNonzero
      exact nonzeroPc_update nonzero (nonzeroPc_afterSeek isNonzero _ i)
  | returnContains => exact nonzeroPc_update nonzero trivial

/-- Every atomic access of the code is one of the set. -/
theorem PcStep.refines {config next : PcConfig τ} {event : Event τ UInt32}
    (step : PcStep config event next) (nonzero : ∀ thread, NonzeroPc (config.phase thread)) :
    pcProbing.Step config.view event next.view := by
  cases step with
  | startAdd phase _ => exact .startAdd _ phase
  | startContains phase _ => exact .startContains _ phase
  | @load thread pc i phase =>
      have isNonzero := nonzero thread
      rw [phase] at isNonzero
      unfold PcConfig.view
      rw [← afterLoad_view isNonzero]
      exact .load phase
  | @claim thread pc i phase empty =>
      have isNonzero := nonzero thread
      rw [phase] at isNonzero
      have slots : (fun slot => keyOf (Function.update config.slots (pcSlot pc i) pc slot)) =
          Function.update config.view.slots (pcSlot pc i) (some pc) := by
        funext slot
        by_cases same : slot = pcSlot pc i
        · rw [same, Function.update_self, Function.update_self, keyOf_of_ne isNonzero]
        · rw [Function.update_of_ne same, Function.update_of_ne same]
          rfl
      unfold PcConfig.view
      rw [slots]
      exact .claim phase (keyOf_eq_none_iff.mpr empty)
  | lose phase taken => exact .lose phase (keyOf_ne_none_iff.mpr taken)
  | @reload thread pc i phase =>
      have isNonzero := nonzero thread
      rw [phase] at isNonzero
      unfold PcConfig.view
      rw [← afterReload_view isNonzero]
      exact .reload phase
  | returnAdd phase => exact .returnAdd phase
  | @seek thread pc i phase =>
      have isNonzero := nonzero thread
      rw [phase] at isNonzero
      unfold PcConfig.view
      rw [← afterSeek_view isNonzero]
      exact .seek phase
  | returnContains phase => exact .returnContains phase

theorem PcSteps.refines {last : PcConfig τ} {events : List (Event τ UInt32)}
    (steps : PcSteps .initial events last) :
    (∀ thread, NonzeroPc (last.phase thread)) ∧
      pcProbing.Steps Config.initial events last.view := by
  induction steps with
  | refl => exact ⟨fun _ => trivial, .refl _⟩
  | step _ step inductionHypothesis =>
      obtain ⟨nonzero, refined⟩ := inductionHypothesis
      exact ⟨step.nonzeroPc nonzero, .step refined (step.refines nonzero)⟩

/-- A thread in a call can always take its next access or return. -/
theorem exists_pcStep {config : PcConfig τ} {thread : τ} (busy : config.phase thread ≠ .idle) :
    ∃ event next, event.thread = thread ∧ event.addedKey = none ∧ PcStep config event next := by
  cases phase : config.phase thread with
  | idle => exact absurd phase busy
  | load pc i => exact ⟨_, _, rfl, rfl, .load phase⟩
  | exchange pc i =>
      by_cases empty : config.slots (pcSlot pc i) = 0
      · exact ⟨_, _, rfl, rfl, .claim phase empty⟩
      · exact ⟨_, _, rfl, rfl, .lose phase empty⟩
  | reload pc i => exact ⟨_, _, rfl, rfl, .reload phase⟩
  | added pc => exact ⟨_, _, rfl, rfl, .returnAdd phase⟩
  | seek pc i => exact ⟨_, _, rfl, rfl, .seek phase⟩
  | answer pc found => exact ⟨_, _, rfl, rfl, .returnContains phase⟩

/-! ## Every interleaving -/

/-- A thread's calls are over before its next one: between a call and its return it makes
only accesses. -/
def WithinCall (thread : τ) (between : List (Event τ UInt32)) : Prop :=
  ∀ event ∈ between, event.thread = thread → event.IsAccess

/-- Linear probing under an interleaving. -/
structure ProbesCorrectly (run : PcRun τ) : Prop where
  /-- A slot never changes once nonzero. -/
  fixed : ∀ event next, PcStep run.config event next → ∀ slot, run.config.slots slot ≠ 0 →
    next.slots slot = run.config.slots slot
  /-- No address occupies two slots. -/
  distinct : ∀ slot other, run.config.slots slot ≠ 0 →
    run.config.slots slot = run.config.slots other → slot = other
  /-- Only an address whose add has started is found. -/
  foundAdded : ∀ before thread pc after,
    run.events = before ++ .returnContains thread pc true :: after →
      ∃ adder, .startAdd adder pc ∈ before
  /-- A lookup that starts after an add has returned finds the address. -/
  addedFound : (addedKeys run.events).dedup.length ≤ kTextPcSetN →
    ∀ before thread pc between found after,
      run.events = before ++ .startContains thread pc ::
        (between ++ .returnContains thread pc found :: after) →
      WithinCall thread between → (∃ adder, .returnAdd adder pc ∈ before) → found = true
  /-- A call probes at most 512 slots. -/
  fewProbes : ∀ before call thread pc between after,
    run.events = before ++ call :: (between ++ after) →
      call = .startAdd thread pc ∨ call = .startContains thread pc → WithinCall thread between →
      between.countP (fun event => event.thread = thread && event.isLoad) ≤ kTextPcSetN ∧
        between.countP (fun event => event.thread = thread) ≤ 3 * kTextPcSetN
  /-- A running call can always go on. -/
  goesOn : ∀ thread, run.config.phase thread ≠ .idle →
    ∃ event next, event.thread = thread ∧ event.addedKey = none ∧
      PcStep run.config event next

/-- An address in the table was added. -/
theorem exists_startAdd_of_slot {run : PcRun τ} {slot : Fin kTextPcSetN}
    (taken : run.config.slots slot ≠ 0) :
    ∃ adder, .startAdd adder (run.config.slots slot) ∈ run.events := by
  obtain ⟨_, refined⟩ := run.steps.refines
  have inv := pcProbing.inv_initial.steps refined
  rw [List.nil_append] at inv
  exact mem_addedKeys.mp (inv.started slot _ (keyOf_of_ne taken))

/-- What a lookup returns after an add has returned, and what calls it may lack. -/
theorem found_of_returned {run : PcRun τ}
    (few : (addedKeys run.events).dedup.length ≤ kTextPcSetN)
    {before between after : List (Event τ UInt32)} {thread : τ} {pc : UInt32} {found : Bool}
    (shape : run.events = before ++ .startContains thread pc ::
      (between ++ .returnContains thread pc found :: after))
    (within : WithinCall thread between) (returned : ∃ adder, .returnAdd adder pc ∈ before) :
    found = true := by
  obtain ⟨_, refined⟩ := run.steps.refines
  rw [shape] at refined
  obtain ⟨started, toStart, fromStart⟩ := refined.split
  obtain ⟨called, call, inCall⟩ := fromStart.head
  obtain ⟨ready, toReturn, fromReturn⟩ := inCall.split
  obtain ⟨answered, answer, _⟩ := fromReturn.head
  obtain ⟨adder, isReturned⟩ := returned
  have inv := pcProbing.inv_initial.steps toStart
  obtain ⟨isAdded, settled⟩ := inv.returned adder pc isReturned
  have due := Probing.due_of_settled inv settled
  cases call with
  | startContains _ phase =>
      have finds : pcProbing.Finds ready.slots pc (ready.phase thread) := by
        refine Probing.Finds.steps ?_ toReturn within
        simp only [Function.update_self]
        exact ⟨rfl, due⟩
      cases answer with
      | returnContains isAnswer =>
          rw [isAnswer] at finds
          rcases finds.2 with isFound | full
          · exact isFound
          · exfalso
            have whole := pcProbing.inv_initial.steps refined
            have fullLast := full.grow fromReturn.grows
            have added : pc ∈ addedKeys run.events := by
              rw [shape]
              exact Probing.mem_addedKeys_append isAdded
            rw [List.nil_append, ← shape] at whole
            have many := Probing.count_lt_of_full whole added fullLast
            exact absurd few (Nat.not_le.mpr many)

theorem accesses_of_call {run : PcRun τ} {before between after : List (Event τ UInt32)}
    {call : Event τ UInt32} {thread : τ} {pc : UInt32}
    (shape : run.events = before ++ call :: (between ++ after))
    (isCall : call = .startAdd thread pc ∨ call = .startContains thread pc)
    (within : WithinCall thread between) :
    between.countP (fun event => event.thread = thread && event.isLoad) ≤ kTextPcSetN ∧
      between.countP (fun event => event.thread = thread) ≤ 3 * kTextPcSetN := by
  obtain ⟨_, refined⟩ := run.steps.refines
  rw [shape] at refined
  obtain ⟨started, toStart, fromStart⟩ := refined.split
  obtain ⟨called, step, inCall⟩ := fromStart.head
  obtain ⟨last, toLast, _⟩ := inCall.split
  have inv := (pcProbing.inv_initial.steps toStart).step step
  obtain ⟨loads, accesses⟩ := Probing.Steps.left inv toLast within
  have start : pcProbing.loadsLeft (called.phase thread) = kTextPcSetN ∧
      pcProbing.accessesLeft (called.phase thread) = 3 * kTextPcSetN := by
    rcases isCall with rfl | rfl
    · cases step with
      | startAdd => simp only [Function.update_self]; exact ⟨rfl, rfl⟩
    · cases step with
      | startContains => simp only [Function.update_self]; exact ⟨rfl, rfl⟩
  rw [start.1] at loads
  rw [start.2] at accesses
  exact ⟨by omega, by omega⟩

/-- The set is correct under every interleaving of any threads. -/
theorem textpcSet_probesCorrectly (run : PcRun τ) : ProbesCorrectly run := by
  obtain ⟨nonzero, refined⟩ := run.steps.refines
  have inv := pcProbing.inv_initial.steps refined
  rw [List.nil_append] at inv
  constructor
  case fixed =>
    intro event next step slot taken
    have held := (step.refines nonzero).grows slot _ (keyOf_of_ne taken)
    exact (keyOf_eq_some_iff.mp held).1
  case distinct =>
    intro slot other taken same
    have held : run.config.view.slots other = some (run.config.slots slot) := by
      rw [same] at taken ⊢
      exact keyOf_of_ne taken
    exact inv.distinct slot other _ (keyOf_of_ne taken) held
  case foundAdded =>
    intro before thread pc after shape
    rw [shape] at refined
    obtain ⟨ready, toReturn, fromReturn⟩ := refined.split
    obtain ⟨_, step, _⟩ := fromReturn.head
    have reached := pcProbing.inv_initial.steps toReturn
    cases step with
    | returnContains phase =>
        have knows := reached.knows thread
        rw [phase] at knows
        obtain ⟨slot, held⟩ := knows rfl
        exact mem_addedKeys.mp (reached.started slot pc held)
  case addedFound =>
    intro few before thread pc between found after shape within returned
    exact found_of_returned few shape within returned
  case fewProbes =>
    intro before call thread pc between after shape isCall within
    exact accesses_of_call shape isCall within
  case goesOn => exact fun thread busy => exists_pcStep busy

/-! ## A lost exchange -/

/-- A step in front of an interleaving. -/
theorem PcSteps.next {first middle last : PcConfig τ} {events : List (Event τ UInt32)}
    {event : Event τ UInt32} (step : PcStep first event middle)
    (steps : PcSteps middle events last) : PcSteps first (event :: events) last := by
  induction steps with
  | refl => exact .step (.refl _) step
  | step _ last inductionHypothesis => exact .step inductionHypothesis last

end Refinement

def racedAddress : UInt32 := 0x80040000

/-- Two threads add one address: both find its slot empty, and one of them loses it. -/
def racingRun : PcRun Bool where
  events := [.startAdd false racedAddress, .startAdd true racedAddress, .load false, .load true,
    .exchange false, .exchange true, .reload true, .returnAdd true racedAddress,
    .returnAdd false racedAddress]
  config := _
  steps := .next (.startAdd rfl (by decide)) <| .next (.startAdd rfl (by decide)) <|
    .next (.load rfl) <| .next (.load rfl) <| .next (.claim rfl rfl) <|
    .next (.lose rfl (by decide)) <| .next (.reload rfl) <| .next (.returnAdd rfl) <|
    .next (.returnAdd rfl) <| .refl _

example : racingRun.config.slots =
    Function.update (fun _ => 0) (pcSlot racedAddress 0) racedAddress := rfl

end StadiumRecomp.Census
