import Mathlib.Data.List.Dedup
import Mathlib.Data.List.Induction
import Mathlib.Data.List.Perm.Subperm
import Mathlib.Order.Basic
import Mathlib.Logic.Function.Basic

/-!
Contract: a set by linear probing that threads fill with single compare-exchanges.

Owns: probe sequences, the phases of `add` and `contains`, their interleavings, the
invariant of every interleaving, and what it says about membership and probe counts.

Does not own: the encoding of an empty slot and the hash behind the probe sequence.
-/

set_option autoImplicit false

namespace StadiumRecomp.Lib.ProbeSet

/-- Probe sequences: each key visits every slot exactly once. -/
structure Probing (κ σ : Type) where
  count : Nat
  probe : κ → Nat → σ
  positive : 0 < count
  injective : ∀ {key : κ} {i j : Nat}, i < count → j < count → probe key i = probe key j → i = j
  surjective : ∀ (key : κ) (slot : σ), ∃ i < count, probe key i = slot

/-- Where a thread stands in its operation. The number is that of the probe. -/
inductive Phase (κ : Type) where
  | idle
  | load (key : κ) (i : Nat)
  | exchange (key : κ) (i : Nat)
  | reload (key : κ) (i : Nat)
  | added (key : κ)
  | seek (key : κ) (i : Nat)
  | answer (key : κ) (found : Bool)

/-- What an interleaving is made of: calls, atomic accesses and returns. -/
inductive Event (τ κ : Type) where
  | startAdd (thread : τ) (key : κ)
  | startContains (thread : τ) (key : κ)
  | load (thread : τ)
  | exchange (thread : τ)
  | reload (thread : τ)
  | returnAdd (thread : τ) (key : κ)
  | returnContains (thread : τ) (key : κ) (found : Bool)

namespace Event

variable {τ κ : Type}

def thread : Event τ κ → τ
  | startAdd thread _ => thread
  | startContains thread _ => thread
  | load thread => thread
  | exchange thread => thread
  | reload thread => thread
  | returnAdd thread _ => thread
  | returnContains thread _ _ => thread

/-- An atomic access, inside an operation. -/
def IsAccess : Event τ κ → Prop
  | load _ => True
  | exchange _ => True
  | reload _ => True
  | _ => False

/-- A load of a probed slot. -/
def isLoad : Event τ κ → Bool
  | load _ => true
  | _ => false

/-- The key a call of `add` is about. -/
def addedKey : Event τ κ → Option κ
  | startAdd _ key => some key
  | _ => none

end Event

variable {κ σ τ : Type}

/-- The keys whose `add` has started. -/
def addedKeys (events : List (Event τ κ)) : List κ := events.filterMap Event.addedKey

theorem mem_addedKeys {events : List (Event τ κ)} {key : κ} :
    key ∈ addedKeys events ↔ ∃ thread, Event.startAdd thread key ∈ events := by
  unfold addedKeys
  rw [List.mem_filterMap]
  constructor
  · intro ⟨event, member, added⟩
    cases event with
    | startAdd thread other =>
        cases added
        exact ⟨thread, member⟩
    | _ => cases added
  · intro ⟨thread, member⟩
    exact ⟨_, member, rfl⟩

/-- The slots and the phase of every thread. -/
structure Config (κ σ τ : Type) where
  slots : σ → Option κ
  phase : τ → Phase κ

def Config.initial : Config κ σ τ := ⟨fun _ => none, fun _ => .idle⟩

namespace Probing

variable (probing : Probing κ σ)

/-- After a probe that neither found the key nor an empty slot. -/
def nextLoad (key : κ) (i : Nat) : Phase κ :=
  if i + 1 < probing.count then .load key (i + 1) else .added key

def nextSeek (key : κ) (i : Nat) : Phase κ :=
  if i + 1 < probing.count then .seek key (i + 1) else .answer key false

section Steps

variable [DecidableEq κ] [DecidableEq σ] [DecidableEq τ]

def afterLoad (value : Option κ) (key : κ) (i : Nat) : Phase κ :=
  match value with
  | none => .exchange key i
  | some other => if other = key then .added key else probing.nextLoad key i

def afterReload (value : Option κ) (key : κ) (i : Nat) : Phase κ :=
  if value = some key then .added key else probing.nextLoad key i

def afterSeek (value : Option κ) (key : κ) (i : Nat) : Phase κ :=
  match value with
  | none => .answer key false
  | some other => if other = key then .answer key true else probing.nextSeek key i

/-- One atomic access, call or return of one thread. -/
inductive Step : Config κ σ τ → Event τ κ → Config κ σ τ → Prop
  | startAdd {config : Config κ σ τ} {thread : τ} (key : κ) :
      config.phase thread = .idle →
      Step config (.startAdd thread key)
        ⟨config.slots, Function.update config.phase thread (.load key 0)⟩
  | startContains {config : Config κ σ τ} {thread : τ} (key : κ) :
      config.phase thread = .idle →
      Step config (.startContains thread key)
        ⟨config.slots, Function.update config.phase thread (.seek key 0)⟩
  | load {config : Config κ σ τ} {thread : τ} {key : κ} {i : Nat} :
      config.phase thread = .load key i →
      Step config (.load thread) ⟨config.slots, Function.update config.phase thread
        (probing.afterLoad (config.slots (probing.probe key i)) key i)⟩
  | claim {config : Config κ σ τ} {thread : τ} {key : κ} {i : Nat} :
      config.phase thread = .exchange key i → config.slots (probing.probe key i) = none →
      Step config (.exchange thread)
        ⟨Function.update config.slots (probing.probe key i) (some key),
          Function.update config.phase thread (.added key)⟩
  | lose {config : Config κ σ τ} {thread : τ} {key : κ} {i : Nat} :
      config.phase thread = .exchange key i → config.slots (probing.probe key i) ≠ none →
      Step config (.exchange thread)
        ⟨config.slots, Function.update config.phase thread (.reload key i)⟩
  | reload {config : Config κ σ τ} {thread : τ} {key : κ} {i : Nat} :
      config.phase thread = .reload key i →
      Step config (.reload thread) ⟨config.slots, Function.update config.phase thread
        (probing.afterReload (config.slots (probing.probe key i)) key i)⟩
  | returnAdd {config : Config κ σ τ} {thread : τ} {key : κ} :
      config.phase thread = .added key →
      Step config (.returnAdd thread key)
        ⟨config.slots, Function.update config.phase thread .idle⟩
  | seek {config : Config κ σ τ} {thread : τ} {key : κ} {i : Nat} :
      config.phase thread = .seek key i →
      Step config (.load thread) ⟨config.slots, Function.update config.phase thread
        (probing.afterSeek (config.slots (probing.probe key i)) key i)⟩
  | returnContains {config : Config κ σ τ} {thread : τ} {key : κ} {found : Bool} :
      config.phase thread = .answer key found →
      Step config (.returnContains thread key found)
        ⟨config.slots, Function.update config.phase thread .idle⟩

/-- An interleaving from one configuration to another. -/
inductive Steps : Config κ σ τ → List (Event τ κ) → Config κ σ τ → Prop
  | refl (config : Config κ σ τ) : Steps config [] config
  | step {first middle last : Config κ σ τ} {events : List (Event τ κ)} {event : Event τ κ} :
      Steps first events middle → probing.Step middle event last →
      Steps first (events ++ [event]) last

end Steps

/-! ## Slots only fill -/

/-- What one set of slots holds, the other holds at the same place. -/
def Grows (before after : σ → Option κ) : Prop :=
  ∀ slot key, before slot = some key → after slot = some key

theorem Grows.refl (slots : σ → Option κ) : Grows slots slots := fun _ _ held => held

theorem Grows.trans {before middle after : σ → Option κ} (first : Grows before middle)
    (second : Grows middle after) : Grows before after :=
  fun slot key held => second slot key (first slot key held)

theorem Grows.ne_none {before after : σ → Option κ} (grows : Grows before after) {slot : σ}
    (taken : before slot ≠ none) : after slot ≠ none := by
  obtain ⟨key, held⟩ := Option.ne_none_iff_exists'.mp taken
  rw [grows slot key held]
  exact Option.some_ne_none key

/-- Every probe before `i` met another key. -/
def Passed (slots : σ → Option κ) (key : κ) (i : Nat) : Prop :=
  ∀ j < i, ∃ other, slots (probing.probe key j) = some other ∧ other ≠ key

/-- Every slot holds another key. -/
def FullWithout (slots : σ → Option κ) (key : κ) : Prop :=
  ∀ slot, ∃ other, slots slot = some other ∧ other ≠ key

/-- The key is in the table, or the table is full without it. -/
def Settled (slots : σ → Option κ) (key : κ) : Prop :=
  (∃ slot, slots slot = some key) ∨ FullWithout slots key

/-- A key at a slot is where its probe sequence leads, behind taken slots. -/
def Reachable (slots : σ → Option κ) (slot : σ) (key : κ) : Prop :=
  ∃ i < probing.count, probing.probe key i = slot ∧
    ∀ j < i, slots (probing.probe key j) ≠ none

section Growing

variable {probing} {before after : σ → Option κ} (grows : Grows before after)

include grows

theorem Passed.grow {key : κ} {i : Nat} (passed : probing.Passed before key i) :
    probing.Passed after key i := by
  intro j less
  obtain ⟨other, held, different⟩ := passed j less
  exact ⟨other, grows _ _ held, different⟩

theorem FullWithout.grow {key : κ} (full : FullWithout before key) : FullWithout after key := by
  intro slot
  obtain ⟨other, held, different⟩ := full slot
  exact ⟨other, grows _ _ held, different⟩

theorem Settled.grow {key : κ} (settled : Settled before key) : Settled after key := by
  rcases settled with ⟨slot, held⟩ | full
  · exact Or.inl ⟨slot, grows slot key held⟩
  · exact Or.inr (full.grow grows)

theorem Reachable.grow {slot : σ} {key : κ} (reachable : probing.Reachable before slot key) :
    probing.Reachable after slot key := by
  obtain ⟨i, bound, here, taken⟩ := reachable
  exact ⟨i, bound, here, fun j less => grows.ne_none (taken j less)⟩

end Growing

theorem Passed.succ {probing : Probing κ σ} {slots : σ → Option κ} {key other : κ} {i : Nat}
    (passed : probing.Passed slots key i) (held : slots (probing.probe key i) = some other)
    (different : other ≠ key) : probing.Passed slots key (i + 1) := by
  intro j less
  rcases Nat.lt_succ_iff_lt_or_eq.mp less with earlier | rfl
  · exact passed j earlier
  · exact ⟨other, held, different⟩

theorem Passed.full {probing : Probing κ σ} {slots : σ → Option κ} {key : κ} {i : Nat}
    (passed : probing.Passed slots key i) (all : probing.count ≤ i) : FullWithout slots key := by
  intro slot
  obtain ⟨j, bound, rfl⟩ := probing.surjective key slot
  exact passed j (Nat.lt_of_lt_of_le bound all)

/-! ## The invariant -/

/-- What a thread knows in its phase. -/
def Knows (events : List (Event τ κ)) (slots : σ → Option κ) : Phase κ → Prop
  | .idle => True
  | .load key i => i < probing.count ∧ key ∈ addedKeys events ∧ probing.Passed slots key i
  | .exchange key i => i < probing.count ∧ key ∈ addedKeys events ∧ probing.Passed slots key i
  | .reload key i => i < probing.count ∧ key ∈ addedKeys events ∧ probing.Passed slots key i ∧
      slots (probing.probe key i) ≠ none
  | .added key => key ∈ addedKeys events ∧ Settled slots key
  | .seek _ i => i < probing.count
  | .answer key found => found = true → ∃ slot, slots slot = some key

/-- Holds after every interleaving from the empty table. -/
structure Inv (events : List (Event τ κ)) (config : Config κ σ τ) : Prop where
  started : ∀ slot key, config.slots slot = some key → key ∈ addedKeys events
  reachable : ∀ slot key, config.slots slot = some key →
    probing.Reachable config.slots slot key
  distinct : ∀ slot other key, config.slots slot = some key → config.slots other = some key →
    slot = other
  knows : ∀ thread, probing.Knows events config.slots (config.phase thread)
  returned : ∀ thread key, Event.returnAdd thread key ∈ events →
    key ∈ addedKeys events ∧ Settled config.slots key

theorem inv_initial : probing.Inv ([] : List (Event τ κ)) Config.initial where
  started := fun _ _ held => by cases held
  reachable := fun _ _ held => by cases held
  distinct := fun _ _ _ held _ => by cases held
  knows := fun _ => trivial
  returned := fun _ _ member => by cases member

theorem Knows.grow {probing : Probing κ σ} {events more : List (Event τ κ)}
    {before after : σ → Option κ} (grows : Grows before after)
    {phase : Phase κ} (knows : probing.Knows events before phase) :
    probing.Knows (events ++ more) after phase := by
  have kept : ∀ {key : κ}, key ∈ addedKeys events → key ∈ addedKeys (events ++ more) := by
    intro key member
    rw [addedKeys, List.filterMap_append]
    exact List.mem_append_left _ member
  cases phase with
  | idle => trivial
  | load key i => exact ⟨knows.1, kept knows.2.1, knows.2.2.grow grows⟩
  | exchange key i => exact ⟨knows.1, kept knows.2.1, knows.2.2.grow grows⟩
  | reload key i =>
      exact ⟨knows.1, kept knows.2.1, knows.2.2.1.grow grows, grows.ne_none knows.2.2.2⟩
  | added key => exact ⟨kept knows.1, knows.2.grow grows⟩
  | seek key i => exact knows
  | answer key found =>
      intro isFound
      obtain ⟨slot, held⟩ := knows isFound
      exact ⟨slot, grows slot key held⟩

/-- The key an adder claims an empty slot for is nowhere else: its probe sequence would
have passed it, or would have to pass the empty slot. -/
theorem Inv.absent {probing : Probing κ σ} {events : List (Event τ κ)}
    {config : Config κ σ τ} (inv : probing.Inv events config) {key : κ} {i : Nat} (bound : i < probing.count)
    (passed : probing.Passed config.slots key i)
    (empty : config.slots (probing.probe key i) = none) (slot : σ) :
    config.slots slot ≠ some key := by
  intro held
  obtain ⟨k, _, rfl, taken⟩ := inv.reachable slot key held
  rcases Nat.lt_trichotomy k i with before | rfl | behind
  · obtain ⟨other, isOther, different⟩ := passed k before
    rw [held] at isOther
    cases isOther
    exact different rfl
  · rw [held] at empty
    cases empty
  · exact taken i behind empty

theorem mem_addedKeys_append {events more : List (Event τ κ)} {key : κ}
    (member : key ∈ addedKeys events) : key ∈ addedKeys (events ++ more) := by
  rw [addedKeys, List.filterMap_append]
  exact List.mem_append_left _ member

section Knowing

variable {probing} {events : List (Event τ κ)}

/-- After a probe that met another key, the next one or the end of the operation. -/
theorem knows_nextLoad {slots : σ → Option κ} {key other : κ} {i : Nat}
    (isAdded : key ∈ addedKeys events) (passed : probing.Passed slots key i)
    (held : slots (probing.probe key i) = some other) (different : other ≠ key) :
    probing.Knows events slots (probing.nextLoad key i) := by
  have next := passed.succ held different
  unfold nextLoad
  split
  next bound => exact ⟨bound, isAdded, next⟩
  next all => exact ⟨isAdded, Or.inr (next.full (Nat.not_lt.mp all))⟩

variable [DecidableEq κ]

theorem knows_afterLoad {slots : σ → Option κ} {key : κ} {i : Nat} (bound : i < probing.count)
    (isAdded : key ∈ addedKeys events) (passed : probing.Passed slots key i) :
    probing.Knows events slots
      (probing.afterLoad (slots (probing.probe key i)) key i) := by
  unfold afterLoad
  cases held : slots (probing.probe key i) with
  | none => exact ⟨bound, isAdded, passed⟩
  | some other =>
      simp only
      split
      next same =>
        subst same
        exact ⟨isAdded, Or.inl ⟨_, held⟩⟩
      next different => exact knows_nextLoad isAdded passed held different

theorem knows_afterReload {slots : σ → Option κ} {key : κ} {i : Nat}
    (isAdded : key ∈ addedKeys events) (passed : probing.Passed slots key i)
    (taken : slots (probing.probe key i) ≠ none) :
    probing.Knows events slots
      (probing.afterReload (slots (probing.probe key i)) key i) := by
  obtain ⟨other, held⟩ := Option.ne_none_iff_exists'.mp taken
  unfold afterReload
  split
  next same => exact ⟨isAdded, Or.inl ⟨_, same⟩⟩
  next different =>
    exact knows_nextLoad isAdded passed held (fun same => different (same ▸ held))

theorem knows_afterSeek {slots : σ → Option κ} {key : κ} {i : Nat} :
    probing.Knows events slots
      (probing.afterSeek (slots (probing.probe key i)) key i) := by
  unfold afterSeek
  cases held : slots (probing.probe key i) with
  | none => exact fun impossible => by cases impossible
  | some other =>
      simp only
      split
      next same =>
        subst same
        exact fun _ => ⟨_, held⟩
      next =>
        unfold nextSeek
        split
        next bound => exact bound
        next => exact fun impossible => by cases impossible

end Knowing

section Preservation

variable {probing} [DecidableEq τ] {events : List (Event τ κ)} {config : Config κ σ τ}

/-- One thread moves on; the others keep what they know. -/
theorem knows_update {event : Event τ κ} {slots : σ → Option κ}
    (inv : probing.Inv events config) (grows : Grows config.slots slots) {thread : τ}
    {next : Phase κ} (knows : probing.Knows (events ++ [event]) slots next) (other : τ) :
    probing.Knows (events ++ [event]) slots (Function.update config.phase thread next other) := by
  by_cases same : other = thread
  · subst same
    rw [Function.update_self]
    exact knows
  · rw [Function.update_of_ne same]
    exact (inv.knows other).grow grows

/-- A step that leaves the slots alone. -/
theorem Inv.move (inv : probing.Inv events config) {event : Event τ κ} {thread : τ}
    {next : Phase κ} (knows : probing.Knows (events ++ [event]) config.slots next)
    (returns : ∀ other key, event = .returnAdd other key →
      key ∈ addedKeys events ∧ Settled config.slots key) :
    probing.Inv (events ++ [event])
      ⟨config.slots, Function.update config.phase thread next⟩ where
  started := fun slot key held => mem_addedKeys_append (inv.started slot key held)
  reachable := inv.reachable
  distinct := inv.distinct
  knows := knows_update inv (Grows.refl _) knows
  returned := by
    intro other key member
    rcases List.mem_append.mp member with earlier | now
    · obtain ⟨added, settled⟩ := inv.returned other key earlier
      exact ⟨mem_addedKeys_append added, settled⟩
    · obtain ⟨added, settled⟩ := returns other key (List.mem_singleton.mp now).symm
      exact ⟨mem_addedKeys_append added, settled⟩

variable [DecidableEq σ]

theorem grows_update {slots : σ → Option κ} {slot : σ} (empty : slots slot = none) (key : κ) :
    Grows slots (Function.update slots slot (some key)) := by
  intro other held isHeld
  have different : other ≠ slot := by
    rintro rfl
    rw [empty] at isHeld
    cases isHeld
  rw [Function.update_of_ne different]
  exact isHeld

theorem Inv.claim (inv : probing.Inv events config) {thread : τ} {key : κ} {i : Nat}
    (phase : config.phase thread = .exchange key i)
    (empty : config.slots (probing.probe key i) = none) :
    probing.Inv (events ++ [.exchange thread])
      ⟨Function.update config.slots (probing.probe key i) (some key),
        Function.update config.phase thread (.added key)⟩ := by
  have known := inv.knows thread
  rw [phase] at known
  obtain ⟨bound, isAdded, passed⟩ := known
  have grows := grows_update empty key
  have absent := inv.absent bound passed empty
  have here : Function.update config.slots (probing.probe key i) (some key)
      (probing.probe key i) = some key := Function.update_self _ _ _
  have old : ∀ {slot other},
      Function.update config.slots (probing.probe key i) (some key) slot = some other →
      (slot = probing.probe key i ∧ other = key) ∨ config.slots slot = some other := by
    intro slot other held
    by_cases same : slot = probing.probe key i
    · rw [same, here] at held
      exact Or.inl ⟨same, (Option.some.inj held).symm⟩
    · rw [Function.update_of_ne same] at held
      exact Or.inr held
  constructor
  case started =>
    intro slot other held
    rcases old held with ⟨_, rfl⟩ | held
    · exact mem_addedKeys_append isAdded
    · exact mem_addedKeys_append (inv.started slot other held)
  case reachable =>
    intro slot other held
    rcases old held with ⟨rfl, rfl⟩ | held
    · refine ⟨i, bound, rfl, ?_⟩
      intro j less
      obtain ⟨passedKey, isPassed, _⟩ := passed j less
      exact grows.ne_none (by rw [isPassed]; exact Option.some_ne_none _)
    · exact (inv.reachable slot other held).grow grows
  case distinct =>
    intro slot slot' other held held'
    rcases old held with ⟨rfl, rfl⟩ | held <;> rcases old held' with ⟨rfl, isKey⟩ | held'
    · rfl
    · exact absurd held' (absent slot')
    · exact absurd (isKey ▸ held) (absent slot)
    · exact inv.distinct slot slot' other held held'
  case knows => exact knows_update inv grows ⟨mem_addedKeys_append isAdded, Or.inl ⟨_, here⟩⟩
  case returned =>
    intro other otherKey member
    rcases List.mem_append.mp member with earlier | now
    · obtain ⟨added, settled⟩ := inv.returned other otherKey earlier
      exact ⟨mem_addedKeys_append added, settled.grow grows⟩
    · cases List.mem_singleton.mp now

variable [DecidableEq κ]

/-- Every step of every thread keeps the invariant. -/
theorem Inv.step (inv : probing.Inv events config) {event : Event τ κ} {next : Config κ σ τ}
    (step : probing.Step config event next) : probing.Inv (events ++ [event]) next := by
  cases step with
  | startAdd key phase =>
      refine inv.move ⟨probing.positive, ?_, fun j less => absurd less (Nat.not_lt_zero j)⟩
        (fun _ _ returns => by cases returns)
      exact mem_addedKeys.mpr ⟨_, List.mem_append_right _ (List.mem_singleton_self _)⟩
  | startContains key phase =>
      exact inv.move probing.positive (fun _ _ returns => by cases returns)
  | @load thread key i phase =>
      have known := inv.knows thread
      rw [phase] at known
      exact inv.move (knows_afterLoad known.1 (mem_addedKeys_append known.2.1) known.2.2)
        (fun _ _ returns => by cases returns)
  | claim phase empty => exact inv.claim phase empty
  | @lose thread key i phase taken =>
      have known := inv.knows thread
      rw [phase] at known
      exact inv.move ⟨known.1, mem_addedKeys_append known.2.1, known.2.2, taken⟩
        (fun _ _ returns => by cases returns)
  | @reload thread key i phase =>
      have known := inv.knows thread
      rw [phase] at known
      exact inv.move (knows_afterReload (mem_addedKeys_append known.2.1) known.2.2.1 known.2.2.2)
        (fun _ _ returns => by cases returns)
  | @returnAdd thread key phase =>
      have known := inv.knows thread
      rw [phase] at known
      refine inv.move trivial ?_
      intro other otherKey returns
      cases returns
      exact known
  | seek phase => exact inv.move knows_afterSeek (fun _ _ returns => by cases returns)
  | returnContains phase => exact inv.move trivial (fun _ _ returns => by cases returns)

theorem Inv.steps {more : List (Event τ κ)} {last : Config κ σ τ}
    (inv : probing.Inv events config) (steps : probing.Steps config more last) :
    probing.Inv (events ++ more) last := by
  induction steps with
  | refl => rwa [List.append_nil]
  | step _ step inductionHypothesis =>
      rw [← List.append_assoc]
      exact inductionHypothesis.step step

end Preservation

/-! ## Frames -/

section Frames

variable {probing} [DecidableEq κ] [DecidableEq σ] [DecidableEq τ]
  {config next : Config κ σ τ} {event : Event τ κ}

/-- A taken slot keeps its key. -/
theorem Step.grows (step : probing.Step config event next) : Grows config.slots next.slots := by
  cases step with
  | claim phase empty => exact grows_update empty _
  | _ => exact Grows.refl _

theorem Steps.grows {events : List (Event τ κ)} (steps : probing.Steps config events next) :
    Grows config.slots next.slots := by
  induction steps with
  | refl => exact Grows.refl _
  | step _ step inductionHypothesis => exact inductionHypothesis.trans step.grows

/-- A step leaves the other threads where they are. -/
theorem Step.phase_other (step : probing.Step config event next) {thread : τ}
    (other : event.thread ≠ thread) : next.phase thread = config.phase thread := by
  cases step <;> exact Function.update_of_ne (Ne.symm other) _ _

theorem Steps.split {first last : Config κ σ τ} {before after : List (Event τ κ)}
    (steps : probing.Steps first (before ++ after) last) :
    ∃ middle, probing.Steps first before middle ∧ probing.Steps middle after last := by
  induction after using List.reverseRecOn generalizing last with
  | nil =>
      rw [List.append_nil] at steps
      exact ⟨last, steps, .refl last⟩
  | append_singleton after event inductionHypothesis =>
      rw [← List.append_assoc] at steps
      generalize whole : before ++ after ++ [event] = events at steps
      cases steps with
      | refl => simp at whole
      | step earlier step =>
          obtain ⟨same, isEvent⟩ := List.append_inj' whole rfl
          subst same
          cases isEvent
          obtain ⟨middle, left, right⟩ := inductionHypothesis earlier
          exact ⟨middle, left, .step right step⟩

theorem Steps.eq_of_nil {first last : Config κ σ τ} (steps : probing.Steps first [] last) :
    last = first := by
  generalize nothing : ([] : List (Event τ κ)) = events at steps
  cases steps with
  | refl => rfl
  | step => simp at nothing

theorem Steps.head {first last : Config κ σ τ} {events : List (Event τ κ)}
    (steps : probing.Steps first (event :: events) last) :
    ∃ middle, probing.Step first event middle ∧ probing.Steps middle events last := by
  have appended : probing.Steps first ([event] ++ events) last := steps
  obtain ⟨middle, single, rest⟩ := appended.split
  generalize whole : [event] = start at single
  cases single with
  | refl => cases whole
  | step before step =>
      rw [← List.nil_append [event]] at whole
      obtain ⟨empty, isEvent⟩ := List.append_inj' whole rfl
      cases isEvent
      subst empty
      rw [before.eq_of_nil] at step
      exact ⟨middle, step, rest⟩

end Frames

/-! ## Lookups -/

/-- The key lies at or behind probe `i`, or the table is full without it. -/
def Due (slots : σ → Option κ) (key : κ) (i : Nat) : Prop :=
  (∃ k, i ≤ k ∧ k < probing.count ∧ slots (probing.probe key k) = some key ∧
    ∀ j < k, slots (probing.probe key j) ≠ none) ∨ FullWithout slots key

/-- A lookup on its way to the key, or through with it. -/
def Finds (slots : σ → Option κ) (key : κ) : Phase κ → Prop
  | .seek other i => other = key ∧ probing.Due slots key i
  | .answer other found => other = key ∧ (found = true ∨ FullWithout slots key)
  | _ => False

section Lookup

variable {probing} {before after : σ → Option κ} {key : κ}

theorem Due.grow (grows : Grows before after) {i : Nat} (due : probing.Due before key i) :
    probing.Due after key i := by
  rcases due with ⟨k, behind, bound, held, taken⟩ | full
  · exact Or.inl ⟨k, behind, bound, grows _ _ held, fun j less => grows.ne_none (taken j less)⟩
  · exact Or.inr (full.grow grows)

theorem Finds.grow (grows : Grows before after) {phase : Phase κ}
    (finds : probing.Finds before key phase) : probing.Finds after key phase := by
  cases phase with
  | seek other i => exact ⟨finds.1, finds.2.grow grows⟩
  | answer other found => exact ⟨finds.1, finds.2.imp_right (fun full => full.grow grows)⟩
  | _ => exact finds

theorem due_of_settled {events : List (Event τ κ)} {config : Config κ σ τ}
    (inv : probing.Inv events config) (settled : Settled config.slots key) :
    probing.Due config.slots key 0 := by
  rcases settled with ⟨slot, held⟩ | full
  · obtain ⟨k, bound, rfl, taken⟩ := inv.reachable slot key held
    exact Or.inl ⟨k, Nat.zero_le k, bound, held, taken⟩
  · exact Or.inr full

variable [DecidableEq κ]

theorem finds_afterSeek {slots : σ → Option κ} {i : Nat} (due : probing.Due slots key i) :
    probing.Finds slots key (probing.afterSeek (slots (probing.probe key i)) key i) := by
  unfold afterSeek
  rcases due with ⟨k, behind, bound, held, taken⟩ | full
  · rcases Nat.lt_or_eq_of_le behind with later | rfl
    · obtain ⟨other, isOther⟩ := Option.ne_none_iff_exists'.mp (taken i later)
      rw [isOther]
      simp only
      split
      next => exact ⟨rfl, Or.inl rfl⟩
      next =>
        have more : i + 1 < probing.count := by omega
        rw [nextSeek, if_pos more]
        exact ⟨rfl, Or.inl ⟨k, later, bound, held, taken⟩⟩
    · rw [held]
      simp only [if_true]
      exact ⟨rfl, Or.inl rfl⟩
  · obtain ⟨other, isOther, different⟩ := full (probing.probe key i)
    rw [isOther]
    simp only
    rw [if_neg different, nextSeek]
    split
    next => exact ⟨rfl, Or.inr full⟩
    next => exact ⟨rfl, Or.inr full⟩

/-- A table full without a key whose `add` has started means one key too many. -/
theorem count_lt_of_full {events : List (Event τ κ)} {config : Config κ σ τ}
    (inv : probing.Inv events config) (isAdded : key ∈ addedKeys events)
    (full : FullWithout config.slots key) : probing.count < (addedKeys events).dedup.length := by
  have held : ∀ i, ∃ other, config.slots (probing.probe key i) = some other ∧ other ≠ key :=
    fun i => full _
  choose keyAt isAt different using held
  have nodup : (key :: (List.range probing.count).map keyAt).Nodup := by
    rw [List.nodup_cons]
    refine ⟨?_, ?_⟩
    · intro member
      obtain ⟨i, _, same⟩ := List.mem_map.mp member
      exact different i same
    · apply List.Nodup.map_on _ List.nodup_range
      intro i inRange j inRange' same
      have atI := isAt i
      have atJ := isAt j
      rw [← same] at atJ
      exact probing.injective (List.mem_range.mp inRange) (List.mem_range.mp inRange')
        (inv.distinct _ _ _ atI atJ)
  have subset : key :: (List.range probing.count).map keyAt ⊆ (addedKeys events).dedup := by
    intro other member
    rw [List.mem_dedup]
    rcases List.mem_cons.mp member with rfl | inMap
    · exact isAdded
    · obtain ⟨i, _, rfl⟩ := List.mem_map.mp inMap
      exact inv.started _ _ (isAt i)
  have bound := (List.subperm_of_subset nodup subset).length_le
  rw [List.length_cons, List.length_map, List.length_range] at bound
  omega

variable [DecidableEq σ] [DecidableEq τ]

/-- No step of another thread and no access of its own takes a lookup off its way. -/
theorem Finds.step {config next : Config κ σ τ} {event : Event τ κ} {thread : τ}
    (finds : probing.Finds config.slots key (config.phase thread))
    (step : probing.Step config event next) (inside : event.thread = thread → event.IsAccess) :
    probing.Finds next.slots key (next.phase thread) := by
  by_cases own : event.thread = thread
  · have access := inside own
    subst own
    cases phase : config.phase event.thread with
    | seek other i =>
        rw [phase] at finds
        obtain ⟨rfl, due⟩ := finds
        cases step with
        | seek isSeek =>
            simp only [Event.thread, Function.update_self] at phase ⊢
            rw [isSeek] at phase
            cases phase
            exact finds_afterSeek due
        | _ => simp_all [Event.thread, Event.IsAccess]
    | answer other found => cases step <;> simp_all [Event.thread, Event.IsAccess]
    | _ =>
        rw [phase] at finds
        exact finds.elim
  · rw [step.phase_other own]
    exact finds.grow step.grows

theorem Finds.steps {config last : Config κ σ τ} {events : List (Event τ κ)} {thread : τ}
    (finds : probing.Finds config.slots key (config.phase thread))
    (steps : probing.Steps config events last)
    (inside : ∀ event ∈ events, event.thread = thread → event.IsAccess) :
    probing.Finds last.slots key (last.phase thread) := by
  induction steps with
  | refl => exact finds
  | step _ step inductionHypothesis =>
      exact (inductionHypothesis (fun event member =>
        inside event (List.mem_append_left _ member))).step step
          (inside _ (List.mem_append_right _ (List.mem_singleton_self _)))

end Lookup

/-! ## Accesses of one operation -/

/-- Slots an operation may still probe. -/
def loadsLeft : Phase κ → Nat
  | .load _ i => probing.count - i
  | .exchange _ i => probing.count - (i + 1)
  | .reload _ i => probing.count - (i + 1)
  | .seek _ i => probing.count - i
  | _ => 0

/-- Accesses an operation may still make: three at each probe. -/
def accessesLeft : Phase κ → Nat
  | .load _ i => 3 * (probing.count - i)
  | .exchange _ i => 3 * (probing.count - i) - 1
  | .reload _ i => 3 * (probing.count - i) - 2
  | .seek _ i => 3 * (probing.count - i)
  | _ => 0

section Accesses

theorem left_nextLoad (key : κ) (i : Nat) :
    probing.loadsLeft (probing.nextLoad key i) ≤ probing.count - (i + 1) ∧
      probing.accessesLeft (probing.nextLoad key i) ≤ 3 * (probing.count - (i + 1)) := by
  unfold nextLoad
  split
  · exact ⟨Nat.le_refl _, Nat.le_refl _⟩
  · exact ⟨Nat.zero_le _, Nat.zero_le _⟩

theorem left_nextSeek (key : κ) (i : Nat) :
    probing.loadsLeft (probing.nextSeek key i) ≤ probing.count - (i + 1) ∧
      probing.accessesLeft (probing.nextSeek key i) ≤ 3 * (probing.count - (i + 1)) := by
  unfold nextSeek
  split
  · exact ⟨Nat.le_refl _, Nat.le_refl _⟩
  · exact ⟨Nat.zero_le _, Nat.zero_le _⟩

variable {probing} [DecidableEq κ] [DecidableEq σ] [DecidableEq τ]

/-- Every access of a thread leaves it fewer, and every load fewer probes. -/
theorem left_access {events : List (Event τ κ)} {config next : Config κ σ τ} {event : Event τ κ}
    (inv : probing.Inv events config) (step : probing.Step config event next)
    (access : event.IsAccess) :
    event.isLoad.toNat + probing.loadsLeft (next.phase event.thread) ≤
        probing.loadsLeft (config.phase event.thread) ∧
      1 + probing.accessesLeft (next.phase event.thread) ≤
        probing.accessesLeft (config.phase event.thread) := by
  have knows := inv.knows event.thread
  cases step with
  | startAdd key phase => exact access.elim
  | startContains key phase => exact access.elim
  | returnAdd phase => exact access.elim
  | returnContains phase => exact access.elim
  | @load thread key i phase =>
      simp only [Event.thread, Function.update_self, Event.isLoad, Bool.toNat_true] at knows ⊢
      rw [phase] at knows ⊢
      have bound := knows.1
      obtain ⟨loads, accesses⟩ := left_nextLoad probing key i
      unfold afterLoad
      split
      next => simp only [loadsLeft, accessesLeft]; omega
      next =>
        split
        next => simp only [loadsLeft, accessesLeft]; omega
        next => simp only [loadsLeft, accessesLeft] at *; omega
  | @claim thread key i phase empty =>
      simp only [Event.thread, Function.update_self, Event.isLoad, Bool.toNat_false] at knows ⊢
      rw [phase] at knows ⊢
      have bound := knows.1
      simp only [loadsLeft, accessesLeft]
      omega
  | @lose thread key i phase taken =>
      simp only [Event.thread, Function.update_self, Event.isLoad, Bool.toNat_false] at knows ⊢
      rw [phase] at knows ⊢
      have bound := knows.1
      simp only [loadsLeft, accessesLeft]
      omega
  | @reload thread key i phase =>
      simp only [Event.thread, Function.update_self, Event.isLoad, Bool.toNat_false] at knows ⊢
      rw [phase] at knows ⊢
      have bound := knows.1
      obtain ⟨loads, accesses⟩ := left_nextLoad probing key i
      unfold afterReload
      split
      next => simp only [loadsLeft, accessesLeft]; omega
      next => simp only [loadsLeft, accessesLeft] at *; omega
  | @seek thread key i phase =>
      simp only [Event.thread, Function.update_self, Event.isLoad, Bool.toNat_true] at knows ⊢
      rw [phase] at knows ⊢
      have bound : i < probing.count := knows
      obtain ⟨loads, accesses⟩ := left_nextSeek probing key i
      unfold afterSeek
      split
      next => simp only [loadsLeft, accessesLeft]; omega
      next =>
        split
        next => simp only [loadsLeft, accessesLeft]; omega
        next => simp only [loadsLeft, accessesLeft] at *; omega

/-- The accesses and loads of a thread inside one operation. -/
theorem Steps.left {events between : List (Event τ κ)} {config last : Config κ σ τ}
    (inv : probing.Inv events config) (steps : probing.Steps config between last) {thread : τ}
    (inside : ∀ event ∈ between, event.thread = thread → event.IsAccess) :
    between.countP (fun event => event.thread = thread && event.isLoad) +
          probing.loadsLeft (last.phase thread) ≤ probing.loadsLeft (config.phase thread) ∧
      between.countP (fun event => event.thread = thread) +
          probing.accessesLeft (last.phase thread) ≤
        probing.accessesLeft (config.phase thread) := by
  induction steps with
  | refl => simp
  | @step middle last between event earlier step inductionHypothesis =>
      obtain ⟨loads, accesses⟩ := inductionHypothesis (fun other member =>
        inside other (List.mem_append_left _ member))
      rw [List.countP_append, List.countP_append, List.countP_singleton, List.countP_singleton]
      by_cases own : event.thread = thread
      · have access := inside event (List.mem_append_right _ (List.mem_singleton_self _)) own
        subst own
        obtain ⟨fewerLoads, fewerAccesses⟩ := left_access (inv.steps earlier) step access
        cases isLoad : event.isLoad <;> simp [isLoad] at * <;> omega
      · rw [step.phase_other own]
        simp [own]
        omega

end Accesses

end Probing

end StadiumRecomp.Lib.ProbeSet
