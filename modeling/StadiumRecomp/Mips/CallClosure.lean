import StadiumRecomp.Mips.Discovery
import Mathlib.Order.Bounds.Basic

/-!
Contract: what discovery computes.

Owns: the flow relation inside the section, the sets closed under gated calls,
the relation that pops pending addresses in any order, and the theorem that
every emptied run registers the least closed set.

Does not own: whether the flow relation covers what the console executes; delay
slots and indirect jumps are outside it, as they are outside the walk.
-/

set_option autoImplicit false

namespace StadiumRecomp.Mips

open StadiumRecomp.Lib

namespace Setup

variable (setup : Setup)

/-! ## The call closure -/

/-- One step of control flow: fall-through or a transfer that is not a call. -/
def Flows (pc next : Int) : Prop :=
  ((classify (setup.word pc) pc).fallsThrough = true ∧ next = pc + 4) ∨
    (classify (setup.word pc) pc).leaves = some next

/-- Addresses reachable from `start` without leaving the section. -/
inductive Reaches (start : Int) : Int → Prop
  | start : Reaches start start
  | step {pc next : Int} (reached : Reaches start pc) (flows : setup.Flows pc next)
      (inside : setup.inSec next) : Reaches start next

/-- A set of entries that holds the gated seeds and the gated target of every
call its members reach. -/
structure CallClosed (functions : Set Int) : Prop where
  seeds : ∀ vram, vram = setup.entry ∨ vram ∈ setup.known → setup.Gate vram →
    vram ∈ functions
  calls : ∀ fn ∈ functions, ∀ pc, setup.Reaches fn pc → ∀ target,
    classify (setup.word pc) pc = .call target → setup.Gate target →
    target ∈ functions

/-- Every gated call on the flow of a member leads to a member. -/
def HoldsCallees (functions : Set Int) : Prop :=
  ∀ fn ∈ functions, ∀ pc, setup.Reaches fn pc → ∀ target,
    classify (setup.word pc) pc = .call target → setup.Gate target → target ∈ functions

variable {setup}

theorem Reaches.trans {start middle pc : Int} (first : setup.Reaches start middle)
    (second : setup.Reaches middle pc) : setup.Reaches start pc := by
  induction second with
  | start => exact first
  | step _ flows inside inductionHypothesis =>
      exact Reaches.step inductionHypothesis flows inside

theorem Flows.aligned {pc next : Int} (aligned : pc % 4 = 0)
    (flows : setup.Flows pc next) : next % 4 = 0 := by
  rcases flows with ⟨_, rfl⟩ | leaves
  · omega
  · apply classify_target_aligned aligned
    cases kind : classify (setup.word pc) pc <;> rw [kind] at leaves <;>
      first
        | exact leaves
        | cases leaves

theorem Reaches.aligned {start pc : Int} (reached : setup.Reaches start pc)
    (aligned : start % 4 = 0) : pc % 4 = 0 := by
  induction reached with
  | start => exact aligned
  | step _ flows _ inductionHypothesis => exact flows.aligned inductionHypothesis

theorem Flows.valid {pc next : Int} (flows : setup.Flows pc next) :
    classify (setup.word pc) pc ≠ .invalid := by
  intro invalid
  rcases flows with ⟨falls, _⟩ | leaves
  · rw [invalid] at falls
    cases falls
  · rw [invalid] at leaves
    cases leaves

/-! ## Trails -/

theorem mem_trail_self {pc : Int} (inSec : setup.inSec pc)
    (valid : classify (setup.word pc) pc ≠ .invalid) : pc ∈ setup.trail pc := by
  rw [setup.trail_cons inSec valid]
  exact List.mem_cons_self

/-- The rule of trails: an address is the start, or lies on the trail behind a start that
falls through. -/
theorem trail_induction {pc : Int} {motive : Int → Prop}
    (here : setup.inSec pc → classify (setup.word pc) pc ≠ .invalid → motive pc)
    (later : ∀ start, setup.inSec start → classify (setup.word start) start ≠ .invalid →
      (classify (setup.word start) start).fallsThrough = true →
      pc ∈ setup.trail (start + 4) → motive (start + 4) → motive start)
    {start : Int} (member : pc ∈ setup.trail start) : motive start := by
  induction start using trail.induct setup with
  | case1 start inSec invalid =>
      rw [setup.trail_invalid invalid] at member
      cases member
  | case2 start inSec valid falls inductionHypothesis =>
      rw [setup.trail_cons inSec valid, if_pos falls] at member
      rcases List.mem_cons.mp member with rfl | behind
      · exact here inSec valid
      · exact later start inSec valid falls behind (inductionHypothesis behind)
  | case3 start inSec valid ends =>
      rw [setup.trail_cons inSec valid, if_neg ends, List.mem_singleton] at member
      subst member
      exact here inSec valid
  | case4 start outside =>
      rw [setup.trail_outside outside] at member
      cases member

theorem inSec_of_mem_trail {start pc : Int} (member : pc ∈ setup.trail start) :
    setup.inSec start := by
  by_contra outside
  rw [setup.trail_outside outside] at member
  cases member

theorem valid_of_mem_trail {start pc : Int} (member : pc ∈ setup.trail start) :
    classify (setup.word pc) pc ≠ .invalid := by
  apply trail_induction (motive := fun _ => classify (setup.word pc) pc ≠ .invalid) _ _ member
  · intro _ valid
    exact valid
  · intro _ _ _ _ _ valid
    exact valid

/-- A trail follows fall-through until the first invalid word. -/
theorem mem_trail_next {start pc : Int} (member : pc ∈ setup.trail start)
    (falls : (classify (setup.word pc) pc).fallsThrough = true)
    (inside : setup.inSec (pc + 4))
    (valid : classify (setup.word (pc + 4)) (pc + 4) ≠ .invalid) :
    pc + 4 ∈ setup.trail start := by
  apply trail_induction (motive := fun start => pc + 4 ∈ setup.trail start) _ _ member
  · intro inSec startValid
    rw [setup.trail_cons inSec startValid, if_pos falls]
    exact List.mem_cons_of_mem _ (mem_trail_self inside valid)
  · intro start inSec startValid startFalls _ next
    rw [setup.trail_cons inSec startValid, if_pos startFalls]
    exact List.mem_cons_of_mem _ next

/-- A trail stays on the flow of its start. -/
theorem reaches_of_mem_trail {start pc : Int} (member : pc ∈ setup.trail start) :
    setup.Reaches start pc := by
  apply trail_induction (motive := fun start => setup.Reaches start pc) _ _ member
  · intro _ _
    exact Reaches.start
  · intro start _ _ falls behind reached
    have next : setup.Reaches start (start + 4) :=
      Reaches.step Reaches.start (Or.inl ⟨falls, rfl⟩) (inSec_of_mem_trail behind)
    exact next.trans reached

/-! ## Popping in any order -/

variable (setup) in
/-- `Pops count start final`: `count` pops, each of any pending address, lead
from `start` to `final`. -/
inductive Pops : Nat → Discovery → Discovery → Prop
  | none (state : Discovery) : Pops 0 state state
  | pop {count : Nat} {start final : Discovery} {before after : List Int} {vram : Int}
      (pending : start.work = before ++ vram :: after)
      (rest : Pops count (setup.walk { start with work := before ++ after } vram) final) :
      Pops (count + 1) start final

theorem Pops.worklist {count : Nat} {start final : Discovery}
    (run : setup.Pops count start final) :
    Worklist.Pops setup.explorer count start.worklist final.worklist := by
  induction run with
  | none => exact Worklist.Pops.none _
  | pop pending _ inductionHypothesis =>
      apply Worklist.Pops.pop pending
      rw [walk_worklist] at inductionHypothesis
      exact inductionHypothesis

/-- Popping the top of the stack. -/
theorem Pops.popTop {count : Nat} {start final : Discovery} {top : Int} {rest : List Int}
    (stack : start.work = top :: rest)
    (run : setup.Pops count (setup.walk { start with work := rest } top) final) :
    setup.Pops (count + 1) start final := by
  have pending : start.work = [] ++ top :: rest := stack
  exact Pops.pop pending run

/-- The tool's own order is one of them. -/
theorem drain_pops (state : Discovery) :
    ∃ count, setup.Pops count state (setup.drain state) := by
  fun_induction drain setup state with
  | case1 state emptied => exact ⟨0, Pops.none state⟩
  | case2 state start rest stack inductionHypothesis =>
      obtain ⟨count, run⟩ := inductionHypothesis
      exact ⟨count + 1, Pops.popTop stack run⟩

theorem drain_work (state : Discovery) : (setup.drain state).work = [] := by
  fun_induction drain setup state with
  | case1 state emptied => exact emptied
  | case2 state start rest stack inductionHypothesis => exact inductionHypothesis

/-! ## Seeds and invariant -/

theorem foldl_addFunction_worklist (seeds : List Int) (state : Discovery) :
    (seeds.foldl setup.addFunction state).worklist = state.worklist.record
      (seeds.filter (fun vram => setup.Gate vram))
      (seeds.filter (fun vram => setup.Gate vram)) := by
  induction seeds generalizing state with
  | nil => rfl
  | cons head rest inductionHypothesis =>
      rw [List.foldl_cons, inductionHypothesis, addFunction_worklist,
        Worklist.record_append]
      by_cases gate : setup.Gate head <;> simp [gate]

/-- Every state on the way satisfies the worklist invariant. -/
theorem Pops.explored {seeds : List Int} {count : Nat} {final : Discovery}
    (run : setup.Pops count (setup.seeded seeds) final) :
    Worklist.Explored setup.explorer (seeds.filter (fun vram => setup.Gate vram))
      (seeds.filter (fun vram => setup.Gate vram)) final.worklist := by
  apply Worklist.Explored.pops run.worklist
  unfold seeded
  rw [foldl_addFunction_worklist]
  exact Worklist.explored_start

/-- There are at most as many pops as word-aligned section addresses. -/
theorem Pops.count_le {seeds : List Int} {count : Nat} {final : Discovery}
    (run : setup.Pops count (setup.seeded seeds) final) :
    count ≤ setup.addresses.card := by
  have counted := Worklist.Pops.count_add_remaining setup.successors_mem_addresses
    run.worklist
  have gated : ∀ vram ∈ seeds.filter (fun vram => setup.Gate vram),
      vram ∈ setup.addresses := by
    intro vram member
    obtain ⟨_, gate⟩ := List.mem_filter.mp member
    have gate : setup.Gate vram := of_decide_eq_true gate
    exact (setup.mem_addresses vram).mpr ⟨gate.1, gate.2.1⟩
  unfold seeded at counted
  rw [foldl_addFunction_worklist, Worklist.remaining_record gated] at counted
  have start : Worklist.remaining setup.addresses Discovery.empty.worklist =
      setup.addresses.card := by
    simp [Worklist.remaining, Discovery.empty, Discovery.worklist]
  omega

/-! ## The emptied work list holds the call closure -/

theorem items_subset_successors {start target : Int}
    (member : target ∈ setup.explorer.items start) :
    target ∈ setup.explorer.successors start := by
  obtain ⟨pc, onTrail, called⟩ := List.mem_flatMap.mp member
  exact List.mem_flatMap.mpr
    ⟨pc, onTrail, (setup.mem_pushesAt_iff pc target).mpr (Or.inl called)⟩

/-- From a walked entry, every reachable valid instruction is on the trail of
some walked address. -/
theorem exists_trail_of_reaches {seeds : List Int} {fn pc : Int}
    (walked : Worklist.Reachable setup.explorer seeds fn) (inSec : setup.inSec fn)
    (aligned : fn % 4 = 0) (reached : setup.Reaches fn pc)
    (valid : classify (setup.word pc) pc ≠ .invalid) :
    ∃ start, Worklist.Reachable setup.explorer seeds start ∧ pc ∈ setup.trail start := by
  induction reached with
  | start => exact ⟨fn, walked, mem_trail_self inSec valid⟩
  | @step pc next reached flows inside inductionHypothesis =>
      obtain ⟨start, startWalked, onTrail⟩ := inductionHypothesis flows.valid
      have nextAligned := flows.aligned (reached.aligned aligned)
      rcases flows with ⟨falls, rfl⟩ | leaves
      · exact ⟨start, startWalked, mem_trail_next onTrail falls inside valid⟩
      · -- A transfer target is pushed, so it starts a trail of its own.
        have pushed : next ∈ setup.explorer.successors start :=
          List.mem_flatMap.mpr ⟨pc, onTrail,
            (setup.mem_pushesAt_iff pc next).mpr (Or.inr ⟨leaves, inside, nextAligned⟩)⟩
        exact ⟨next, Worklist.Reachable.step startWalked pushed,
          mem_trail_self inside valid⟩

/-- Every walked address lies on the flow of a member of any closed set. -/
theorem exists_member_of_reachable {functions : Set Int}
    (calls : setup.HoldsCallees functions) {seeds : List Int}
    (seedsIn : ∀ vram ∈ seeds, vram ∈ functions) {start : Int}
    (walked : Worklist.Reachable setup.explorer seeds start) :
    ∃ fn ∈ functions, setup.Reaches fn start := by
  induction walked with
  | seed member => exact ⟨_, seedsIn _ member, Reaches.start⟩
  | @step start next _ pushed inductionHypothesis =>
      obtain ⟨fn, member, reached⟩ := inductionHypothesis
      obtain ⟨pc, onTrail, pushedAt⟩ := List.mem_flatMap.mp pushed
      have reachedPc := reached.trans (reaches_of_mem_trail onTrail)
      rcases (setup.mem_pushesAt_iff pc next).mp pushedAt with called | ⟨leaves, inside, _⟩
      · obtain ⟨call, gate⟩ := (setup.mem_callsAt_iff pc next).mp called
        exact ⟨next, calls fn member pc reachedPc next call gate, Reaches.start⟩
      · exact ⟨fn, member, Reaches.step reachedPc (Or.inr leaves) inside⟩

/-! ## The registered functions of an emptied worklist -/

section Emptied

variable {seeds : List Int} {work : Worklist Int Int}

/-- A registered function passes the gate and is walked. -/
theorem walked_of_mem_found (explored : Worklist.Explored setup.explorer seeds seeds work)
    (emptied : work.pending = []) (gated : ∀ vram ∈ seeds, setup.Gate vram) {vram : Int}
    (member : vram ∈ work.found) :
    setup.Gate vram ∧ Worklist.Reachable setup.explorer seeds vram := by
  rcases (explored.mem_found_iff emptied vram).mp member with seed | ⟨start, reached, called⟩
  · exact ⟨gated vram seed, Worklist.Reachable.seed seed⟩
  · obtain ⟨pc, _, calledAt⟩ := List.mem_flatMap.mp called
    exact ⟨((setup.mem_callsAt_iff pc vram).mp calledAt).2,
      Worklist.Reachable.step reached (items_subset_successors called)⟩

theorem found_holdsCallees (explored : Worklist.Explored setup.explorer seeds seeds work)
    (emptied : work.pending = []) (gated : ∀ vram ∈ seeds, setup.Gate vram) :
    setup.HoldsCallees {vram | vram ∈ work.found} := by
  intro fn member pc reached target call gate
  obtain ⟨⟨inSec, aligned, _⟩, walked⟩ := walked_of_mem_found explored emptied gated member
  obtain ⟨start, startWalked, onTrail⟩ :=
    exists_trail_of_reaches walked inSec aligned reached (by simp [call])
  apply (explored.mem_found_iff emptied target).mpr
  right
  refine ⟨start, startWalked, List.mem_flatMap.mpr ⟨pc, onTrail, ?_⟩⟩
  exact (setup.mem_callsAt_iff pc target).mpr ⟨call, gate⟩

/-- Nothing is registered that the seeds and their calls do not bring in. -/
theorem found_subset (explored : Worklist.Explored setup.explorer seeds seeds work)
    (emptied : work.pending = []) {functions : Set Int}
    (seedsIn : ∀ vram ∈ seeds, vram ∈ functions) (calls : setup.HoldsCallees functions) :
    {vram | vram ∈ work.found} ⊆ functions := by
  intro vram member
  rcases (explored.mem_found_iff emptied vram).mp member with seed | ⟨start, reached, called⟩
  · exact seedsIn vram seed
  · obtain ⟨fn, inside, reachedStart⟩ := exists_member_of_reachable calls seedsIn reached
    obtain ⟨pc, onTrail, calledAt⟩ := List.mem_flatMap.mp called
    obtain ⟨call, gate⟩ := (setup.mem_callsAt_iff pc vram).mp calledAt
    exact calls fn inside pc (reachedStart.trans (reaches_of_mem_trail onTrail)) vram call gate

end Emptied

theorem gate_of_mem_gated {seeds : List Int} :
    ∀ vram ∈ seeds.filter (fun vram => setup.Gate vram), setup.Gate vram :=
  fun _ member => of_decide_eq_true (List.mem_filter.mp member).2

/-- The registered functions of an emptied run, from seeds in any order. -/
theorem functions_isLeast {seeds : List Int}
    (sameSeeds : ∀ vram, vram ∈ seeds ↔ vram = setup.entry ∨ vram ∈ setup.known)
    {count : Nat} {final : Discovery} (run : setup.Pops count (setup.seeded seeds) final)
    (emptied : final.work = []) :
    IsLeast {functions : Set Int | setup.CallClosed functions}
      {vram | vram ∈ final.functions} := by
  have explored := run.explored
  constructor
  · constructor
    · intro vram isSeed gate
      apply (explored.mem_found_iff emptied vram).mpr
      left
      exact List.mem_filter.mpr ⟨(sameSeeds vram).mpr isSeed, decide_eq_true gate⟩
    · exact found_holdsCallees explored emptied gate_of_mem_gated
  · intro functions closed
    apply found_subset explored emptied _ closed.calls
    intro seed inside
    obtain ⟨inSeeds, gate⟩ := List.mem_filter.mp inside
    exact closed.seeds seed ((sameSeeds seed).mp inSeeds) (of_decide_eq_true gate)

/-- Discovery computes the call closure. The tool's own run empties its work
list and registers the least closed set; popping in any other order also stops,
can always be continued to an emptied list, and then registers the same set. -/
theorem discovery_computes_callClosure (setup : Setup) (seeds : List Int)
    (sameSeeds : ∀ vram, vram ∈ seeds ↔ vram = setup.entry ∨ vram ∈ setup.known) :
    (setup.discover seeds).work = [] ∧
      IsLeast {functions : Set Int | setup.CallClosed functions}
        {vram | vram ∈ (setup.discover seeds).functions} ∧
      ∀ count state, setup.Pops count (setup.seeded seeds) state →
        count ≤ setup.addresses.card ∧
        (∃ more final, setup.Pops more state final ∧ final.work = []) ∧
        (state.work = [] →
          IsLeast {functions : Set Int | setup.CallClosed functions}
            {vram | vram ∈ state.functions}) := by
  obtain ⟨count, run⟩ := drain_pops (setup.seeded seeds)
  refine ⟨drain_work _, functions_isLeast sameSeeds run (drain_work _), ?_⟩
  intro count state run
  obtain ⟨more, rest⟩ := drain_pops state
  exact ⟨run.count_le, ⟨more, setup.drain state, rest, drain_work state⟩,
    functions_isLeast sameSeeds run⟩

/-- Two functions: the first calls the second, then returns. -/
def callerAndCallee : Setup where
  rom := [0x0C, 0x00, 0x01, 0x04, 0, 0, 0, 0, 0x03, 0xE0, 0x00, 0x08, 0, 0, 0, 0,
    0x03, 0xE0, 0x00, 0x08, 0, 0, 0, 0]
  romBase := 0
  bounds := ⟨0x80000400, 0x18⟩
  entry := 0x80000400
  knownFns := []

theorem discovery_computes_callClosure_example :
    0x80000410 ∈ (callerAndCallee.discover [0x80000400]).functions := by
  obtain ⟨_, ⟨closed, _⟩, _⟩ := discovery_computes_callClosure callerAndCallee
    [0x80000400] (by
      intro vram
      simp [callerAndCallee, known])
  have entry : 0x80000400 ∈ (callerAndCallee.discover [0x80000400]).functions :=
    closed.seeds 0x80000400 (Or.inl rfl) (by decide)
  exact closed.calls 0x80000400 entry 0x80000400 Reaches.start 0x80000410
    (by decide) (by decide)

end Setup

end StadiumRecomp.Mips
