import StadiumRecomp.Lib.Search
import StadiumRecomp.Lib.Worklist
import StadiumRecomp.Mips.Decoder
import StadiumRecomp.Symbols.Generate
import Mathlib.Data.Int.ConditionallyCompleteOrder
import Mathlib.Data.Int.Interval

/-!
Contract: the recursive-descent discovery of `tools/mips_find_functions.py`, up
to the point where its work list empties.

Owns: the ROM word reader, the known-function baseline, `inside_known_body`,
`add_function`, `push`, `walk`, the seeding and the loop that empties the stack.

Does not own: the gap-seed pass, the function sizes and the written file.
-/

set_option autoImplicit false

namespace StadiumRecomp.Mips

open StadiumRecomp.Lib
open StadiumRecomp.Symbols (Section RawFunction Run parseInt)

/-! ## Inputs -/

/-- A slice bound: negative indices count from the end, and bounds are clipped. -/
def sliceBound (length : Nat) (index : Int) : Nat :=
  if index < 0 then (index + length).toNat else min index.toNat length

/-- `rom[start:stop]`. -/
def slice (rom : List UInt8) (start stop : Int) : List UInt8 :=
  (rom.take (sliceBound rom.length stop)).drop (sliceBound rom.length start)

/-- `int.from_bytes(bytes, "big")`. -/
def fromBytesBig (bytes : List UInt8) : Nat :=
  bytes.foldl (fun value byte => value * 0x100 + byte.toNat) 0

/-- Everything discovery reads. -/
structure Setup where
  rom : List UInt8
  romBase : Int
  bounds : Section
  entry : Int
  /-- The `vram` and `size` of each entry of `functions.json`. -/
  knownFns : List (Int × Int)

/-- The fields of `functions.json` that are read; `none` is a missing file. -/
def loadKnown : Option (List RawFunction) → Run (List (Int × Int))
  | none => .ok []
  | some raw => raw.mapM fun fn => do
      let vram ← parseInt fn.vram
      let size ← parseInt (fn.size.getD (.int 0))
      return (vram, size)

namespace Setup

/-- The inputs as the command line and `functions.json` give them. -/
def read (rom : List UInt8) (romBase : Int) (bounds : Section) (entry : Int)
    (known : Option (List RawFunction)) : Run Setup := do
  let knownFns ← loadKnown known
  return ⟨rom, romBase, bounds, entry, knownFns⟩

variable (setup : Setup)

/-- `in_sec`. -/
def inSec (vram : Int) : Prop :=
  setup.bounds.lo ≤ vram ∧ vram < setup.bounds.hi

instance (vram : Int) : Decidable (setup.inSec vram) :=
  inferInstanceAs (Decidable (_ ∧ _))

/-- `word`. -/
def word (vram : Int) : Nat :=
  let off := setup.romBase + (vram - setup.bounds.lo)
  fromBytesBig (slice setup.rom off (off + 4))

/-- `known`. -/
def known : List Int :=
  ((setup.knownFns.map Prod.fst).filter (fun vram => setup.inSec vram)).dedup

/-- `known_bodies`, sorted as pairs. -/
def knownBodies : List (Int × Int) :=
  ((setup.knownFns.filter (fun fn => setup.inSec fn.1 ∧ 0 < fn.2)).map
    (fun fn => (fn.1, fn.1 + fn.2))).insertionSort
      (fun left right => left.1 < right.1 ∨ (left.1 = right.1 ∧ left.2 ≤ right.2))

/-- `inside_known_body`: strictly inside the last body that starts at or below
`vram`. -/
def insideKnownBody (vram : Int) : Bool :=
  match Search.bisectRight (setup.knownBodies.map Prod.fst) vram with
  | 0 => false
  | index + 1 =>
      match setup.knownBodies[index]? with
      | some (lo, hi) => lo < vram ∧ vram < hi
      | none => false

end Setup

/-! ## The walk -/

/-- The sets and the stack that discovery fills. A registered function has
always been pushed, so its flow is walked. -/
structure Discovery where
  functions : List Int
  explored : List Int
  reached : List Int
  /-- The stack, top first. -/
  work : List Int
  unresolved : List Int
  functionsExplored : ∀ vram ∈ functions, vram ∈ explored

namespace Discovery

def empty : Discovery := ⟨[], [], [], [], [], by simp⟩

/-- `reached.add(pc)`. -/
def reach (state : Discovery) (pc : Int) : Discovery :=
  { state with reached := state.reached.insert pc }

/-- `unresolved.append(pc)`. -/
def unresolve (state : Discovery) (pc : Int) : Discovery :=
  { state with unresolved := state.unresolved ++ [pc] }

/-- `functions.add(vram)` for a pushed address. -/
def addEntry (state : Discovery) (vram : Int) (pushed : vram ∈ state.explored) :
    Discovery :=
  { state with
    functions := state.functions.insert vram
    functionsExplored := by
      intro other member
      rcases List.mem_insert_iff.mp member with rfl | member
      · exact pushed
      · exact state.functionsExplored other member }

end Discovery

namespace Setup

variable (setup : Setup)

/-- `push`. -/
def push (state : Discovery) (vram : Int) : Discovery :=
  if setup.inSec vram ∧ vram % 4 = 0 ∧ vram ∉ state.explored then
    { state with
      explored := vram :: state.explored
      work := vram :: state.work
      functionsExplored := fun other member =>
        List.mem_cons_of_mem _ (state.functionsExplored other member) }
  else state

theorem mem_explored_push (state : Discovery) {vram : Int} (inSec : setup.inSec vram)
    (aligned : vram % 4 = 0) : vram ∈ (setup.push state vram).explored := by
  unfold push
  split
  next => exact List.mem_cons_self
  next known =>
    by_contra fresh
    exact known ⟨inSec, aligned, fresh⟩

/-- `add_function`. The two set updates are independent, so the push is made
first and the invariant holds throughout. -/
def addFunction (state : Discovery) (vram : Int) : Discovery :=
  if candidate : setup.inSec vram ∧ vram % 4 = 0 ∧ vram ∉ state.functions then
    if setup.insideKnownBody vram then state
    else if isLegal (setup.word vram) then
      (setup.push state vram).addEntry vram
        (setup.mem_explored_push state candidate.1 candidate.2.1)
    else state
  else state

/-- `walk`. -/
def walk (state : Discovery) (pc : Int) : Discovery :=
  if _inSec : setup.inSec pc then
    match classify (setup.word pc) pc with
    | .invalid => state
    | .call target => walk (setup.addFunction (state.reach pc) target) (pc + 4)
    | .branch target => walk (setup.push (state.reach pc) target) (pc + 4)
    | .ubranch target => setup.push (state.reach pc) target
    | .jump target => setup.push (state.reach pc) target
    | .ret => state.reach pc
    | .indirectJump => (state.reach pc).unresolve pc
    | .indirectCall | .nop | .other => walk (state.reach pc) (pc + 4)
  else state
termination_by (setup.bounds.hi - pc).toNat
decreasing_by all_goals (unfold Setup.inSec at _inSec; omega)

/-- The seeding: `add_function` on each seed in turn. -/
def seeded (seeds : List Int) : Discovery :=
  seeds.foldl setup.addFunction Discovery.empty

end Setup

/-! ## What one walk contributes -/

/-- The part of the state that decides which addresses are walked. -/
def Discovery.worklist (state : Discovery) : Worklist Int Int :=
  ⟨state.explored, state.work, state.functions⟩

/-- The path continues with the next word. -/
def Kind.fallsThrough : Kind → Bool
  | .call _ | .branch _ | .indirectCall | .nop | .other => true
  | _ => false

/-- The target of a transfer that is not a call. -/
def Kind.leaves : Kind → Option Int
  | .branch target | .ubranch target | .jump target => some target
  | _ => none

namespace Setup

variable (setup : Setup)

/-- `add_function` registers `vram` unless it is registered already. -/
def Gate (vram : Int) : Prop :=
  setup.inSec vram ∧ vram % 4 = 0 ∧ setup.insideKnownBody vram = false ∧
    isLegal (setup.word vram) = true

instance (vram : Int) : Decidable (setup.Gate vram) :=
  inferInstanceAs (Decidable (_ ∧ _ ∧ _ ∧ _))

/-- The function entries the instruction at `pc` calls. -/
def callsAt (pc : Int) : List Int :=
  match classify (setup.word pc) pc with
  | .call target => if setup.Gate target then [target] else []
  | _ => []

/-- The addresses the instruction at `pc` pushes. -/
def pushesAt (pc : Int) : List Int :=
  match classify (setup.word pc) pc with
  | .call target => if setup.Gate target then [target] else []
  | .branch target | .ubranch target | .jump target =>
      if setup.inSec target ∧ target % 4 = 0 then [target] else []
  | _ => []

/-- The addresses a walk decodes. -/
def trail (pc : Int) : List Int :=
  if _inSec : setup.inSec pc then
    if classify (setup.word pc) pc = .invalid then []
    else if (classify (setup.word pc) pc).fallsThrough then pc :: trail (pc + 4)
    else [pc]
  else []
termination_by (setup.bounds.hi - pc).toNat
decreasing_by all_goals (unfold Setup.inSec at _inSec; omega)

def explorer : Explorer Int Int where
  successors start := (setup.trail start).flatMap setup.pushesAt
  items start := (setup.trail start).flatMap setup.callsAt

theorem push_worklist (state : Discovery) (vram : Int) :
    (setup.push state vram).worklist = state.worklist.record
      (if setup.inSec vram ∧ vram % 4 = 0 then [vram] else []) [] := by
  unfold push
  by_cases allowed : setup.inSec vram ∧ vram % 4 = 0
  · rw [if_pos allowed]
    simp only [Worklist.record, List.foldl_cons, List.foldl_nil, Worklist.push]
    by_cases known : vram ∈ state.explored
    · simp [known, Discovery.worklist]
    · simp [known, allowed, Discovery.worklist]
  · have refused : ¬ (setup.inSec vram ∧ vram % 4 = 0 ∧ vram ∉ state.explored) := by
      tauto
    rw [if_neg allowed, if_neg refused]
    rfl

/-- A registered function is already pushed, so registering it again changes
nothing. -/
theorem addFunction_worklist (state : Discovery) (vram : Int) :
    (setup.addFunction state vram).worklist = state.worklist.record
      (if setup.Gate vram then [vram] else [])
      (if setup.Gate vram then [vram] else []) := by
  by_cases gate : setup.Gate vram
  · obtain ⟨inSec, aligned, outside, legal⟩ := id gate
    rw [if_pos gate]
    unfold addFunction
    by_cases known : vram ∈ state.functions
    · have pushed := state.functionsExplored vram known
      simp [known, Worklist.record, Worklist.push, Worklist.report,
        Discovery.worklist, pushed]
    · rw [dif_pos ⟨inSec, aligned, known⟩]
      simp only [outside, legal, Bool.false_eq_true, if_true, if_false]
      have pushed := setup.push_worklist state vram
      rw [if_pos ⟨inSec, aligned⟩] at pushed
      have split : state.worklist.record [vram] [vram] =
          (state.worklist.record [vram] []).report vram := rfl
      rw [split, ← pushed]
      rfl
  · rw [if_neg gate]
    unfold addFunction
    split
    next candidate =>
      split
      next => rfl
      next outside =>
        split
        next legal =>
          exact absurd ⟨candidate.1, candidate.2.1, by simpa using outside, legal⟩ gate
        next => rfl
    next => rfl

@[simp] theorem reach_worklist (state : Discovery) (pc : Int) :
    (state.reach pc).worklist = state.worklist := rfl

@[simp] theorem unresolve_worklist (state : Discovery) (pc : Int) :
    (state.unresolve pc).worklist = state.worklist := rfl

theorem trail_outside {pc : Int} (outside : ¬ setup.inSec pc) : setup.trail pc = [] := by
  rw [trail, dif_neg outside]

theorem trail_invalid {pc : Int} (invalid : classify (setup.word pc) pc = .invalid) :
    setup.trail pc = [] := by
  rw [trail, if_pos invalid, dite_eq_ite, ite_self]

/-- A trail continues exactly after an instruction that falls through. -/
theorem trail_cons {pc : Int} (inSec : setup.inSec pc)
    (valid : classify (setup.word pc) pc ≠ .invalid) :
    setup.trail pc = pc ::
      if (classify (setup.word pc) pc).fallsThrough then setup.trail (pc + 4) else [] := by
  rw [trail, dif_pos inSec, if_neg valid]
  split <;> rfl

/-- A walk records what the instructions on its trail push and call. -/
theorem walk_worklist (state : Discovery) (pc : Int) :
    (setup.walk state pc).worklist = state.worklist.record
      (setup.explorer.successors pc) (setup.explorer.items pc) := by
  unfold explorer
  simp only
  fun_induction walk setup state pc with
  | case1 state pc inSec invalid =>
      rw [setup.trail_invalid invalid]
      rfl
  | case2 state pc inSec target call inductionHypothesis =>
      rw [inductionHypothesis, setup.trail_cons inSec (by simp [call]), call,
        addFunction_worklist, Worklist.record_append]
      simp [Kind.fallsThrough, pushesAt, callsAt, call]
  | case3 state pc inSec target branch inductionHypothesis =>
      rw [inductionHypothesis, setup.trail_cons inSec (by simp [branch]), branch,
        push_worklist, Worklist.record_append]
      simp [Kind.fallsThrough, pushesAt, callsAt, branch]
  | case4 state pc inSec target ubranch =>
      rw [setup.trail_cons inSec (by simp [ubranch]), ubranch, push_worklist]
      simp [Kind.fallsThrough, pushesAt, callsAt, ubranch]
  | case5 state pc inSec target jump =>
      rw [setup.trail_cons inSec (by simp [jump]), jump, push_worklist]
      simp [Kind.fallsThrough, pushesAt, callsAt, jump]
  | case6 state pc inSec ret =>
      rw [setup.trail_cons inSec (by simp [ret]), ret]
      simp [Kind.fallsThrough, pushesAt, callsAt, ret]
  | case7 state pc inSec indirect =>
      rw [setup.trail_cons inSec (by simp [indirect]), indirect]
      simp [Kind.fallsThrough, pushesAt, callsAt, indirect]
  | case8 state pc inSec indirect inductionHypothesis =>
      rw [inductionHypothesis, setup.trail_cons inSec (by simp [indirect]), indirect]
      simp [Kind.fallsThrough, pushesAt, callsAt, indirect]
  | case9 state pc inSec nop inductionHypothesis =>
      rw [inductionHypothesis, setup.trail_cons inSec (by simp [nop]), nop]
      simp [Kind.fallsThrough, pushesAt, callsAt, nop]
  | case10 state pc inSec other inductionHypothesis =>
      rw [inductionHypothesis, setup.trail_cons inSec (by simp [other]), other]
      simp [Kind.fallsThrough, pushesAt, callsAt, other]
  | case11 state pc outside =>
      rw [setup.trail_outside outside]
      rfl

/-! ## The loop -/

/-- The word-aligned addresses of the section. -/
noncomputable def addresses : Finset Int :=
  (Finset.Ico setup.bounds.lo setup.bounds.hi).filter (fun vram => vram % 4 = 0)

theorem mem_addresses (vram : Int) :
    vram ∈ setup.addresses ↔ setup.inSec vram ∧ vram % 4 = 0 := by
  unfold addresses inSec
  rw [Finset.mem_filter, Finset.mem_Ico]

theorem mem_callsAt_iff (pc target : Int) : target ∈ setup.callsAt pc ↔
    classify (setup.word pc) pc = .call target ∧ setup.Gate target := by
  unfold callsAt
  cases classify (setup.word pc) pc with
  | call callee =>
      by_cases gate : setup.Gate callee
      · simp only [gate, if_true, List.mem_singleton, Kind.call.injEq]
        constructor
        · rintro rfl
          exact ⟨rfl, gate⟩
        · exact fun same => same.1.symm
      · simp only [gate, if_false, List.not_mem_nil, Kind.call.injEq, false_iff]
        rintro ⟨rfl, passes⟩
        exact gate passes
  | _ => simp

/-- A push is a call through the gate or another transfer inside the section. -/
theorem mem_pushesAt_iff (pc target : Int) : target ∈ setup.pushesAt pc ↔
    target ∈ setup.callsAt pc ∨
      ((classify (setup.word pc) pc).leaves = some target ∧
        setup.inSec target ∧ target % 4 = 0) := by
  have inside : ∀ next : Int, target ∈ (if setup.inSec next ∧ next % 4 = 0 then [next]
      else []) ↔ some next = some target ∧ setup.inSec target ∧ target % 4 = 0 := by
    intro next
    rw [Option.some.injEq]
    split
    next allowed =>
      rw [List.mem_singleton]
      constructor
      · rintro rfl
        exact ⟨rfl, allowed⟩
      · exact fun same => same.1.symm
    next refused =>
      simp only [List.not_mem_nil, false_iff]
      rintro ⟨rfl, allowed⟩
      exact refused allowed
  unfold pushesAt callsAt
  cases classify (setup.word pc) pc with
  | call callee => simp [Kind.leaves]
  | branch next => simp only [inside, Kind.leaves, List.not_mem_nil, false_or]
  | ubranch next => simp only [inside, Kind.leaves, List.not_mem_nil, false_or]
  | jump next => simp only [inside, Kind.leaves, List.not_mem_nil, false_or]
  | _ => simp [Kind.leaves]

/-- Only word-aligned addresses of the section are pushed. -/
theorem successors_mem_addresses (start : Int) :
    ∀ next ∈ setup.explorer.successors start, next ∈ setup.addresses := by
  intro next member
  rw [mem_addresses]
  obtain ⟨pc, _, pushed⟩ := List.mem_flatMap.mp member
  rcases (setup.mem_pushesAt_iff pc next).mp pushed with called | ⟨_, allowed⟩
  · obtain ⟨_, inSec, aligned, _⟩ := (setup.mem_callsAt_iff pc next).mp called
    exact ⟨inSec, aligned⟩
  · exact allowed

/-- Addresses not yet pushed, plus the length of the stack. -/
noncomputable def remaining (state : Discovery) : Nat :=
  state.worklist.remaining setup.addresses

theorem remaining_walk (state : Discovery) (pc : Int) :
    setup.remaining (setup.walk state pc) = setup.remaining state := by
  unfold remaining
  rw [walk_worklist]
  exact Worklist.remaining_record (setup.successors_mem_addresses pc) _ _

/-- `while work: walk(work.pop())`. -/
def drain (state : Discovery) : Discovery :=
  match _stack : state.work with
  | [] => state
  | start :: rest => drain (setup.walk { state with work := rest } start)
termination_by setup.remaining state
decreasing_by
  rw [remaining_walk]
  unfold remaining Worklist.remaining Discovery.worklist
  simp only [_stack, List.length_cons]
  omega

/-- Discovery up to the emptied work list. `seeds` is the entry followed by
`known` in whatever order the set is iterated. -/
def discover (seeds : List Int) : Discovery := setup.drain (setup.seeded seeds)

end Setup

end StadiumRecomp.Mips
