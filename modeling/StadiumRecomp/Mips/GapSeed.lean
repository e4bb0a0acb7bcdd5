import StadiumRecomp.Mips.FuncSize

/-!
Contract: the gap-seed pass of `tools/mips_find_functions.py`.

Owns: the prologue test, the scan with its seeds, the walks that follow it, what the walks
before it have reached, and the exact candidates for which seeding splits no function.

Does not own: the `roots` loop in front of the scan, which computes nothing that is used.
-/

set_option autoImplicit false

namespace StadiumRecomp.Mips

open StadiumRecomp.Lib

/-! ## The scan -/

/-- `addiu sp,sp,-N`. -/
def opensFrame (word : Nat) : Bool :=
  word &&& 0xFFFF0000 = 0x27BD0000 ∧ word &&& 0x8000 ≠ 0

/-- `sw ra,X(sp)`. -/
def savesReturn (word : Nat) : Bool := word &&& 0xFFFF0000 = 0xAFBF0000

/-- The state of discovery with `gap_seeds`. -/
structure GapPass where
  state : Discovery
  gapSeeds : List Int

namespace Setup

variable (setup : Setup)

/-- The loop over `k`: a saved return address among `count` words, before any `jr ra`. -/
def savesReturnWithin : Nat → Int → Bool
  | 0, _ => false
  | count + 1, pc =>
      if savesReturn (setup.word pc) then true
      else if setup.word pc = 0x03E00008 then false
      else savesReturnWithin count (pc + 4)

/-- The body of the scan at `vram`. -/
def gapVisit (pass : GapPass) (vram : Int) : GapPass :=
  if vram ∈ pass.state.functions ∨ vram ∈ pass.state.reached ∨ setup.insideKnownBody vram then
    pass
  else if opensFrame (setup.word vram) then
    if setup.savesReturnWithin 8 (vram + 4) ∧ isLegal (setup.word vram) then
      ⟨setup.addFunction pass.state vram, pass.gapSeeds ++ [vram]⟩
    else pass
  else pass

/-- `while v < sec_hi`. -/
def gapScan (pass : GapPass) (vram : Int) : GapPass :=
  if vram < setup.bounds.hi then gapScan (setup.gapVisit pass vram) (vram + 4) else pass
termination_by (setup.bounds.hi - vram).toNat

/-- The whole pass: the scan, then the walks from what it seeded. -/
def gapSeed (state : Discovery) : GapPass :=
  let scanned := setup.gapScan ⟨state, []⟩ setup.bounds.lo
  { scanned with state := setup.drain scanned.state }

/-! ## What the pass should respect -/

/-- `vram` is an instruction on the flow of `fn`, or the delay slot of a transfer there. -/
def Covers (fn vram : Int) : Prop :=
  setup.Reaches fn vram ∨
    ∃ pc, setup.Reaches fn pc ∧ (classify (setup.word pc) pc).isTransfer = true ∧ pc + 4 = vram

/-- No seeded address lies in the code of another entry. -/
def SplitsNone (pass : GapPass) : Prop :=
  ∀ vram ∈ pass.gapSeeds, vram ∈ pass.state.functions →
    ∀ fn ∈ pass.state.functions, fn ≠ vram → ¬ setup.Covers fn vram

/-- The scan of a section in `state` seeds `vram`. -/
structure GapCandidate (state : Discovery) (vram : Int) : Prop where
  gate : setup.Gate vram
  onGrid : (vram - setup.bounds.lo) % 4 = 0
  unregistered : vram ∉ state.functions
  unreached : vram ∉ state.reached
  opens : opensFrame (setup.word vram) = true
  saves : setup.savesReturnWithin 8 (vram + 4) = true

/-- The entries that candidates bring in: themselves and what their code calls. -/
inductive BroughtIn (state : Discovery) : Int → Prop
  | seed {vram : Int} (candidate : setup.GapCandidate state vram) : BroughtIn state vram
  | call {fn pc target : Int} (caller : BroughtIn state fn) (reached : setup.Reaches fn pc)
      (call : classify (setup.word pc) pc = .call target) (gate : setup.Gate target) :
      BroughtIn state target

/-- No candidate stands in the slot of a path end that was walked, or in the code of another
entry that candidates bring in. -/
def CandidatesStandAlone (state : Discovery) : Prop :=
  ∀ vram, setup.GapCandidate state vram →
    (∀ pc ∈ state.reached, pc + 4 = vram → (classify (setup.word pc) pc).endsPath = false) ∧
      ∀ fn, setup.BroughtIn state fn → fn ≠ vram → ¬ setup.Covers fn vram

variable {setup}

/-! ## Addresses reached by the walks -/

theorem push_reached (state : Discovery) (vram : Int) :
    (setup.push state vram).reached = state.reached := by
  unfold push
  split <;> rfl

theorem addFunction_reached (state : Discovery) (vram : Int) :
    (setup.addFunction state vram).reached = state.reached := by
  unfold addFunction
  split
  · split
    · rfl
    · split
      · exact setup.push_reached state vram
      · rfl
  · rfl

/-- The addresses a walk reaches are those of its trail. -/
theorem mem_reached_walk (state : Discovery) (start pc : Int) :
    pc ∈ (setup.walk state start).reached ↔ pc ∈ setup.trail start ∨ pc ∈ state.reached := by
  have reach : ∀ (before : Discovery) (here : Int),
      pc ∈ (before.reach here).reached ↔ pc = here ∨ pc ∈ before.reached :=
    fun _ _ => List.mem_insert_iff
  have goesOn : ∀ (before after final : Discovery) (here : Int), setup.inSec here →
      (classify (setup.word here) here).fallsThrough = true →
      after.reached = (before.reach here).reached →
      (pc ∈ final.reached ↔ pc ∈ setup.trail (here + 4) ∨ pc ∈ after.reached) →
      (pc ∈ final.reached ↔ pc ∈ setup.trail here ∨ pc ∈ before.reached) := by
    intro before after final here inSec falls same rest
    have valid : classify (setup.word here) here ≠ .invalid := by
      intro invalid
      rw [invalid] at falls
      cases falls
    rw [rest, same, reach, setup.trail_cons inSec valid, if_pos falls, List.mem_cons]
    tauto
  have ends : ∀ (before final : Discovery) (here : Int), setup.inSec here →
      classify (setup.word here) here ≠ .invalid →
      (classify (setup.word here) here).fallsThrough = false →
      final.reached = (before.reach here).reached →
      (pc ∈ final.reached ↔ pc ∈ setup.trail here ∨ pc ∈ before.reached) := by
    intro before final here inSec valid stops same
    rw [same, reach, setup.trail_cons inSec valid, stops, if_neg Bool.false_ne_true,
      List.mem_singleton]
  fun_induction walk setup state start with
  | case1 state start inSec invalid => simp [setup.trail_invalid invalid]
  | case2 state start inSec target call inductionHypothesis =>
      exact goesOn state _ _ start inSec (by rw [call]; rfl) (addFunction_reached _ _)
        inductionHypothesis
  | case3 state start inSec target branch inductionHypothesis =>
      exact goesOn state _ _ start inSec (by rw [branch]; rfl) (push_reached _ _)
        inductionHypothesis
  | case4 state start inSec target ubranch =>
      exact ends state _ start inSec (by simp [ubranch]) (by rw [ubranch]; rfl)
        (push_reached _ _)
  | case5 state start inSec target jump =>
      exact ends state _ start inSec (by simp [jump]) (by rw [jump]; rfl) (push_reached _ _)
  | case6 state start inSec ret =>
      exact ends state _ start inSec (by simp [ret]) (by rw [ret]; rfl) rfl
  | case7 state start inSec indirect =>
      exact ends state _ start inSec (by simp [indirect]) (by rw [indirect]; rfl) rfl
  | case8 state start inSec indirect inductionHypothesis =>
      exact goesOn state _ _ start inSec (by rw [indirect]; rfl) rfl inductionHypothesis
  | case9 state start inSec nop inductionHypothesis =>
      exact goesOn state _ _ start inSec (by rw [nop]; rfl) rfl inductionHypothesis
  | case10 state start inSec other inductionHypothesis =>
      exact goesOn state _ _ start inSec (by rw [other]; rfl) rfl inductionHypothesis
  | case11 state start outside => simp [setup.trail_outside outside]

variable (setup) in
/-- Between two pops, the reached addresses are the trails of the walked ones. -/
structure Trailed (state : Discovery) : Prop where
  pushed : ∀ start ∈ state.work, start ∈ state.explored
  onTrail : ∀ pc ∈ state.reached, ∃ start ∈ state.explored, pc ∈ setup.trail start
  walked : ∀ start ∈ state.explored, start ∈ state.work ∨
    ∀ pc ∈ setup.trail start, pc ∈ state.reached

theorem trailed_seeded (seeds : List Int) : setup.Trailed (setup.seeded seeds) where
  pushed := by
    intro start member
    change start ∈ (setup.seeded seeds).worklist.pending at member
    show start ∈ (setup.seeded seeds).worklist.seen
    unfold seeded at member ⊢
    rw [foldl_addFunction_worklist] at member ⊢
    rw [Worklist.mem_seen_record]
    rcases Worklist.of_mem_pending_record member with seed | nothing
    · exact Or.inl seed
    · cases nothing
  onTrail := by
    have nothing : (setup.seeded seeds).reached = [] := by
      unfold seeded
      generalize begun : Discovery.empty = state
      have fresh : state.reached = [] := by rw [← begun]; rfl
      clear begun
      induction seeds generalizing state with
      | nil => exact fresh
      | cons head rest inductionHypothesis =>
          apply inductionHypothesis
          rw [addFunction_reached, fresh]
    intro pc member
    rw [nothing] at member
    cases member
  walked := by
    intro start member
    left
    have pending : start ∈ (setup.seeded seeds).worklist.pending := by
      change start ∈ (setup.seeded seeds).worklist.seen at member
      unfold seeded at member ⊢
      rw [foldl_addFunction_worklist] at member ⊢
      rcases Worklist.mem_pending_record member with old | pending
      · cases old
      · exact pending
    exact pending

theorem Trailed.walk {state : Discovery} {start : Int} {rest : List Int}
    (trailed : setup.Trailed state) (stack : state.work = start :: rest) :
    setup.Trailed (setup.walk { state with work := rest } start) := by
  have recorded := setup.walk_worklist { state with work := rest } start
  have explored : start ∈ state.explored :=
    trailed.pushed start (by rw [stack]; exact List.mem_cons_self)
  have kept : ∀ other ∈ state.explored,
      other ∈ (setup.walk { state with work := rest } start).explored := by
    intro other member
    show other ∈ (setup.walk { state with work := rest } start).worklist.seen
    rw [recorded, Worklist.mem_seen_record]
    exact Or.inr member
  constructor
  · intro other member
    change other ∈ (setup.walk { state with work := rest } start).worklist.pending at member
    rw [recorded] at member
    rcases Worklist.of_mem_pending_record member with new | waits
    · show other ∈ (setup.walk { state with work := rest } start).worklist.seen
      rw [recorded, Worklist.mem_seen_record]
      exact Or.inl new
    · apply kept
      apply trailed.pushed
      rw [stack]
      exact List.mem_cons_of_mem start waits
  · intro pc member
    rcases (mem_reached_walk _ start pc).mp member with here | before
    · exact ⟨start, kept start explored, here⟩
    · obtain ⟨other, known, onTrail⟩ := trailed.onTrail pc before
      exact ⟨other, kept other known, onTrail⟩
  · intro other member
    change other ∈ (setup.walk { state with work := rest } start).worklist.seen at member
    rw [recorded] at member
    rcases Worklist.mem_pending_record member with old | pending
    · rcases trailed.walked other old with waits | done
      · rw [stack] at waits
        rcases List.mem_cons.mp waits with rfl | waits
        · right
          intro pc onTrail
          exact (mem_reached_walk _ _ pc).mpr (Or.inl onTrail)
        · left
          show other ∈ (setup.walk { state with work := rest } start).worklist.pending
          rw [recorded]
          exact Worklist.pending_subset_record _ _ _ waits
      · right
        intro pc onTrail
        exact (mem_reached_walk _ _ pc).mpr (Or.inr (done pc onTrail))
    · left
      show other ∈ (setup.walk { state with work := rest } start).worklist.pending
      rw [recorded]
      exact pending

theorem Trailed.drain {state : Discovery} (trailed : setup.Trailed state) :
    setup.Trailed (setup.drain state) := by
  fun_induction Setup.drain setup state with
  | case1 state emptied => exact trailed
  | case2 state start rest stack inductionHypothesis =>
      exact inductionHypothesis (trailed.walk stack)

theorem discover_explored (seeds : List Int) :
    Worklist.Explored setup.explorer (seeds.filter (fun vram => setup.Gate vram))
      (seeds.filter (fun vram => setup.Gate vram)) (setup.discover seeds).worklist := by
  obtain ⟨count, run⟩ := drain_pops (setup.seeded seeds)
  exact run.explored

/-- The addresses reached are the valid instructions on the flow of the registered
functions. -/
theorem mem_reached_discover (seeds : List Int) (pc : Int) :
    pc ∈ (setup.discover seeds).reached ↔
      classify (setup.word pc) pc ≠ .invalid ∧
        ∃ fn ∈ (setup.discover seeds).functions, setup.Reaches fn pc := by
  have trailed : setup.Trailed (setup.discover seeds) := (trailed_seeded seeds).drain
  have explored := setup.discover_explored seeds
  have emptied : (setup.discover seeds).worklist.pending = [] := drain_work _
  constructor
  · intro member
    obtain ⟨start, known, onTrail⟩ := trailed.onTrail pc member
    obtain ⟨fn, registered, reached⟩ := exists_member_of_reachable
      (found_holdsCallees explored emptied gate_of_mem_gated) explored.reported
      (explored.sound start known)
    exact ⟨valid_of_mem_trail onTrail, fn, registered,
      reached.trans (reaches_of_mem_trail onTrail)⟩
  · intro ⟨valid, fn, registered, reached⟩
    obtain ⟨gate, walked⟩ := walked_of_mem_found explored emptied gate_of_mem_gated registered
    obtain ⟨start, startWalked, onTrail⟩ :=
      exists_trail_of_reaches walked gate.1 gate.2.1 reached valid
    rcases trailed.walked start ((explored.mem_seen_iff emptied start).mpr startWalked) with
      waits | done
    · have nothing : (setup.discover seeds).work = [] := emptied
      rw [nothing] at waits
      cases waits
    · exact done pc onTrail

/-! ## What the scan seeds -/

variable (setup) in
/-- The scan takes `vram` in this state. -/
def Picks (state : Discovery) (vram : Int) : Prop :=
  vram ∉ state.functions ∧ vram ∉ state.reached ∧ setup.insideKnownBody vram = false ∧
    opensFrame (setup.word vram) = true ∧ setup.savesReturnWithin 8 (vram + 4) = true ∧
      isLegal (setup.word vram) = true

theorem gapVisit_picked {pass : GapPass} {vram : Int} (picked : setup.Picks pass.state vram) :
    setup.gapVisit pass vram =
      ⟨setup.addFunction pass.state vram, pass.gapSeeds ++ [vram]⟩ := by
  obtain ⟨unregistered, unreached, outside, opens, saves, legal⟩ := picked
  have free : ¬ (vram ∈ pass.state.functions ∨ vram ∈ pass.state.reached ∨
      setup.insideKnownBody vram = true) := by
    simp [unregistered, unreached, outside]
  unfold gapVisit
  rw [if_neg free, if_pos opens, if_pos ⟨saves, legal⟩]

theorem gapVisit_passed {pass : GapPass} {vram : Int} (passed : ¬ setup.Picks pass.state vram) :
    setup.gapVisit pass vram = pass := by
  unfold gapVisit
  split
  next => rfl
  next free =>
    split
    next opens =>
      split
      next both =>
        push Not at free
        exact absurd ⟨free.1, free.2.1, Bool.eq_false_of_not_eq_true free.2.2, opens, both.1,
          both.2⟩ passed
      next => rfl
    next => rfl

/-- A visit changes the verdict on its own address only. -/
theorem picks_gapVisit {pass : GapPass} {vram other : Int} (different : other ≠ vram) :
    setup.Picks (setup.gapVisit pass vram).state other ↔ setup.Picks pass.state other := by
  by_cases picked : setup.Picks pass.state vram
  · have registered : other ∈ (setup.addFunction pass.state vram).functions ↔
        other ∈ pass.state.functions := by
      show other ∈ (setup.addFunction pass.state vram).worklist.found ↔ _
      rw [addFunction_worklist, Worklist.mem_found_record]
      split
      · rw [List.mem_singleton]
        exact or_iff_right different
      · exact or_iff_right List.not_mem_nil
    rw [gapVisit_picked picked]
    unfold Picks
    rw [registered, addFunction_reached]
  · rw [gapVisit_passed picked]

/-- The scan takes what it would take in its first state, and registers what passes the
gate. -/
theorem gapScan_picks (setup : Setup) (pass : GapPass) (vram : Int) : ∃ picked : List Int,
    (∀ other, other ∈ picked ↔ vram ≤ other ∧ other < setup.bounds.hi ∧
      (other - vram) % 4 = 0 ∧ setup.Picks pass.state other) ∧
    (setup.gapScan pass vram).gapSeeds = pass.gapSeeds ++ picked ∧
    (setup.gapScan pass vram).state.worklist = pass.state.worklist.record
      (picked.filter (fun other => setup.Gate other))
      (picked.filter (fun other => setup.Gate other)) := by
  fun_induction gapScan setup pass vram with
  | case1 pass vram below inductionHypothesis =>
      obtain ⟨later, members, seeds, recorded⟩ := inductionHypothesis
      have rest : ∀ other, other ∈ later ↔ vram < other ∧ other < setup.bounds.hi ∧
          (other - vram) % 4 = 0 ∧ setup.Picks pass.state other := by
        intro other
        rw [members]
        constructor
        · intro ⟨above, inside, grid, picked⟩
          exact ⟨by omega, inside, by omega, (picks_gapVisit (by omega)).mp picked⟩
        · intro ⟨above, inside, grid, picked⟩
          exact ⟨by omega, inside, by omega, (picks_gapVisit (by omega)).mpr picked⟩
      by_cases picked : setup.Picks pass.state vram
      · refine ⟨vram :: later, ?_, ?_, ?_⟩
        · intro other
          rw [List.mem_cons, rest]
          by_cases here : other = vram
          · subst here
            simp [picked, below]
          · constructor
            · rintro (same | ⟨above, others⟩)
              · exact absurd same here
              · exact ⟨by omega, others⟩
            · intro ⟨above, others⟩
              exact Or.inr ⟨by omega, others⟩
        · rw [seeds, gapVisit_picked picked, List.append_assoc]
          rfl
        · rw [recorded, gapVisit_picked picked, addFunction_worklist, Worklist.record_append]
          by_cases gate : setup.Gate vram <;> simp [gate]
      · refine ⟨later, ?_, ?_, ?_⟩
        · intro other
          rw [rest]
          by_cases here : other = vram
          · subst here
            simp [picked]
          · constructor
            · intro ⟨above, others⟩
              exact ⟨by omega, others⟩
            · intro ⟨above, others⟩
              exact ⟨by omega, others⟩
        · rw [seeds, gapVisit_passed picked]
        · rw [recorded, gapVisit_passed picked]
  | case2 pass vram above =>
      refine ⟨[], ?_, ?_, ?_⟩
      · intro other
        constructor
        · intro impossible
          cases impossible
        · intro ⟨atLeast, inside, _⟩
          omega
      · rw [List.append_nil]
      · rfl

theorem mem_gapSeeds (state : Discovery) (vram : Int) :
    vram ∈ (setup.gapSeed state).gapSeeds ↔ setup.inSec vram ∧
      (vram - setup.bounds.lo) % 4 = 0 ∧ setup.Picks state vram := by
  obtain ⟨picked, members, seeds, _⟩ := gapScan_picks setup ⟨state, []⟩ setup.bounds.lo
  unfold gapSeed inSec
  show vram ∈ (setup.gapScan ⟨state, []⟩ setup.bounds.lo).gapSeeds ↔ _
  rw [seeds, List.nil_append, members]
  tauto

theorem gapCandidate_iff (state : Discovery) (vram : Int) :
    setup.GapCandidate state vram ↔
      vram ∈ (setup.gapSeed state).gapSeeds ∧ setup.Gate vram := by
  rw [mem_gapSeeds]
  constructor
  · intro ⟨gate, onGrid, unregistered, unreached, opens, saves⟩
    exact ⟨⟨gate.1, onGrid, unregistered, unreached, gate.2.2.1, opens, saves, gate.2.2.2⟩, gate⟩
  · intro ⟨⟨_, onGrid, unregistered, unreached, _, opens, saves, _⟩, gate⟩
    exact ⟨gate, onGrid, unregistered, unreached, opens, saves⟩

/-- The pass goes on with the walks before it, from the candidates as new seeds. -/
theorem gapSeed_explored (setup : Setup) (seeds : List Int) : ∃ candidates : List Int,
    (∀ vram, vram ∈ candidates ↔ setup.GapCandidate (setup.discover seeds) vram) ∧
    Worklist.Explored setup.explorer
      (seeds.filter (fun vram => setup.Gate vram) ++ candidates)
      (seeds.filter (fun vram => setup.Gate vram) ++ candidates)
      (setup.gapSeed (setup.discover seeds)).state.worklist := by
  obtain ⟨picked, _, found, recorded⟩ :=
    gapScan_picks setup ⟨setup.discover seeds, []⟩ setup.bounds.lo
  refine ⟨picked.filter (fun vram => setup.Gate vram), ?_, ?_⟩
  · intro vram
    have seeded : (setup.gapSeed (setup.discover seeds)).gapSeeds = picked := found
    rw [gapCandidate_iff, seeded, List.mem_filter, decide_eq_true_iff]
  · obtain ⟨count, run⟩ := drain_pops
      (setup.gapScan ⟨setup.discover seeds, []⟩ setup.bounds.lo).state
    apply Worklist.Explored.pops run.worklist
    rw [recorded]
    exact (setup.discover_explored seeds).extend _ _

section Registered

variable (seeds : List Int)

theorem gapSeed_work : (setup.gapSeed (setup.discover seeds)).state.worklist.pending = [] :=
  drain_work _

theorem gated_of_candidates {candidates : List Int}
    (members : ∀ vram, vram ∈ candidates ↔ setup.GapCandidate (setup.discover seeds) vram) :
    ∀ vram ∈ seeds.filter (fun vram => setup.Gate vram) ++ candidates, setup.Gate vram := by
  intro vram member
  rcases List.mem_append.mp member with seed | candidate
  · exact gate_of_mem_gated vram seed
  · exact ((members vram).mp candidate).gate

/-- After the pass, what it brought in is registered besides what was. -/
theorem mem_functions_gapSeed (vram : Int) :
    vram ∈ (setup.gapSeed (setup.discover seeds)).state.functions ↔
      vram ∈ (setup.discover seeds).functions ∨
        setup.BroughtIn (setup.discover seeds) vram := by
  obtain ⟨candidates, members, explored⟩ := gapSeed_explored setup seeds
  have gated := gated_of_candidates seeds members
  have callees := found_holdsCallees explored (gapSeed_work seeds) gated
  have before := setup.discover_explored seeds
  have beforeCallees := found_holdsCallees before (drain_work _) gate_of_mem_gated
  constructor
  · intro registered
    show vram ∈ {fn | fn ∈ (setup.discover seeds).functions ∨
      setup.BroughtIn (setup.discover seeds) fn}
    apply found_subset explored (gapSeed_work seeds) _ _ registered
    · intro seed member
      rcases List.mem_append.mp member with old | candidate
      · exact Or.inl (before.reported seed old)
      · exact Or.inr (BroughtIn.seed ((members seed).mp candidate))
    · intro fn member pc reached target call gate
      rcases member with old | brought
      · exact Or.inl (beforeCallees fn old pc reached target call gate)
      · exact Or.inr (BroughtIn.call brought reached call gate)
  · intro known
    rcases known with old | brought
    · apply found_subset before (drain_work _) _ callees old
      intro seed member
      exact explored.reported seed (List.mem_append_left candidates member)
    · induction brought with
      | seed candidate =>
          apply explored.reported
          exact List.mem_append_right _ ((members _).mpr candidate)
      | call _ reached call gate inductionHypothesis =>
          exact callees _ inductionHypothesis _ reached _ call gate

/-- What the scan seeds and registers are the candidates. -/
theorem seeded_iff_gapCandidate (vram : Int) :
    (vram ∈ (setup.gapSeed (setup.discover seeds)).gapSeeds ∧
      vram ∈ (setup.gapSeed (setup.discover seeds)).state.functions) ↔
      setup.GapCandidate (setup.discover seeds) vram := by
  constructor
  · intro ⟨seeded, registered⟩
    obtain ⟨candidates, members, explored⟩ := gapSeed_explored setup seeds
    have gate := (walked_of_mem_found explored (gapSeed_work seeds)
      (gated_of_candidates seeds members) registered).1
    exact (gapCandidate_iff _ vram).mpr ⟨seeded, gate⟩
  · intro candidate
    exact ⟨((gapCandidate_iff _ vram).mp candidate).1,
      (mem_functions_gapSeed seeds vram).mpr (Or.inr (BroughtIn.seed candidate))⟩

/-! ## Code walked before the scan -/

theorem GapCandidate.valid {state : Discovery} {vram : Int}
    (candidate : setup.GapCandidate state vram) :
    classify (setup.word vram) vram ≠ .invalid :=
  (classify_ne_invalid_iff _ vram).mpr candidate.gate.2.2.2

/-- Walked code covers a candidate only from the delay slot of a path end. -/
theorem covered_by_walked_iff {vram : Int}
    (candidate : setup.GapCandidate (setup.discover seeds) vram) :
    (∃ fn ∈ (setup.discover seeds).functions, setup.Covers fn vram) ↔
      ∃ pc ∈ (setup.discover seeds).reached, pc + 4 = vram ∧
        (classify (setup.word pc) pc).endsPath = true := by
  have unreached : ∀ fn ∈ (setup.discover seeds).functions, ¬ setup.Reaches fn vram := by
    intro fn registered reached
    apply candidate.unreached
    exact (mem_reached_discover seeds vram).mpr ⟨candidate.valid, fn, registered, reached⟩
  constructor
  · intro ⟨fn, registered, covers⟩
    rcases covers with reached | ⟨pc, reached, transfer, slot⟩
    · exact absurd reached (unreached fn registered)
    · have valid : classify (setup.word pc) pc ≠ .invalid := by
        intro invalid
        rw [invalid] at transfer
        cases transfer
      refine ⟨pc, (mem_reached_discover seeds pc).mpr ⟨valid, fn, registered, reached⟩, slot, ?_⟩
      -- A transfer that goes on would have reached its slot.
      by_contra goesOn
      apply unreached fn registered
      have falls := Kind.fallsThrough_of_isTransfer transfer (Bool.eq_false_of_not_eq_true goesOn)
      exact Reaches.step reached (Or.inl ⟨falls, slot.symm⟩) candidate.gate.1
  · intro ⟨pc, member, slot, ends⟩
    obtain ⟨_, fn, registered, reached⟩ := (mem_reached_discover seeds pc).mp member
    exact ⟨fn, registered, Or.inr ⟨pc, reached, Kind.isTransfer_of_endsPath ends, slot⟩⟩

end Registered

/-- The pass splits no function exactly when its candidates stand alone. -/
theorem gapSeed_splitsNone_iff (setup : Setup) (seeds : List Int) :
    setup.SplitsNone (setup.gapSeed (setup.discover seeds)) ↔
      setup.CandidatesStandAlone (setup.discover seeds) := by
  constructor
  · intro splitsNone vram candidate
    obtain ⟨seeded, registered⟩ := (seeded_iff_gapCandidate seeds vram).mpr candidate
    constructor
    · intro pc member slot
      by_contra ends
      obtain ⟨fn, old, covers⟩ := (covered_by_walked_iff seeds candidate).mpr
        ⟨pc, member, slot, by simpa using ends⟩
      have other : fn ≠ vram := by
        intro same
        exact candidate.unregistered (same ▸ old)
      exact splitsNone vram seeded registered fn
        ((mem_functions_gapSeed seeds fn).mpr (Or.inl old)) other covers
    · intro fn brought other covers
      exact splitsNone vram seeded registered fn
        ((mem_functions_gapSeed seeds fn).mpr (Or.inr brought)) other covers
  · intro standAlone vram seeded registered fn known other covers
    have candidate := (seeded_iff_gapCandidate seeds vram).mp ⟨seeded, registered⟩
    obtain ⟨slots, apart⟩ := standAlone vram candidate
    rcases (mem_functions_gapSeed seeds fn).mp known with old | brought
    · obtain ⟨pc, member, slot, ends⟩ :=
        (covered_by_walked_iff seeds candidate).mp ⟨fn, old, covers⟩
      rw [slots pc member slot] at ends
      cases ends
    · exact apart fn brought other covers

/-- A return, then a function that adjusts its stack a second time. -/
def laterAdjustment : Setup where
  rom := [0x03, 0xE0, 0x00, 0x08, 0, 0, 0, 0,
    0x27, 0xBD, 0xFF, 0xE8, 0xAF, 0xBF, 0x00, 0x14,
    0x27, 0xBD, 0xFF, 0xF0, 0xAF, 0xBF, 0x00, 0x04,
    0x03, 0xE0, 0x00, 0x08, 0, 0, 0, 0]
  romBase := 0
  bounds := ⟨0x80000400, 0x20⟩
  entry := 0x80000400
  knownFns := []

theorem laterAdjustment_discover :
    (laterAdjustment.discover [0x80000400]).functions = [0x80000400] ∧
      (laterAdjustment.discover [0x80000400]).reached = [0x80000400] := by
  have seeded : laterAdjustment.seeded [0x80000400] =
      ⟨[0x80000400], [0x80000400], [], [0x80000400], [], by simp⟩ := rfl
  have returns : classify (laterAdjustment.word 0x80000400) 0x80000400 = .ret := by decide
  have walked : laterAdjustment.walk ⟨[0x80000400], [0x80000400], [], [], [], by simp⟩ 0x80000400 =
      ⟨[0x80000400], [0x80000400], [0x80000400], [], [], by simp⟩ := by
    rw [walk, dif_pos (by decide), returns]
    rfl
  unfold discover
  rw [seeded, drain]
  dsimp only
  rw [walked, drain]
  exact ⟨rfl, rfl⟩

theorem gapSeed_splits_later_adjustment :
    ¬ ∀ (setup : Setup) (seeds : List Int),
      (∀ vram, vram ∈ seeds ↔ vram = setup.entry ∨ vram ∈ setup.known) →
        setup.SplitsNone (setup.gapSeed (setup.discover seeds)) := by
  intro splitsNone
  obtain ⟨functions, reached⟩ := laterAdjustment_discover
  have candidate : ∀ vram : Int, vram = 0x80000408 ∨ vram = 0x80000410 →
      laterAdjustment.GapCandidate (laterAdjustment.discover [0x80000400]) vram := by
    intro vram either
    constructor
    · rcases either with rfl | rfl <;> decide
    · rcases either with rfl | rfl <;> decide
    · rw [functions]
      rcases either with rfl | rfl <;> decide
    · rw [reached]
      rcases either with rfl | rfl <;> decide
    · rcases either with rfl | rfl <;> decide
    · rcases either with rfl | rfl <;> decide
  have first := (seeded_iff_gapCandidate _ _).mpr (candidate 0x80000408 (Or.inl rfl))
  have second := (seeded_iff_gapCandidate _ _).mpr (candidate 0x80000410 (Or.inr rfl))
  have saves : laterAdjustment.Reaches 0x80000408 0x8000040C :=
    Reaches.step Reaches.start (Or.inl ⟨by decide, rfl⟩) (by decide)
  have adjusts : laterAdjustment.Reaches 0x80000408 0x80000410 :=
    Reaches.step saves (Or.inl ⟨by decide, rfl⟩) (by decide)
  have sameSeeds : ∀ vram, vram ∈ [(0x80000400 : Int)] ↔
      vram = laterAdjustment.entry ∨ vram ∈ laterAdjustment.known := by
    intro vram
    simp [laterAdjustment, known]
  exact splitsNone laterAdjustment [0x80000400] sameSeeds 0x80000410 second.1 second.2
    0x80000408 first.2 (by decide) (Or.inl adjusts)

end Setup

end StadiumRecomp.Mips
