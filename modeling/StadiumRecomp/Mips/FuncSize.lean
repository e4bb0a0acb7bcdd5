import StadiumRecomp.Lib.Frontier
import StadiumRecomp.Mips.CallClosure

/-!
Contract: the sizes `tools/mips_find_functions.py` gives to new functions.

Owns: `func_size`, the body of an entry inside a limit, and the theorem that the size is
the furthest extent of that body.

Does not own: which functions are sized, and the limit of each.
-/

set_option autoImplicit false

namespace StadiumRecomp.Mips

open StadiumRecomp.Lib

/-- The path ends behind the delay slot. -/
def Kind.endsPath : Kind → Bool
  | .ret | .ubranch _ | .jump _ | .indirectJump => true
  | _ => false

/-- A transfer of control, whose delay slot belongs to it. -/
def Kind.isTransfer : Kind → Bool
  | .call _ | .indirectCall | .branch _ | .ubranch _ | .jump _ | .ret | .indirectJump => true
  | .invalid | .nop | .other => false

theorem Kind.fallsThrough_of_isTransfer {kind : Kind} (transfer : kind.isTransfer = true)
    (goesOn : kind.endsPath = false) : kind.fallsThrough = true := by
  cases kind with
  | call | branch | indirectCall => rfl
  | ubranch | jump | ret | indirectJump => cases goesOn
  | invalid | nop | other => cases transfer

theorem Kind.isTransfer_of_endsPath {kind : Kind} (ends : kind.endsPath = true) :
    kind.isTransfer = true := by
  cases kind with
  | ubranch | jump | ret | indirectJump => rfl
  | call | branch | indirectCall | invalid | nop | other => cases ends

/-! ## `func_size` -/

/-- `seen`, `stack` (top first) and `maxend`. -/
structure Extent where
  seen : List Int
  stack : List Int
  maxend : Int

namespace Extent

/-- `seen.add(pc)`. -/
def see (state : Extent) (pc : Int) : Extent := { state with seen := pc :: state.seen }

/-- `maxend = max(maxend, finish)`. -/
def raise (state : Extent) (finish : Int) : Extent :=
  { state with maxend := if finish > state.maxend then finish else state.maxend }

/-- `if entry <= tgt < limit: stack.append(tgt)`. -/
def pushWithin (entry limit : Int) (state : Extent) (target : Int) : Extent :=
  if entry ≤ target ∧ target < limit then { state with stack := target :: state.stack }
  else state

end Extent

namespace Setup

variable (setup : Setup) (entry limit : Int)

/-- The inner loop of `func_size`. -/
def sizeWalk (state : Extent) (pc : Int) : Extent :=
  if _inside : entry ≤ pc ∧ pc < limit then
    if pc ∈ state.seen then state
    else
      let state := state.see pc
      match classify (setup.word pc) pc with
      | .invalid => state
      | .ret => (state.raise (pc + 4)).raise (pc + 8)
      | .ubranch target | .jump target =>
          (Extent.pushWithin entry limit (state.raise (pc + 4)) target).raise (pc + 8)
      | .branch target =>
          sizeWalk (Extent.pushWithin entry limit (state.raise (pc + 4)) target) (pc + 4)
      | .indirectJump => (state.raise (pc + 4)).raise (pc + 8)
      | .call _ | .indirectCall | .nop | .other => sizeWalk (state.raise (pc + 4)) (pc + 4)
  else state
termination_by (limit - pc).toNat
decreasing_by all_goals omega

/-! ## One visited instruction -/

/-- What the instruction at `pc` adds to `stack`. -/
def sizePushes (pc : Int) : List Int :=
  match (classify (setup.word pc) pc).leaves with
  | some target => if entry ≤ target ∧ target < limit then [target] else []
  | none => []

/-- What a visit of a valid instruction does, whatever its kind. -/
def visit (state : Extent) (pc : Int) : Extent :=
  let state := (state.see pc).raise (pc + 4)
  let state := { state with stack := setup.sizePushes entry limit pc ++ state.stack }
  if (classify (setup.word pc) pc).endsPath then state.raise (pc + 8) else state

/-- A walk inside the limit visits its instruction and goes on where it falls through. -/
theorem sizeWalk_visit (state : Extent) {pc : Int} (inside : entry ≤ pc ∧ pc < limit)
    (fresh : pc ∉ state.seen) (valid : classify (setup.word pc) pc ≠ .invalid) :
    setup.sizeWalk entry limit state pc =
      if (classify (setup.word pc) pc).fallsThrough then
        setup.sizeWalk entry limit (setup.visit entry limit state pc) (pc + 4)
      else setup.visit entry limit state pc := by
  have pushed : ∀ (target : Int) (grown : Extent), Extent.pushWithin entry limit grown target =
      { grown with stack :=
          (if entry ≤ target ∧ target < limit then [target] else []) ++ grown.stack } := by
    intro target grown
    unfold Extent.pushWithin
    split <;> rfl
  rw [sizeWalk, dif_pos inside, if_neg fresh]
  unfold visit sizePushes
  cases kind : classify (setup.word pc) pc with
  | invalid => exact absurd kind valid
  | _ => simp only [Kind.fallsThrough, Kind.leaves, Kind.endsPath, pushed, if_true,
      Bool.false_eq_true, if_false, List.nil_append]

theorem sizeWalk_invalid (state : Extent) {pc : Int} (inside : entry ≤ pc ∧ pc < limit)
    (fresh : pc ∉ state.seen) (invalid : classify (setup.word pc) pc = .invalid) :
    setup.sizeWalk entry limit state pc = state.see pc := by
  rw [sizeWalk, dif_pos inside, if_neg fresh]
  simp only [invalid]

theorem sizeWalk_seen (state : Extent) {pc : Int} (visited : pc ∈ state.seen) :
    setup.sizeWalk entry limit state pc = state := by
  rw [sizeWalk, if_pos visited, dite_eq_ite, ite_self]

theorem sizeWalk_outside (state : Extent) {pc : Int} (outside : ¬ (entry ≤ pc ∧ pc < limit)) :
    setup.sizeWalk entry limit state pc = state := by
  rw [sizeWalk, dif_neg outside]

/-- A property of visits and of invalid words is one of the whole walk. -/
theorem sizeWalk_induction {motive : Extent → Int → Extent → Prop}
    (outside : ∀ state pc, ¬ (entry ≤ pc ∧ pc < limit) → motive state pc state)
    (seen : ∀ state pc, pc ∈ state.seen → motive state pc state)
    (invalid : ∀ state pc, entry ≤ pc ∧ pc < limit → pc ∉ state.seen →
      classify (setup.word pc) pc = .invalid → motive state pc (state.see pc))
    (ends : ∀ state pc, entry ≤ pc ∧ pc < limit → pc ∉ state.seen →
      classify (setup.word pc) pc ≠ .invalid → (classify (setup.word pc) pc).fallsThrough = false →
        motive state pc (setup.visit entry limit state pc))
    (goesOn : ∀ state pc final, entry ≤ pc ∧ pc < limit → pc ∉ state.seen →
      classify (setup.word pc) pc ≠ .invalid → (classify (setup.word pc) pc).fallsThrough = true →
        motive (setup.visit entry limit state pc) (pc + 4) final → motive state pc final)
    (state : Extent) (pc : Int) : motive state pc (setup.sizeWalk entry limit state pc) := by
  generalize distance : (limit - pc).toNat = room
  induction room using Nat.strong_induction_on generalizing state pc with
  | _ room inductionHypothesis =>
      by_cases inside : entry ≤ pc ∧ pc < limit
      swap
      · rw [setup.sizeWalk_outside entry limit state inside]
        exact outside state pc inside
      by_cases visited : pc ∈ state.seen
      · rw [setup.sizeWalk_seen entry limit state visited]
        exact seen state pc visited
      by_cases valid : classify (setup.word pc) pc = .invalid
      · rw [setup.sizeWalk_invalid entry limit state inside visited valid]
        exact invalid state pc inside visited valid
      rw [setup.sizeWalk_visit entry limit state inside visited valid]
      cases falls : (classify (setup.word pc) pc).fallsThrough with
      | false => exact ends state pc inside visited valid falls
      | true =>
          apply goesOn state pc _ inside visited valid falls
          exact inductionHypothesis (limit - (pc + 4)).toNat (by omega) _ _ rfl

/-! ## The outer loop -/

theorem mem_sizePushes (pc next : Int) : next ∈ setup.sizePushes entry limit pc ↔
    (classify (setup.word pc) pc).leaves = some next ∧ entry ≤ next ∧ next < limit := by
  unfold sizePushes
  cases (classify (setup.word pc) pc).leaves with
  | none => simp
  | some target =>
      show next ∈ (if entry ≤ target ∧ target < limit then [target] else []) ↔ _
      rw [Option.some.injEq]
      split
      next allowed =>
        rw [List.mem_singleton]
        exact ⟨fun same => ⟨same.symm, same ▸ allowed⟩, fun both => both.1.symm⟩
      next refused =>
        constructor
        · intro impossible
          exact absurd impossible List.not_mem_nil
        · intro both
          exact absurd (both.1 ▸ both.2) refused

theorem length_sizePushes_le (pc : Int) : (setup.sizePushes entry limit pc).length ≤ 1 := by
  unfold sizePushes
  split
  · split <;> simp
  · simp

@[simp] theorem seen_visit (state : Extent) (pc : Int) :
    (setup.visit entry limit state pc).seen = pc :: state.seen := by
  unfold visit
  split <;> rfl

@[simp] theorem stack_visit (state : Extent) (pc : Int) :
    (setup.visit entry limit state pc).stack =
      setup.sizePushes entry limit pc ++ state.stack := by
  unfold visit
  split <;> rfl

/-- Two for every address not yet seen, which may push one, and one for each pending. -/
noncomputable def unsized (state : Extent) : Nat :=
  2 * ((Finset.Ico entry limit).filter (· ∉ state.seen)).card + state.stack.length

theorem card_unseen {pc : Int} (seen : List Int) (inside : entry ≤ pc ∧ pc < limit)
    (fresh : pc ∉ seen) :
    ((Finset.Ico entry limit).filter (· ∉ pc :: seen)).card + 1 =
      ((Finset.Ico entry limit).filter (· ∉ seen)).card := by
  have erased : (Finset.Ico entry limit).filter (· ∉ pc :: seen) =
      ((Finset.Ico entry limit).filter (· ∉ seen)).erase pc := by
    ext other
    simp only [Finset.mem_filter, Finset.mem_erase, List.mem_cons]
    tauto
  have member : pc ∈ (Finset.Ico entry limit).filter (· ∉ seen) :=
    Finset.mem_filter.mpr ⟨Finset.mem_Ico.mpr inside, fresh⟩
  have positive := Finset.card_pos.mpr ⟨pc, member⟩
  rw [erased, Finset.card_erase_of_mem member]
  omega

theorem unsized_sizeWalk (state : Extent) (pc : Int) :
    unsized entry limit (setup.sizeWalk entry limit state pc) ≤ unsized entry limit state := by
  have visited : ∀ (state : Extent) (pc : Int), entry ≤ pc ∧ pc < limit → pc ∉ state.seen →
      unsized entry limit (setup.visit entry limit state pc) ≤ unsized entry limit state := by
    intro state pc inside fresh
    have counted := card_unseen entry limit state.seen inside fresh
    have pushes := setup.length_sizePushes_le entry limit pc
    unfold unsized
    rw [seen_visit, stack_visit, List.length_append]
    omega
  refine setup.sizeWalk_induction entry limit
    (motive := fun state _ final => unsized entry limit final ≤ unsized entry limit state)
    ?_ ?_ ?_ ?_ ?_ state pc
  · intro state pc _
    exact Nat.le_refl _
  · intro state pc _
    exact Nat.le_refl _
  · intro state pc inside fresh _
    have counted := card_unseen entry limit state.seen inside fresh
    unfold unsized
    show 2 * ((Finset.Ico entry limit).filter (· ∉ pc :: state.seen)).card + _ ≤ _
    have same : (state.see pc).stack = state.stack := rfl
    rw [same]
    omega
  · intro state pc inside fresh _ _
    exact visited state pc inside fresh
  · intro state pc final inside fresh _ _ later
    exact Nat.le_trans later (visited state pc inside fresh)

/-- `while stack`. -/
def sizeLoop (state : Extent) : Extent :=
  match _pending : state.stack with
  | [] => state
  | pc :: rest => sizeLoop (setup.sizeWalk entry limit { state with stack := rest } pc)
termination_by unsized entry limit state
decreasing_by
  apply Nat.lt_of_le_of_lt (setup.unsized_sizeWalk entry limit _ pc)
  unfold unsized
  simp only [_pending, List.length_cons]
  omega

/-- `func_size`. -/
def funcSize : Int :=
  let state := setup.sizeLoop entry limit ⟨[], [entry], entry + 4⟩
  min (state.maxend - entry) (limit - entry)

/-! ## The body -/

/-- One step of control flow that stays inside the limit. -/
def BodyStep (pc next : Int) : Prop := setup.Flows pc next ∧ entry ≤ next ∧ next < limit

/-- An address reached from the entry inside the limit by fall-through, branches and
jumps. -/
def InBody (pc : Int) : Prop :=
  Reached {start | start = entry ∧ entry < limit} (setup.BodyStep entry limit) pc

/-- The ends that visited addresses give: behind the entry, behind each that decodes, and
behind the delay slot where the path ends. -/
def Ends (visited : Set Int) : Set Int :=
  {finish | finish = entry + 4 ∨ ∃ pc ∈ visited, isLegal (setup.word pc) = true ∧
    (finish = pc + 4 ∨ ((classify (setup.word pc) pc).endsPath = true ∧ finish = pc + 8))}

/-- What holds between the visited addresses, the pending ones, and `maxend`. -/
structure Sized (state : Extent) (current : Set Int) : Prop where
  frontier : Frontier {start | start = entry ∧ entry < limit} (setup.BodyStep entry limit)
    {pc | pc ∈ state.seen} (current ∪ {pc | pc ∈ state.stack})
  greatest : IsGreatest (setup.Ends entry {pc | pc ∈ state.seen}) state.maxend

variable {setup entry limit}

theorem bodyStep_iff {pc next : Int} : setup.BodyStep entry limit pc next ↔
    next ∈ setup.sizePushes entry limit pc ∨
      ((classify (setup.word pc) pc).fallsThrough = true ∧ next = pc + 4 ∧
        entry ≤ next ∧ next < limit) := by
  rw [mem_sizePushes]
  unfold BodyStep Flows
  tauto

/-- The ends of one more address. -/
theorem ends_insert (pc : Int) (visited : Set Int) :
    setup.Ends entry (insert pc visited) = setup.Ends entry visited ∪
      {finish | isLegal (setup.word pc) = true ∧ (finish = pc + 4 ∨
        ((classify (setup.word pc) pc).endsPath = true ∧ finish = pc + 8))} := by
  ext finish
  simp only [Ends, Set.mem_ofPred_eq, Set.mem_insert_iff, exists_eq_or_imp, Set.mem_union]
  exact (or_congr_right or_comm).trans or_assoc.symm

theorem maxend_visit (state : Extent) (pc : Int) :
    (setup.visit entry limit state pc).maxend =
      if (classify (setup.word pc) pc).endsPath then max (max state.maxend (pc + 4)) (pc + 8)
      else max state.maxend (pc + 4) := by
  have raised : ∀ (grown : Extent) (finish : Int),
      (grown.raise finish).maxend = max grown.maxend finish := by
    intro grown finish
    show (if finish > grown.maxend then finish else grown.maxend) = _
    omega
  unfold visit
  split
  · rw [raised]
    show max ((state.see pc).raise (pc + 4)).maxend (pc + 8) = _
    rw [raised]
    rfl
  · show ((state.see pc).raise (pc + 4)).maxend = _
    rw [raised]
    rfl

/-- A visit of a valid instruction raises `maxend` by exactly its ends. -/
theorem greatest_visit {state : Extent} {pc : Int}
    (greatest : IsGreatest (setup.Ends entry {pc | pc ∈ state.seen}) state.maxend)
    (valid : classify (setup.word pc) pc ≠ .invalid) :
    IsGreatest (setup.Ends entry (insert pc {pc | pc ∈ state.seen}))
      (setup.visit entry limit state pc).maxend := by
  rw [classify_ne_invalid_iff] at valid
  rw [ends_insert, maxend_visit]
  cases path : (classify (setup.word pc) pc).endsPath with
  | true =>
      have added : {finish | isLegal (setup.word pc) = true ∧ (finish = pc + 4 ∨
          (true = true ∧ finish = pc + 8))} = {pc + 4, pc + 8} := by
        ext finish
        simp [valid]
      rw [added, if_pos rfl, max_assoc]
      exact greatest.union isGreatest_pair
  | false =>
      have added : {finish | isLegal (setup.word pc) = true ∧ (finish = pc + 4 ∨
          (false = true ∧ finish = pc + 8))} = {pc + 4} := by
        ext finish
        simp [valid]
      rw [added, if_neg Bool.false_ne_true]
      exact greatest.union isGreatest_singleton

/-- The address a walk stands at, while it lies inside the limit. -/
def currentOf (entry limit pc : Int) : Set Int := {here | here = pc ∧ entry ≤ pc ∧ pc < limit}

theorem currentOf_inside {pc : Int} (inside : entry ≤ pc ∧ pc < limit) :
    currentOf entry limit pc = {pc} := by
  ext here
  unfold currentOf
  simp only [Set.mem_ofPred_eq, Set.mem_singleton_iff]
  exact and_iff_left inside

theorem currentOf_outside {pc : Int} (outside : ¬ (entry ≤ pc ∧ pc < limit)) :
    currentOf entry limit pc = ∅ := by
  ext here
  unfold currentOf
  simp only [Set.mem_ofPred_eq, Set.mem_empty_iff_false, iff_false]
  exact fun both => outside both.2

theorem mem_cons_set (pc : Int) (list : List Int) :
    {other | other ∈ pc :: list} = insert pc {other | other ∈ list} := by
  ext other
  exact List.mem_cons

/-- One step of the search: the current address is visited and what it leads to becomes
pending. -/
theorem Sized.frontier_visit {state : Extent} {pc : Int} (inside : entry ≤ pc ∧ pc < limit)
    (sized : setup.Sized entry limit state (currentOf entry limit pc)) :
    Frontier {start | start = entry ∧ entry < limit} (setup.BodyStep entry limit)
      {other | other ∈ pc :: state.seen}
      ({next | setup.BodyStep entry limit pc next} ∪ {other | other ∈ state.stack}) := by
  have frontier := sized.frontier
  rw [currentOf_inside inside, Set.singleton_union] at frontier
  rw [Set.union_comm, mem_cons_set]
  exact frontier.visit

/-- What a visit leads to: the pushes, and the next word where the path falls through. -/
theorem sized_visit {state : Extent} {pc : Int} (inside : entry ≤ pc ∧ pc < limit)
    (valid : classify (setup.word pc) pc ≠ .invalid)
    (sized : setup.Sized entry limit state (currentOf entry limit pc)) :
    setup.Sized entry limit (setup.visit entry limit state pc)
      (if (classify (setup.word pc) pc).fallsThrough then currentOf entry limit (pc + 4)
        else ∅) := by
  constructor
  · have frontier := sized.frontier_visit inside
    have leadsTo : {next | setup.BodyStep entry limit pc next} ∪ {other | other ∈ state.stack} =
        (if (classify (setup.word pc) pc).fallsThrough then currentOf entry limit (pc + 4)
          else ∅) ∪ {other | other ∈ setup.sizePushes entry limit pc ++ state.stack} := by
      ext next
      unfold currentOf
      simp only [Set.mem_union, Set.mem_ofPred_eq, bodyStep_iff, List.mem_append]
      cases (classify (setup.word pc) pc).fallsThrough with
      | false =>
          simp only [Bool.false_eq_true, if_false, Set.mem_empty_iff_false, false_and, or_false,
            false_or]
      | true =>
          simp only [if_true, Set.mem_ofPred_eq, true_and]
          constructor
          · intro reached
            rcases reached with (pushed | ⟨same, within⟩) | waits
            · exact Or.inr (Or.inl pushed)
            · exact Or.inl ⟨same, same ▸ within⟩
            · exact Or.inr (Or.inr waits)
          · intro reached
            rcases reached with ⟨same, within⟩ | pushed | waits
            · exact Or.inl (Or.inr ⟨same, same ▸ within⟩)
            · exact Or.inl (Or.inl pushed)
            · exact Or.inr waits
    rw [leadsTo] at frontier
    rw [seen_visit, stack_visit]
    exact frontier
  · rw [seen_visit, mem_cons_set]
    exact greatest_visit sized.greatest valid

theorem sized_invalid {state : Extent} {pc : Int} (inside : entry ≤ pc ∧ pc < limit)
    (invalid : classify (setup.word pc) pc = .invalid)
    (sized : setup.Sized entry limit state (currentOf entry limit pc)) :
    setup.Sized entry limit (state.see pc) ∅ := by
  constructor
  · have frontier := sized.frontier_visit inside
    have deadEnd : {next | setup.BodyStep entry limit pc next} = ∅ := by
      ext next
      simp only [Set.mem_ofPred_eq, Set.mem_empty_iff_false, iff_false]
      exact fun step => step.1.valid invalid
    rw [deadEnd] at frontier
    exact frontier
  · show IsGreatest (setup.Ends entry {other | other ∈ pc :: state.seen}) state.maxend
    have illegal : ¬ isLegal (setup.word pc) = true := by
      rw [← classify_ne_invalid_iff _ pc]
      exact fun valid => valid invalid
    have nothing : {finish | isLegal (setup.word pc) = true ∧ (finish = pc + 4 ∨
        ((classify (setup.word pc) pc).endsPath = true ∧ finish = pc + 8))} = ∅ := by
      ext finish
      simp [illegal]
    rw [mem_cons_set, ends_insert, nothing, Set.union_empty]
    exact sized.greatest

/-- A walk takes its address off the search. -/
theorem sized_sizeWalk {state : Extent} {pc : Int}
    (sized : setup.Sized entry limit state (currentOf entry limit pc)) :
    setup.Sized entry limit (setup.sizeWalk entry limit state pc) ∅ := by
  revert sized
  refine setup.sizeWalk_induction entry limit (motive := fun state pc final =>
    setup.Sized entry limit state (currentOf entry limit pc) →
      setup.Sized entry limit final ∅) ?_ ?_ ?_ ?_ ?_ state pc
  · intro state pc outside sized
    rw [currentOf_outside outside] at sized
    exact sized
  · intro state pc visited sized
    by_cases inside : entry ≤ pc ∧ pc < limit
    · have frontier := sized.frontier
      rw [currentOf_inside inside, Set.singleton_union] at frontier
      have skipped := frontier.skip visited
      rw [← Set.empty_union {other | other ∈ state.stack}] at skipped
      exact ⟨skipped, sized.greatest⟩
    · rw [currentOf_outside inside] at sized
      exact sized
  · intro state pc inside _ invalid sized
    exact sized_invalid inside invalid sized
  · intro state pc inside _ valid stops sized
    have visited := sized_visit inside valid sized
    rw [stops] at visited
    exact visited
  · intro state pc final inside _ valid falls later sized
    have visited := sized_visit inside valid sized
    rw [falls] at visited
    exact later visited

theorem InBody.within {pc : Int} (inBody : setup.InBody entry limit pc) :
    entry ≤ pc ∧ pc < limit := by
  obtain ⟨start, ⟨same, below⟩, path⟩ := inBody
  cases path with
  | refl => exact ⟨Int.le_of_eq same.symm, same ▸ below⟩
  | tail _ step => exact step.2

/-- The loop runs until nothing is pending. -/
theorem sized_sizeLoop {state : Extent} (sized : setup.Sized entry limit state ∅) :
    setup.Sized entry limit (setup.sizeLoop entry limit state) ∅ ∧
      (setup.sizeLoop entry limit state).stack = [] := by
  fun_induction sizeLoop setup entry limit state with
  | case1 state emptied => exact ⟨sized, emptied⟩
  | case2 state pc rest pending inductionHypothesis =>
      apply inductionHypothesis
      apply sized_sizeWalk
      have frontier := sized.frontier
      rw [pending, mem_cons_set, Set.empty_union] at frontier
      have inside := InBody.within (frontier.pendingReached pc (Set.mem_insert pc _))
      refine ⟨?_, sized.greatest⟩
      rw [currentOf_inside inside, Set.singleton_union]
      exact frontier

theorem sized_start (setup : Setup) (entry limit : Int) :
    setup.Sized entry limit ⟨[], [], entry + 4⟩ (currentOf entry limit entry) := by
  constructor
  · have starts : currentOf entry limit entry ∪ {pc : Int | pc ∈ ([] : List Int)} =
        {start | start = entry ∧ entry < limit} := by
      ext start
      unfold currentOf
      simp
    rw [starts]
    have nothing : {pc : Int | pc ∈ ([] : List Int)} = ∅ := by
      ext pc
      simp
    rw [nothing]
    exact Frontier.initial
  · constructor
    · exact Or.inl rfl
    · intro finish member
      rcases member with same | ⟨pc, impossible, _⟩
      · exact Int.le_of_eq same
      · exact absurd impossible List.not_mem_nil

/-- The search ends with the greatest end of the body. -/
theorem greatest_funcSize (setup : Setup) (entry limit : Int) :
    ∃ finish, IsGreatest (setup.Ends entry {pc | setup.InBody entry limit pc}) finish ∧
      setup.funcSize entry limit = min limit finish - entry := by
  have walked := sized_sizeLoop (sized_sizeWalk (sized_start setup entry limit))
  have first : setup.sizeLoop entry limit ⟨[], [entry], entry + 4⟩ =
      setup.sizeLoop entry limit (setup.sizeWalk entry limit ⟨[], [], entry + 4⟩ entry) := by
    rw [sizeLoop]
  obtain ⟨sized, emptied⟩ := walked
  have frontier := sized.frontier
  have nothing : (∅ : Set Int) ∪ {pc : Int | pc ∈ ([] : List Int)} = ∅ := by
    ext pc
    simp
  rw [emptied, nothing] at frontier
  have body : {pc | pc ∈ (setup.sizeLoop entry limit
      (setup.sizeWalk entry limit ⟨[], [], entry + 4⟩ entry)).seen} =
        {pc | setup.InBody entry limit pc} := by
    ext pc
    exact frontier.mem_iff pc
  have greatest := sized.greatest
  rw [body] at greatest
  refine ⟨_, greatest, ?_⟩
  unfold funcSize
  rw [first]
  show min (_ - entry) (limit - entry) = _
  omega

/-! ## Delay slots -/

/-- A reached path that falls through inside the limit goes on. -/
theorem InBody.next {pc : Int} (inBody : setup.InBody entry limit pc)
    (falls : (classify (setup.word pc) pc).fallsThrough = true) (below : pc + 4 < limit) :
    setup.InBody entry limit (pc + 4) := by
  have within := inBody.within
  obtain ⟨start, isStart, path⟩ := inBody
  exact ⟨start, isStart, path.tail ⟨Or.inl ⟨falls, rfl⟩, by omega, below⟩⟩

/-- The delay slot of a reached transfer lies before the end, where it decodes and the limit
lets it. -/
theorem delaySlot_inside {pc finish : Int} (inBody : setup.InBody entry limit pc)
    (transfer : (classify (setup.word pc) pc).isTransfer = true)
    (legal : isLegal (setup.word (pc + 4)) = true)
    (greatest : IsGreatest (setup.Ends entry {pc | setup.InBody entry limit pc}) finish) :
    min limit (pc + 8) ≤ min limit finish := by
  have valid : isLegal (setup.word pc) = true := by
    rw [← classify_ne_invalid_iff _ pc]
    intro invalid
    rw [invalid] at transfer
    cases transfer
  have behind : pc + 4 ≤ finish := greatest.2 (Or.inr ⟨pc, inBody, valid, Or.inl rfl⟩)
  cases path : (classify (setup.word pc) pc).endsPath with
  | true =>
      have slot : pc + 8 ≤ finish :=
        greatest.2 (Or.inr ⟨pc, inBody, valid, Or.inr ⟨path, rfl⟩⟩)
      omega
  | false =>
      have falls := Kind.fallsThrough_of_isTransfer transfer path
      by_cases below : pc + 4 < limit
      · have slot : pc + 4 + 4 ≤ finish :=
          greatest.2 (Or.inr ⟨pc + 4, inBody.next falls below, legal, Or.inl rfl⟩)
        omega
      · omega

/-- The size of a function reaches exactly to the furthest end of its body, cut off at the
limit, so it holds every delay slot that decodes unless the limit cuts it off. -/
theorem funcSize_covers_body (setup : Setup) (entry limit : Int) :
    ∃ finish, IsGreatest (setup.Ends entry {pc | setup.InBody entry limit pc}) finish ∧
      setup.funcSize entry limit = min limit finish - entry ∧
      ∀ pc, setup.InBody entry limit pc → (classify (setup.word pc) pc).isTransfer = true →
        isLegal (setup.word (pc + 4)) = true →
          min limit (pc + 8) ≤ entry + setup.funcSize entry limit := by
  obtain ⟨finish, greatest, size⟩ := greatest_funcSize setup entry limit
  refine ⟨finish, greatest, size, ?_⟩
  intro pc inBody transfer legal
  have inside := delaySlot_inside inBody transfer legal greatest
  omega

end Setup

end StadiumRecomp.Mips
