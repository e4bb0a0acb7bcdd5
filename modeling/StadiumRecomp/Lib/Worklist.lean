import Mathlib.Data.Finset.Card
import Mathlib.Data.Finset.Filter

/-!
Contract: exploration of a graph with a list of pending nodes, where each
visited node also reports items.

Owns: pushing and reporting, the relation that pops pending nodes in any order,
its invariant, the exactness of an emptied worklist and the bound on the number
of pops.

Does not own: any particular graph, or the order in which a program pops.
-/

set_option autoImplicit false

namespace StadiumRecomp.Lib

/-- Nodes ever pushed, nodes still to visit, and items reported so far. -/
structure Worklist (α β : Type) where
  seen : List α
  pending : List α
  found : List β

/-- What one node contributes when it is visited. -/
structure Explorer (α β : Type) where
  successors : α → List α
  items : α → List β

namespace Worklist

variable {α β : Type} [DecidableEq α] [DecidableEq β]

/-- Push a node that was never pushed before. -/
def push (work : Worklist α β) (node : α) : Worklist α β :=
  if node ∈ work.seen then work
  else { work with seen := node :: work.seen, pending := node :: work.pending }

def report (work : Worklist α β) (item : β) : Worklist α β :=
  { work with found := work.found.insert item }

/-- Push all `nodes` and report all `items`. -/
def record (work : Worklist α β) (nodes : List α) (items : List β) :
    Worklist α β :=
  items.foldl report (nodes.foldl push work)

/-- `Pops explorer count start final`: `count` pops, each of any pending node,
lead from `start` to `final`. -/
inductive Pops (explorer : Explorer α β) :
    Nat → Worklist α β → Worklist α β → Prop
  | none (work : Worklist α β) : Pops explorer 0 work work
  | pop {count : Nat} {start final : Worklist α β} {before after : List α} {node : α}
      (pending : start.pending = before ++ node :: after)
      (rest : Pops explorer count
        (record { start with pending := before ++ after }
          (explorer.successors node) (explorer.items node)) final) :
      Pops explorer (count + 1) start final

/-- Nodes connected to a seed. -/
inductive Reachable (explorer : Explorer α β) (seeds : List α) : α → Prop
  | seed {node : α} (member : node ∈ seeds) : Reachable explorer seeds node
  | step {node next : α} (reached : Reachable explorer seeds node)
      (member : next ∈ explorer.successors node) : Reachable explorer seeds next

omit [DecidableEq α] [DecidableEq β] in
/-- More seeds reach no less. -/
theorem Reachable.mono {explorer : Explorer α β} {seeds more : List α} {node : α}
    (reached : Reachable explorer seeds node) (subset : seeds ⊆ more) :
    Reachable explorer more node := by
  induction reached with
  | seed member => exact Reachable.seed (subset member)
  | step _ successor inductionHypothesis =>
      exact Reachable.step inductionHypothesis successor

/-! ## One record -/

theorem report_push (work : Worklist α β) (node : α) (item : β) :
    report (push work node) item = push (report work item) node := by
  unfold push report
  split <;> rfl

omit [DecidableEq β] in
theorem mem_seen_push (work : Worklist α β) (node other : α) :
    other ∈ (push work node).seen ↔ other = node ∨ other ∈ work.seen := by
  unfold push
  split
  next known =>
    constructor
    · exact Or.inr
    · rintro (rfl | member)
      · exact known
      · exact member
  next => exact List.mem_cons

omit [DecidableEq β] in
theorem foldl_push_found (nodes : List α) (work : Worklist α β) :
    (nodes.foldl push work).found = work.found := by
  induction nodes generalizing work with
  | nil => rfl
  | cons node rest inductionHypothesis =>
      rw [List.foldl_cons, inductionHypothesis]
      unfold push
      split <;> rfl

omit [DecidableEq α] in
theorem foldl_report_seen (items : List β) (work : Worklist α β) :
    (items.foldl report work).seen = work.seen := by
  induction items generalizing work with
  | nil => rfl
  | cons item rest inductionHypothesis => exact inductionHypothesis (report work item)

omit [DecidableEq α] in
theorem foldl_report_pending (items : List β) (work : Worklist α β) :
    (items.foldl report work).pending = work.pending := by
  induction items generalizing work with
  | nil => rfl
  | cons item rest inductionHypothesis => exact inductionHypothesis (report work item)

theorem foldl_report_push (items : List β) (work : Worklist α β) (node : α) :
    items.foldl report (push work node) = push (items.foldl report work) node := by
  induction items generalizing work with
  | nil => rfl
  | cons item rest inductionHypothesis =>
      rw [List.foldl_cons, report_push, inductionHypothesis]
      rfl

theorem foldl_push_foldl_report (nodes : List α) (items : List β)
    (work : Worklist α β) :
    nodes.foldl push (items.foldl report work) =
      items.foldl report (nodes.foldl push work) := by
  induction nodes generalizing work with
  | nil => rfl
  | cons node rest inductionHypothesis =>
      rw [List.foldl_cons, ← foldl_report_push, inductionHypothesis]
      rfl

/-- Records compose. -/
theorem record_append (work : Worklist α β) (nodes laterNodes : List α)
    (items laterItems : List β) :
    record (record work nodes items) laterNodes laterItems =
      record work (nodes ++ laterNodes) (items ++ laterItems) := by
  unfold record
  rw [foldl_push_foldl_report, List.foldl_append, List.foldl_append]

@[simp] theorem record_nil (work : Worklist α β) : record work [] [] = work := rfl

theorem mem_seen_record (work : Worklist α β) (nodes : List α) (items : List β)
    (node : α) :
    node ∈ (record work nodes items).seen ↔ node ∈ nodes ∨ node ∈ work.seen := by
  unfold record
  rw [foldl_report_seen]
  induction nodes generalizing work with
  | nil => simp
  | cons head rest inductionHypothesis =>
      rw [List.foldl_cons, inductionHypothesis, mem_seen_push, List.mem_cons]
      tauto

theorem mem_found_record (work : Worklist α β) (nodes : List α) (items : List β)
    (item : β) :
    item ∈ (record work nodes items).found ↔ item ∈ items ∨ item ∈ work.found := by
  unfold record
  rw [← foldl_push_foldl_report, foldl_push_found]
  induction items generalizing work with
  | nil => simp
  | cons head rest inductionHypothesis =>
      rw [List.foldl_cons, inductionHypothesis]
      simp only [report, List.mem_insert_iff, List.mem_cons]
      tauto

omit [DecidableEq β] in
theorem pending_subset_push (work : Worklist α β) (node : α) :
    work.pending ⊆ (push work node).pending := by
  unfold push
  split
  · exact List.Subset.refl _
  · exact List.subset_cons_self _ _

theorem pending_subset_record (work : Worklist α β) (nodes : List α)
    (items : List β) : work.pending ⊆ (record work nodes items).pending := by
  unfold record
  rw [foldl_report_pending]
  induction nodes generalizing work with
  | nil => exact List.Subset.refl _
  | cons node rest inductionHypothesis =>
      exact List.Subset.trans (pending_subset_push work node)
        (inductionHypothesis (push work node))

theorem of_mem_pending_record {work : Worklist α β} {nodes : List α}
    {items : List β} {node : α}
    (member : node ∈ (record work nodes items).pending) :
    node ∈ nodes ∨ node ∈ work.pending := by
  unfold record at member
  rw [foldl_report_pending] at member
  induction nodes generalizing work with
  | nil => exact Or.inr member
  | cons head rest inductionHypothesis =>
      rcases inductionHypothesis member with inside | pending
      · exact Or.inl (List.mem_cons_of_mem _ inside)
      · unfold push at pending
        split at pending
        · exact Or.inr pending
        · rw [List.mem_cons] at pending ⊢
          tauto

/-- A node the record pushes for the first time is pending afterwards. -/
theorem mem_pending_record {work : Worklist α β} {nodes : List α} {items : List β}
    {node : α} (member : node ∈ (record work nodes items).seen) :
    node ∈ work.seen ∨ node ∈ (record work nodes items).pending := by
  induction nodes generalizing work with
  | nil =>
      rw [mem_seen_record] at member
      exact Or.inl (by simpa using member)
  | cons head rest inductionHypothesis =>
      change node ∈ (record (push work head) rest items).seen at member
      change _ ∨ node ∈ (record (push work head) rest items).pending
      rcases inductionHypothesis member with old | pending
      · rw [mem_seen_push] at old
        rcases old with rfl | old
        · by_cases known : node ∈ work.seen
          · exact Or.inl known
          · right
            apply pending_subset_record
            simp [push, known]
        · exact Or.inl old
      · exact Or.inr pending

/-! ## The invariant of any run -/

variable {explorer : Explorer α β} {seeds : List α} {initial : List β}

/-- What holds between two pops. -/
structure Explored (explorer : Explorer α β) (seeds : List α) (initial : List β)
    (work : Worklist α β) : Prop where
  seeded : ∀ node ∈ seeds, node ∈ work.seen
  sound : ∀ node ∈ work.seen, Reachable explorer seeds node
  pendingSeen : ∀ node ∈ work.pending, node ∈ work.seen
  visited : ∀ node ∈ work.seen, node ∈ work.pending ∨
    ((∀ next ∈ explorer.successors node, next ∈ work.seen) ∧
      ∀ item ∈ explorer.items node, item ∈ work.found)
  reported : ∀ item ∈ initial, item ∈ work.found
  foundSound : ∀ item ∈ work.found, item ∈ initial ∨
    ∃ node, Reachable explorer seeds node ∧ item ∈ explorer.items node

/-- The empty worklist. -/
def empty : Worklist α β := ⟨[], [], []⟩

theorem explored_start : Explored explorer seeds initial
    (record empty seeds initial) where
  seeded := by
    intro node member
    rw [mem_seen_record]
    exact Or.inl member
  sound := by
    intro node member
    rw [mem_seen_record] at member
    rcases member with member | impossible
    · exact Reachable.seed member
    · simp [empty] at impossible
  pendingSeen := by
    intro node member
    rw [mem_seen_record]
    exact (of_mem_pending_record member).imp_right (fun pending => by simp [empty] at pending)
  visited := by
    intro node member
    rcases mem_pending_record member with impossible | pending
    · simp [empty] at impossible
    · exact Or.inl pending
  reported := by
    intro item member
    rw [mem_found_record]
    exact Or.inl member
  foundSound := by
    intro item member
    rw [mem_found_record] at member
    rcases member with member | impossible
    · exact Or.inl member
    · simp [empty] at impossible

/-- One pop. The popped node leaves `pending` and has everything it contributes
recorded; every other node keeps its reason. -/
theorem Explored.pop {work : Worklist α β} {before after : List α} {node : α}
    (explored : Explored explorer seeds initial work)
    (pending : work.pending = before ++ node :: after) :
    Explored explorer seeds initial
      (record { work with pending := before ++ after }
        (explorer.successors node) (explorer.items node)) where
  seeded := by
    intro seed member
    rw [mem_seen_record]
    exact Or.inr (explored.seeded seed member)
  sound := by
    have reached := explored.sound node
      (explored.pendingSeen node (by rw [pending]; simp))
    intro next member
    rw [mem_seen_record] at member
    rcases member with successor | old
    · exact Reachable.step reached successor
    · exact explored.sound next old
  pendingSeen := by
    intro other member
    rw [mem_seen_record]
    rcases of_mem_pending_record member with inside | old
    · exact Or.inl inside
    · right
      apply explored.pendingSeen
      rw [pending]
      simp only [List.mem_append, List.mem_cons] at old ⊢
      tauto
  visited := by
    intro other member
    rcases mem_pending_record member with old | stillPending
    · by_cases popped : other = node
      · subst popped
        right
        constructor
        · intro next successor
          rw [mem_seen_record]
          exact Or.inl successor
        · intro item inside
          rw [mem_found_record]
          exact Or.inl inside
      · rcases explored.visited other old with waiting | ⟨successors, items⟩
        · left
          apply pending_subset_record
          rw [pending] at waiting
          simp only [List.mem_append, List.mem_cons] at waiting ⊢
          tauto
        · right
          constructor
          · intro next successor
            rw [mem_seen_record]
            exact Or.inr (successors next successor)
          · intro item inside
            rw [mem_found_record]
            exact Or.inr (items item inside)
    · exact Or.inl stillPending
  reported := by
    intro item member
    rw [mem_found_record]
    exact Or.inr (explored.reported item member)
  foundSound := by
    have reached := explored.sound node
      (explored.pendingSeen node (by rw [pending]; simp))
    intro item member
    rw [mem_found_record] at member
    rcases member with inside | old
    · exact Or.inr ⟨node, reached, inside⟩
    · exact explored.foundSound item old

theorem Explored.pops {count : Nat} {start final : Worklist α β}
    (run : Pops explorer count start final)
    (explored : Explored explorer seeds initial start) :
    Explored explorer seeds initial final := by
  induction run with
  | none => exact explored
  | pop pending _ inductionHypothesis =>
      exact inductionHypothesis (explored.pop pending)

/-- New seeds and items, given at any time, keep the invariant. -/
theorem Explored.extend {work : Worklist α β}
    (explored : Explored explorer seeds initial work) (nodes : List α) (items : List β) :
    Explored explorer (seeds ++ nodes) (initial ++ items) (record work nodes items) where
  seeded := by
    intro node member
    rw [mem_seen_record]
    rcases List.mem_append.mp member with old | new
    · exact Or.inr (explored.seeded node old)
    · exact Or.inl new
  sound := by
    intro node member
    rw [mem_seen_record] at member
    rcases member with new | old
    · exact Reachable.seed (List.mem_append_right seeds new)
    · apply (explored.sound node old).mono
      intro seed inside
      exact List.mem_append_left nodes inside
  pendingSeen := by
    intro node member
    rw [mem_seen_record]
    exact (of_mem_pending_record member).imp_right (explored.pendingSeen node)
  visited := by
    intro node member
    rcases mem_pending_record member with old | pending
    · rcases explored.visited node old with waiting | ⟨successors, reported⟩
      · exact Or.inl (pending_subset_record work nodes items waiting)
      · right
        constructor
        · intro next successor
          rw [mem_seen_record]
          exact Or.inr (successors next successor)
        · intro item inside
          rw [mem_found_record]
          exact Or.inr (reported item inside)
    · exact Or.inl pending
  reported := by
    intro item member
    rw [mem_found_record]
    rcases List.mem_append.mp member with old | new
    · exact Or.inr (explored.reported item old)
    · exact Or.inl new
  foundSound := by
    intro item member
    rw [mem_found_record] at member
    rcases member with new | old
    · exact Or.inl (List.mem_append_right initial new)
    · rcases explored.foundSound item old with given | ⟨node, reached, inside⟩
      · exact Or.inl (List.mem_append_left items given)
      · right
        refine ⟨node, reached.mono ?_, inside⟩
        intro seed member
        exact List.mem_append_left nodes member

omit [DecidableEq α] [DecidableEq β] in
/-- An emptied worklist has seen exactly the reachable nodes. -/
theorem Explored.mem_seen_iff {work : Worklist α β}
    (explored : Explored explorer seeds initial work) (emptied : work.pending = [])
    (node : α) : node ∈ work.seen ↔ Reachable explorer seeds node := by
  constructor
  · exact explored.sound node
  · intro reached
    induction reached with
    | seed member => exact explored.seeded _ member
    | step _ successor inductionHypothesis =>
        rcases explored.visited _ inductionHypothesis with waiting | ⟨successors, _⟩
        · simp [emptied] at waiting
        · exact successors _ successor

omit [DecidableEq α] [DecidableEq β] in
/-- An emptied worklist has reported exactly the initial items and those of the
reachable nodes. -/
theorem Explored.mem_found_iff {work : Worklist α β}
    (explored : Explored explorer seeds initial work) (emptied : work.pending = [])
    (item : β) : item ∈ work.found ↔ item ∈ initial ∨
      ∃ node, Reachable explorer seeds node ∧ item ∈ explorer.items node := by
  constructor
  · exact explored.foundSound item
  · rintro (member | ⟨node, reached, inside⟩)
    · exact explored.reported item member
    · rw [← explored.mem_seen_iff emptied] at reached
      rcases explored.visited node reached with waiting | ⟨_, items⟩
      · simp [emptied] at waiting
      · exact items item inside

/-! ## Every run is finite -/

/-- Nodes of `all` not yet pushed, plus the nodes still to visit. -/
def remaining (all : Finset α) (work : Worklist α β) : Nat :=
  (all.filter (· ∉ work.seen)).card + work.pending.length

omit [DecidableEq β] in
theorem remaining_push {all : Finset α} (work : Worklist α β) {node : α}
    (inside : node ∈ all) : remaining all (push work node) = remaining all work := by
  unfold remaining push
  split
  next => rfl
  next fresh =>
    have erased : all.filter (· ∉ node :: work.seen) =
        (all.filter (· ∉ work.seen)).erase node := by
      ext other
      simp only [Finset.mem_filter, Finset.mem_erase, List.mem_cons]
      tauto
    have member : node ∈ all.filter (· ∉ work.seen) :=
      Finset.mem_filter.mpr ⟨inside, fresh⟩
    have positive := Finset.card_pos.mpr ⟨node, member⟩
    simp only [erased, Finset.card_erase_of_mem member, List.length_cons]
    omega

theorem remaining_record {all : Finset α} {nodes : List α}
    (inside : ∀ node ∈ nodes, node ∈ all) (work : Worklist α β) (items : List β) :
    remaining all (record work nodes items) = remaining all work := by
  have pushed : remaining all (record work nodes items) =
      remaining all (nodes.foldl push work) := by
    unfold remaining record
    rw [foldl_report_seen, foldl_report_pending]
  rw [pushed]
  clear pushed
  induction nodes generalizing work with
  | nil => rfl
  | cons node rest inductionHypothesis =>
      rw [List.foldl_cons,
        inductionHypothesis (fun other member => inside other (List.mem_cons_of_mem _ member)),
        remaining_push work (inside node List.mem_cons_self)]

/-- Every pop uses up one of the remaining nodes. -/
theorem Pops.count_add_remaining {all : Finset α}
    (inside : ∀ node, ∀ next ∈ explorer.successors node, next ∈ all)
    {count : Nat} {start final : Worklist α β} (run : Pops explorer count start final) :
    count + remaining all final = remaining all start := by
  induction run with
  | none => simp
  | @pop count start final before after node pending _ inductionHypothesis =>
      rw [remaining_record (inside node)] at inductionHypothesis
      have removed : remaining all start =
          remaining all { start with pending := before ++ after } + 1 := by
        unfold remaining
        simp only [pending, List.length_append, List.length_cons]
        omega
      omega

end Worklist

end StadiumRecomp.Lib
