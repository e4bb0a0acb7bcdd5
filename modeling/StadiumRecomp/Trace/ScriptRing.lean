import StadiumRecomp.Hook.World

/-!
Contract: the ring of script dispatches and the report of a bad one.

Owns: what `pms_diag_script_dispatch` records, its claim of a number, its store, and the lines it
reads back, with any other threads between them; and that every line stands under the number of
its dispatch.

Does not own: the words of the script table that the report adds. A slot is stored or read in
one step.
-/

set_option autoImplicit false

namespace StadiumRecomp.Trace

open StadiumRecomp.Lib
open StadiumRecomp.Guest
open StadiumRecomp.Hook

def kScriptDiagCap : Nat := 128

/-- `ScriptDispatchEvent`. -/
structure ScriptDispatchEvent where
  seq : Nat
  stream : UInt32
  opcode : UInt32
  tableAddr : UInt32
  handler : UInt32
  ra : UInt32
  s1Global : UInt32
  s2Arg0 : UInt32
  a0 : UInt32
  a1 : UInt32
  v0 : UInt32
  bytes : Bytes
deriving DecidableEq, Repr

namespace ScriptDispatchEvent

/-- A slot of the zeroed ring. -/
def blank : ScriptDispatchEvent := ⟨0, 0, 0, 0, 0, 0, 0, 0, 0, 0, 0, List.replicate 16 0⟩

/-- What a dispatch records under its number. -/
def ofContext (rdram : Rdram) (ctx : Context) (seq : Nat) : ScriptDispatchEvent where
  seq := seq
  stream := ctx.reg 16
  opcode := ctx.reg 14 &&& 0xFF
  tableAddr := ctx.reg 24
  handler := ctx.reg 25
  ra := ctx.reg 31
  s1Global := ctx.reg 17
  s2Arg0 := ctx.reg 18
  a0 := ctx.reg 4
  a1 := ctx.reg 5
  v0 := ctx.reg 2
  bytes := copyBytes rdram (ctx.reg 16) 16

/-- A handler in the game's text. -/
def sound (event : ScriptDispatchEvent) : Bool :=
  event.handler ≥ 0x80000400 && event.handler < 0x80080000

end ScriptDispatchEvent

/-! ## Steps -/

/-- Where a thread stands in its dispatch. -/
inductive Phase where
  | idle
  | claimed (event : ScriptDispatchEvent)
  | reporting (seq next : Nat)
deriving DecidableEq, Repr

/-- `g_script_diag_widx`, `g_script_diag_ring`, the threads, the dispatches by their numbers and
the lines of the reports, each under the number it is printed with. -/
structure Dispatches where
  widx : Nat
  ring : Nat → ScriptDispatchEvent
  threads : Nat → Phase
  dispatched : List ScriptDispatchEvent
  lines : List (Nat × ScriptDispatchEvent)

def Dispatches.initial : Dispatches := ⟨0, fun _ => .blank, fun _ => .idle, [], []⟩

/-- What a thread does next. -/
inductive Action where
  | claim (thread : Nat) (rdram : Rdram) (ctx : Context)
  | store (thread : Nat)
  | line (thread : Nat)

/-- The first number a report reads. -/
def firstLine (seq : Nat) : Nat := if seq + 1 > 32 then seq + 1 - 32 else 0

/-- One step of a thread, if it stands there. -/
def perform (host : Dispatches) : Action → Option Dispatches
  | .claim thread rdram ctx =>
      match host.threads thread with
      | .idle =>
          let event := ScriptDispatchEvent.ofContext rdram ctx host.widx
          some { host with
            widx := host.widx + 1
            threads := Function.update host.threads thread (.claimed event)
            dispatched := host.dispatched ++ [event] }
      | _ => none
  | .store thread =>
      match host.threads thread with
      | .claimed event =>
          some { host with
            ring := Function.update host.ring (event.seq % kScriptDiagCap) event
            threads := Function.update host.threads thread
              (if event.sound then .idle else .reporting event.seq (firstLine event.seq)) }
      | _ => none
  | .line thread =>
      match host.threads thread with
      | .reporting seq next =>
          let cur := host.ring (next % kScriptDiagCap)
          some { host with
            threads := Function.update host.threads thread
              (if next = seq then .idle else .reporting seq (next + 1))
            lines := if cur.seq = next then host.lines ++ [(next, cur)] else host.lines }
      | _ => none

/-! ## Every line under its number -/

/-- What every step keeps: numbers are positions, slots hold dispatches of their numbers or
nothing yet, and so do the lines. -/
structure Numbered (host : Dispatches) : Prop where
  count : host.dispatched.length = host.widx
  numbers : ∀ (i : Nat) (event : ScriptDispatchEvent),
    host.dispatched[i]? = some event → event.seq = i
  slots : ∀ slot, host.ring slot = .blank ∨ host.ring slot ∈ host.dispatched
  claimed : ∀ thread event, host.threads thread = .claimed event → event ∈ host.dispatched
  lines : ∀ line ∈ host.lines,
    host.dispatched[line.1]? = some line.2 ∨ line = (0, .blank)

theorem numbered_initial : Numbered .initial where
  count := rfl
  numbers _ _ none := by simp [Dispatches.initial] at none
  slots _ := Or.inl rfl
  claimed _ _ other := by cases other
  lines _ none := absurd none List.not_mem_nil

/-- A dispatch stands at its number. -/
theorem Numbered.getElem {host : Dispatches} (numbered : Numbered host)
    {event : ScriptDispatchEvent} (member : event ∈ host.dispatched) :
    host.dispatched[event.seq]? = some event := by
  obtain ⟨i, known⟩ := List.mem_iff_getElem?.mp member
  rwa [numbered.numbers i event known]

theorem numbered_claim {host : Dispatches} (numbered : Numbered host) (thread : Nat)
    (rdram : Rdram) (ctx : Context) :
    Numbered { host with
      widx := host.widx + 1
      threads := Function.update host.threads thread (.claimed (.ofContext rdram ctx host.widx))
      dispatched := host.dispatched ++ [.ofContext rdram ctx host.widx] } where
  count := by
    rw [List.length_append, numbered.count]
    rfl
  numbers i event known := by
    by_cases older : i < host.dispatched.length
    · rw [List.getElem?_append_left older] at known
      exact numbered.numbers i event known
    · rw [List.getElem?_append_right (Nat.le_of_not_lt older), List.getElem?_singleton] at known
      split at known
      next last =>
        obtain rfl := Option.some.inj known
        show host.widx = i
        have count := numbered.count
        omega
      next => cases known
  slots slot := (numbered.slots slot).imp_right (List.mem_append_left _)
  claimed other event phase := by
    change Function.update host.threads thread _ other = _ at phase
    by_cases same : other = thread
    · subst same
      rw [Function.update_self] at phase
      obtain rfl := Phase.claimed.inj phase
      exact List.mem_append_right _ (List.mem_singleton.mpr rfl)
    · rw [Function.update_of_ne same] at phase
      exact List.mem_append_left _ (numbered.claimed other event phase)
  lines line member := (numbered.lines line member).imp_left fun known =>
    (List.getElem?_append_left (List.getElem?_eq_some_iff.mp known).1).trans known

/-- A phase after a step of another, if it is a claim, is an old one. -/
theorem claimed_of_update {threads : Nat → Phase} {thread other : Nat} {phase : Phase}
    {event : ScriptDispatchEvent} (notClaim : ∀ event, phase ≠ .claimed event)
    (claim : Function.update threads thread phase other = .claimed event) :
    threads other = .claimed event := by
  by_cases same : other = thread
  · subst same
    rw [Function.update_self] at claim
    exact absurd claim (notClaim event)
  · rwa [Function.update_of_ne same] at claim

/-- Every step keeps the numbers. -/
theorem numbered_perform {host after : Dispatches} {action : Action} (numbered : Numbered host)
    (step : perform host action = some after) : Numbered after := by
  cases action with
  | claim thread rdram ctx =>
      simp only [perform] at step
      split at step
      next =>
        obtain rfl := Option.some.inj step
        exact numbered_claim numbered thread rdram ctx
      next => cases step
  | store thread =>
      simp only [perform] at step
      split at step
      next event phase =>
        obtain rfl := Option.some.inj step
        refine { numbered with slots := fun slot => ?_, claimed := fun other event' claim => ?_ }
        · show Function.update host.ring _ event slot = _ ∨ Function.update host.ring _ event slot ∈ _
          by_cases same : slot = event.seq % kScriptDiagCap
          · subst same
            rw [Function.update_self]
            exact Or.inr (numbered.claimed thread event phase)
          · rw [Function.update_of_ne same]
            exact numbered.slots slot
        · refine numbered.claimed other event' (claimed_of_update (fun _ => ?_) claim)
          split <;> exact Phase.noConfusion
      next => cases step
  | line thread =>
      simp only [perform] at step
      split at step
      next seq next phase =>
        obtain rfl := Option.some.inj step
        refine { numbered with claimed := fun other event claim => ?_, lines := fun line member => ?_ }
        · refine numbered.claimed other event (claimed_of_update (fun _ => ?_) claim)
          split <;> exact Phase.noConfusion
        · change line ∈ (if (host.ring (next % kScriptDiagCap)).seq = next
            then host.lines ++ [(next, host.ring (next % kScriptDiagCap))] else host.lines) at member
          split at member
          next same =>
            rcases List.mem_append.mp member with old | new
            · exact numbered.lines line old
            · obtain rfl := List.mem_singleton.mp new
              rcases numbered.slots (next % kScriptDiagCap) with blank | stored
              · refine Or.inr (Prod.ext ?_ blank)
                rw [blank] at same
                exact same.symm
              · have known := numbered.getElem stored
                rw [same] at known
                exact Or.inl known
          next => exact numbered.lines line member
      next => cases step

/-- What a run of steps keeps. -/
theorem numbered_foldlM {actions : List Action} {host after : Dispatches}
    (numbered : Numbered host) (run : actions.foldlM perform host = some after) :
    Numbered after := by
  induction actions generalizing host with
  | nil => exact Option.some.inj run ▸ numbered
  | cons action actions inductionHypothesis =>
      obtain ⟨middle, step, rest⟩ := Option.bind_eq_some_iff.mp run
      exact inductionHypothesis (numbered_perform numbered step) rest

/-- **The lines of every report are genuine**, in whatever order the threads claim numbers, store
their dispatches and read: a line holds the dispatch of its number, or is line 0 while that slot
is still zeroed. -/
theorem lines_genuine {actions : List Action} {after : Dispatches}
    (run : actions.foldlM perform .initial = some after) :
    ∀ line ∈ after.lines, after.dispatched[line.1]? = some line.2 ∨ line = (0, .blank) :=
  (numbered_foldlM numbered_initial run).lines

/-- Two dispatches, the second stored and reported before the first is. -/
def overlappingActions : List Action :=
  [.claim 0 (fun _ => 0) (.ofRegisters []), .claim 1 (fun _ => 0) (.ofRegisters []), .store 1,
    .line 1, .line 1, .store 0]

theorem lines_genuine_overlapping :
    ∃ after, overlappingActions.foldlM perform .initial = some after ∧
      (0, .blank) ∈ after.lines ∧
        ∀ line ∈ after.lines, after.dispatched[line.1]? = some line.2 ∨ line = (0, .blank) :=
  ⟨_, rfl, by decide, lines_genuine (show overlappingActions.foldlM perform .initial = some _ from rfl)⟩

/-! ## A dispatch that nothing interrupts -/

/-- The steps of a dispatch and its report, if it makes one, on end. -/
def aloneActions (thread : Nat) (rdram : Rdram) (ctx : Context) (seq : Nat) : List Action :=
  .claim thread rdram ctx :: .store thread ::
    if (ScriptDispatchEvent.ofContext rdram ctx seq).sound then []
    else List.replicate (seq + 1 - firstLine seq) (.line thread)

/-- No thread is inside a dispatch, and of the last 128 dispatches each is in its slot. -/
structure Quiet (host : Dispatches) : Prop where
  count : host.dispatched.length = host.widx
  idle : ∀ thread, host.threads thread = .idle
  stored : ∀ (i : Nat) (event : ScriptDispatchEvent), host.dispatched[i]? = some event →
    host.widx ≤ i + kScriptDiagCap → host.ring (i % kScriptDiagCap) = event ∧ event.seq = i

theorem perform_claim {host : Dispatches} {thread : Nat} (phase : host.threads thread = .idle)
    (rdram : Rdram) (ctx : Context) :
    perform host (.claim thread rdram ctx) = some { host with
      widx := host.widx + 1
      threads := Function.update host.threads thread (.claimed (.ofContext rdram ctx host.widx))
      dispatched := host.dispatched ++ [.ofContext rdram ctx host.widx] } := by
  simp only [perform, phase]

theorem perform_store {host : Dispatches} {thread : Nat} {event : ScriptDispatchEvent}
    (phase : host.threads thread = .claimed event) :
    perform host (.store thread) = some { host with
      ring := Function.update host.ring (event.seq % kScriptDiagCap) event
      threads := Function.update host.threads thread
        (if event.sound then .idle else .reporting event.seq (firstLine event.seq)) } := by
  simp only [perform, phase]

/-- The next line of a report, from a slot that holds its dispatch. -/
theorem perform_line {host : Dispatches} {thread seq next : Nat}
    (phase : host.threads thread = .reporting seq next)
    (stored : (host.ring (next % kScriptDiagCap)).seq = next) :
    perform host (.line thread) = some { host with
      threads := Function.update host.threads thread
        (if next = seq then .idle else .reporting seq (next + 1))
      lines := host.lines ++ [(next, host.ring (next % kScriptDiagCap))] } := by
  simp only [perform, phase, stored, if_true]

/-- A report that nothing interrupts. -/
theorem foldlM_line {left : Nat} (host : Dispatches) {thread seq next : Nat}
    (remaining : next + left = seq) (phase : host.threads thread = .reporting seq next)
    (stored : ∀ i, next ≤ i → i ≤ seq → (host.ring (i % kScriptDiagCap)).seq = i) :
    (List.replicate (left + 1) (Action.line thread)).foldlM perform host = some { host with
      threads := Function.update host.threads thread .idle
      lines := host.lines ++ (List.range (left + 1)).map fun k =>
        (next + k, host.ring ((next + k) % kScriptDiagCap)) } := by
  have first := perform_line phase (stored next (Nat.le_refl next) (by omega))
  induction left generalizing host next with
  | zero =>
      obtain rfl : next = seq := remaining
      show (perform host (.line thread)).bind _ = _
      rw [first, if_pos rfl]
      rfl
  | succ left inductionHypothesis =>
      rw [List.replicate_succ, List.foldlM_cons, first, if_neg (by omega)]
      let host' : Dispatches := { host with
        threads := Function.update host.threads thread (.reporting seq (next + 1))
        lines := host.lines ++ [(next, host.ring (next % kScriptDiagCap))] }
      have phase' : host'.threads thread = .reporting seq (next + 1) := Function.update_self ..
      have onward : ∀ i, next + 1 ≤ i → i ≤ seq → (host'.ring (i % kScriptDiagCap)).seq = i :=
        fun i low high => stored i (by omega) high
      have rest := inductionHypothesis host' (by omega) phase' onward
        (perform_line phase' (onward _ (Nat.le_refl _) (by omega)))
      show (List.replicate (left + 1) (Action.line thread)).foldlM perform host' = _
      rw [rest, List.range_succ_eq_map (n := left + 1), List.map_cons, List.map_map]
      simp only [host', Function.update_idem, List.append_assoc, Function.comp_def, Nat.add_zero,
        List.singleton_append, Nat.succ_eq_add_one, Nat.add_right_comm next 1,
        Nat.add_assoc next _ 1]

/-- What a dispatch stores is in its slot, and the others of the last 128 are in theirs. -/
theorem Quiet.stores {host : Dispatches} (quiet : Quiet host) {event : ScriptDispatchEvent}
    (numbered : event.seq = host.widx) {i : Nat} {other : ScriptDispatchEvent}
    (known : (host.dispatched ++ [event])[i]? = some other)
    (recent : host.widx + 1 ≤ i + kScriptDiagCap) :
    Function.update host.ring (event.seq % kScriptDiagCap) event (i % kScriptDiagCap) = other ∧
      other.seq = i := by
  have count := quiet.count
  by_cases older : i < host.dispatched.length
  · rw [List.getElem?_append_left older] at known
    have apart : i % kScriptDiagCap ≠ event.seq % kScriptDiagCap := by
      unfold kScriptDiagCap at recent ⊢
      omega
    rw [Function.update_of_ne apart]
    exact quiet.stored i other known (by omega)
  · rw [List.getElem?_append_right (Nat.le_of_not_lt older), List.getElem?_singleton] at known
    split at known
    next last =>
      obtain rfl := Option.some.inj known
      have place : event.seq = i := by omega
      rw [← place, Function.update_self]
      exact ⟨rfl, rfl⟩
    next => cases known

/-- The lines of a window whose slots hold their dispatches are these, under their numbers. -/
theorem windowLines_eq {ring : Nat → ScriptDispatchEvent} {dispatched : List ScriptDispatchEvent}
    {first left : Nat} (size : dispatched.length = first + left + 1)
    (stored : ∀ i (inside : i < dispatched.length), first ≤ i →
      ring (i % kScriptDiagCap) = dispatched[i]) :
    (List.range (left + 1)).map (fun k => (first + k, ring ((first + k) % kScriptDiagCap))) =
      ((dispatched.drop first).zipIdx first).map Prod.swap := by
  refine List.ext_getElem ?_ fun k short long => ?_
  · rw [List.length_map, List.length_range, List.length_map, List.length_zipIdx,
      List.length_drop, size]
    omega
  · rw [List.length_map, List.length_range] at short
    have slot := stored (first + k) (by omega) (Nat.le_add_right ..)
    rw [List.getElem_map, List.getElem_range, List.getElem_map, List.getElem_zipIdx,
      List.getElem_drop, slot]
    rfl

/-- **A dispatch that nothing interrupts** is recorded, and if its handler is bad the report
shows it and the dispatches before it, 32 in all, in their order. -/
theorem alone_reports {host : Dispatches} (quiet : Quiet host) (thread : Nat) (rdram : Rdram)
    (ctx : Context) :
    let event := ScriptDispatchEvent.ofContext rdram ctx host.widx
    ∃ after, (aloneActions thread rdram ctx host.widx).foldlM perform host = some after ∧
      Quiet after ∧ after.dispatched = host.dispatched ++ [event] ∧
      after.lines = host.lines ++ if event.sound then [] else
        ((after.dispatched.drop (firstLine host.widx)).zipIdx (firstLine host.widx)).map
          Prod.swap := by
  intro event
  have count := quiet.count
  have number : event.seq = host.widx := rfl
  let claimed : Dispatches := { host with
    widx := host.widx + 1
    threads := Function.update host.threads thread (.claimed event)
    dispatched := host.dispatched ++ [event] }
  have claims : perform host (.claim thread rdram ctx) = some claimed :=
    perform_claim (quiet.idle thread) rdram ctx
  let stored : Dispatches := { claimed with
    ring := Function.update host.ring (event.seq % kScriptDiagCap) event
    threads := Function.update claimed.threads thread
      (if event.sound then .idle else .reporting event.seq (firstLine event.seq)) }
  have stores : perform claimed (.store thread) = some stored :=
    perform_store (Function.update_self ..)
  have size : (host.dispatched ++ [event]).length = host.widx + 1 := by
    rw [List.length_append, count]
    rfl
  have slots : ∀ (i : Nat) (other : ScriptDispatchEvent),
      (host.dispatched ++ [event])[i]? = some other → host.widx + 1 ≤ i + kScriptDiagCap →
        stored.ring (i % kScriptDiagCap) = other ∧ other.seq = i :=
    fun i other known recent => quiet.stores number known recent
  have idle : ∀ other, Function.update stored.threads thread .idle other = .idle := by
    intro other
    by_cases same : other = thread
    · subst same
      exact Function.update_self ..
    · show Function.update (Function.update (Function.update host.threads thread _) thread _)
        thread _ other = _
      rw [Function.update_idem, Function.update_idem, Function.update_of_ne same]
      exact quiet.idle other
  unfold aloneActions
  by_cases sound : event.sound = true
  · have here : stored.threads thread = .idle := by
      show Function.update claimed.threads thread _ thread = _
      rw [Function.update_self, if_pos sound]
    have phases : Function.update stored.threads thread .idle = stored.threads := by
      rw [← here, Function.update_eq_self]
    refine ⟨stored, ?_, ⟨size, phases ▸ idle, slots⟩, rfl, ?_⟩
    · rw [if_pos sound, List.foldlM_cons, claims]
      show List.foldlM perform claimed [_] = _
      rw [List.foldlM_cons, stores]
      rfl
    · rw [if_pos sound, List.append_nil]
  · have phase : stored.threads thread = .reporting host.widx (firstLine host.widx) := by
      show Function.update claimed.threads thread _ thread = _
      rw [Function.update_self, if_neg sound, number]
    have first : firstLine host.widx ≤ host.widx ∧ host.widx < firstLine host.widx + 32 := by
      unfold firstLine
      split <;> omega
    have window : ∀ i, firstLine host.widx ≤ i → i ≤ host.widx →
        ∃ inside : i < (host.dispatched ++ [event]).length,
          stored.ring (i % kScriptDiagCap) = (host.dispatched ++ [event])[i] ∧
            (stored.ring (i % kScriptDiagCap)).seq = i := by
      intro i low high
      have inside : i < (host.dispatched ++ [event]).length := by omega
      obtain ⟨slot, place⟩ := slots i _ (List.getElem?_eq_getElem inside)
        (by unfold kScriptDiagCap; omega)
      exact ⟨inside, slot, slot ▸ place⟩
    obtain ⟨left, some⟩ : ∃ left, firstLine host.widx + left = host.widx :=
      ⟨_, Nat.add_sub_of_le first.1⟩
    have reports := foldlM_line stored some phase fun i low high =>
      (window i low high).2.2
    refine ⟨{ stored with
      threads := Function.update stored.threads thread .idle
      lines := stored.lines ++ (List.range (left + 1)).map fun k =>
        (firstLine host.widx + k, stored.ring ((firstLine host.widx + k) % kScriptDiagCap)) },
      ?_, ⟨size, idle, slots⟩, rfl, ?_⟩
    · have long : host.widx + 1 - firstLine host.widx = left + 1 := by omega
      rw [if_neg sound, List.foldlM_cons, claims]
      show List.foldlM perform claimed (_ :: _) = _
      rw [List.foldlM_cons, stores, long]
      exact reports
    · rw [if_neg sound]
      show host.lines ++ _ = host.lines ++ _
      rw [windowLines_eq (by omega) fun i inside low => (window i low (by omega)).2.1]

theorem quiet_initial : Quiet .initial where
  count := rfl
  idle _ := rfl
  stored _ _ none := by simp [Dispatches.initial] at none

/-- A sound dispatch. -/
def earlier (seq : Nat) : ScriptDispatchEvent := { ScriptDispatchEvent.blank with
  seq := seq
  handler := 0x80000400 }

/-- The ring behind forty sound dispatches. -/
def fortyDispatches : Dispatches where
  widx := 40
  ring slot := if slot < 40 then earlier slot else .blank
  threads _ := .idle
  dispatched := (List.range 40).map earlier
  lines := []

theorem quiet_fortyDispatches : Quiet fortyDispatches where
  count := rfl
  idle _ := rfl
  stored i event known _ := by
    rw [show fortyDispatches.dispatched = (List.range 40).map earlier from rfl,
      List.getElem?_map] at known
    obtain ⟨j, atPlace, rfl⟩ := Option.map_eq_some_iff.mp known
    obtain ⟨inside, isRange⟩ := List.getElem?_eq_some_iff.mp atPlace
    have below : i < 40 := by simpa using inside
    obtain rfl : i = j := by simpa using isRange
    refine ⟨?_, rfl⟩
    have place : i % kScriptDiagCap = i := Nat.mod_eq_of_lt (Nat.lt_trans below (by decide))
    rw [place]
    exact if_pos below

/-- A bad dispatch shows the last thirty-two under their numbers. -/
theorem alone_reports_forty :
    ∃ after, (aloneActions 0 (fun _ => 0) (.ofRegisters []) 40).foldlM perform fortyDispatches =
        some after ∧ Quiet after ∧ after.lines.map Prod.fst = List.range' 9 32 ∧
      (after.lines.map Prod.snd).take 31 = (List.range' 9 31).map earlier := by
  obtain ⟨after, runs, quiet, dispatched, lines⟩ :=
    alone_reports quiet_fortyDispatches 0 (fun _ => 0) (.ofRegisters [])
  refine ⟨after, runs, quiet, ?_, ?_⟩
  · rw [lines, dispatched]
    rfl
  · rw [lines, dispatched]
    rfl

end StadiumRecomp.Trace
