import StadiumRecomp.Lib.CString
import StadiumRecomp.Lib.RingBuffer
import StadiumRecomp.Lib.RunLength

/-!
Contract: the function-name ring and the two reports that read it.

Owns: `pkmnstadium_trace_push` and its readers, the names of a post-mortem dump, the collapsed
history of an ultra-trace dump, and what both say of any calls.

Does not own: which thread runs, which an entry is given with its name.
-/

set_option autoImplicit false

namespace StadiumRecomp.Trace

open StadiumRecomp.Lib

def kTraceCap : Nat := 4096

/-- `TraceNameEvent`, the name by its characters. -/
structure TraceNameEvent where
  name : Option Bytes
  thread : UInt32
  threadId : UInt16
deriving DecidableEq, Repr

/-- `g_trace_ring` and `g_trace_widx`. -/
abbrev NameRing := RingBuffer TraceNameEvent

/-- An entry of the zeroed ring. -/
def TraceNameEvent.blank : TraceNameEvent := ⟨none, 0, 0⟩

def NameRing.initial : NameRing := .empty .blank

/-- `pkmnstadium_trace_push`. -/
def tracePush (ring : NameRing) (event : TraceNameEvent) : NameRing := ring.push kTraceCap event

/-- `pkmnstadium_trace_at`. -/
def traceAt (ring : NameRing) (idx : Nat) : Option Bytes := (ring.slots (idx % kTraceCap)).name

/-- The lines of a post-mortem dump: the slots of the last 64 entries, with their names. -/
def postMortemLines (ring : NameRing) : List (Nat × Option Bytes) :=
  let widx := ring.count
  if 0 < widx then
    let n := if widx < 64 then widx else 64
    (List.range n).map fun i =>
      let slot := (widx - n + i) % kTraceCap
      (slot, traceAt ring slot)
  else []

/-! ## The collapsed history -/

/-- `prev`, `run_start`, `run_len` and the lines written. -/
structure Collapse where
  prev : TraceNameEvent
  runStart : Nat
  runLen : Nat
  lines : List (Repeat TraceNameEvent)

/-- `flush_run`. -/
def Collapse.flushRun (state : Collapse) : List (Repeat TraceNameEvent) :=
  if state.runLen = 0 then state.lines
  else state.lines ++ [⟨state.runStart, state.prev, state.runLen⟩]

/-- Whether an entry repeats the one before. -/
def repeats (prev cur : TraceNameEvent) : Bool :=
  prev.name.isSome && cur.name.isSome && cur.thread == prev.thread &&
    cur.threadId == prev.threadId && cur.name == prev.name

/-- The body of the loop, on an entry and its number. -/
def Collapse.step (state : Collapse) (entry : TraceNameEvent × Nat) : Collapse :=
  if repeats state.prev entry.1 then { state with runLen := state.runLen + 1 }
  else ⟨entry.1, entry.2, 1, state.flushRun⟩

/-- The function-name lines of `pms_dump_ultra_trace`. -/
def nameLines (ring : NameRing) : List (Repeat TraceNameEvent) :=
  let fw := ring.count
  let fn := if fw < kTraceCap then fw else kTraceCap
  let first := if fw > fn then fw - fn else 0
  let entries := (List.range (fw - first)).map fun k =>
    (ring.slots ((first + k) % kTraceCap), first + k)
  (entries.foldl Collapse.step ⟨.blank, 0, 0, []⟩).flushRun

/-! ## What the loop writes -/

theorem repeats_eq {prev cur : TraceNameEvent} (same : repeats prev cur = true) : prev = cur := by
  unfold repeats at same
  simp only [Bool.and_eq_true, beq_iff_eq] at same
  obtain ⟨⟨⟨_, thread⟩, threadId⟩, name⟩ := same
  obtain ⟨prevName, prevThread, prevId⟩ := prev
  obtain ⟨curName, curThread, curId⟩ := cur
  exact TraceNameEvent.mk.injEq .. |>.mpr ⟨name.symm, thread.symm, threadId.symm⟩

theorem step_of_run (state : Collapse) (position : Nat) (event : TraceNameEvent)
    (some : 0 < state.runLen) :
    state.step (event, position) =
      if repeats state.prev event then { state with runLen := state.runLen + 1 }
      else ⟨event, position, 1, state.lines ++ [⟨state.runStart, state.prev, state.runLen⟩]⟩ := by
  have flushed : state.flushRun = state.lines ++ [⟨state.runStart, state.prev, state.runLen⟩] :=
    if_neg (Nat.ne_of_gt some)
  unfold Collapse.step
  rw [flushed]

/-- Behind its first entry the loop writes the runs of what it reads. -/
theorem foldl_step (items : List TraceNameEvent) (first : Nat) (state : Collapse)
    (some : 0 < state.runLen) :
    ((items.zipIdx first).foldl Collapse.step state).flushRun =
      state.lines ++ Repeat.collapseFrom repeats first
        ⟨state.runStart, state.prev, state.runLen⟩ items := by
  induction items generalizing first state with
  | nil => exact if_neg (Nat.ne_of_gt some)
  | cons event items inductionHypothesis =>
      rw [List.zipIdx_cons, List.foldl_cons, step_of_run state first event some,
        Repeat.collapseFrom]
      by_cases same : repeats state.prev event = true
      · rw [if_pos same, if_pos same]
        exact inductionHypothesis (first + 1) { state with runLen := state.runLen + 1 }
          (Nat.succ_pos _)
      · rw [if_neg same, if_neg same, inductionHypothesis (first + 1) _ Nat.one_pos,
          List.append_assoc]
        rfl

/-- The loop writes the runs of what it reads, from nothing on. -/
theorem foldl_step_blank (items : List TraceNameEvent) (first : Nat) :
    ((items.zipIdx first).foldl Collapse.step
        ⟨.blank, 0, 0, []⟩).flushRun = Repeat.collapse repeats first items := by
  cases items with
  | nil => rfl
  | cons event items => exact foldl_step items (first + 1) ⟨event, first, 1, []⟩ Nat.one_pos

/-- The entries that a report reads are the last pushed, with their numbers. -/
theorem window_zipIdx {pushed : List TraceNameEvent} {first : Nat} (inside : first ≤ pushed.length)
    (fits : pushed.length ≤ first + kTraceCap) :
    (List.range (pushed.length - first)).map (fun k =>
        ((pushed.foldl tracePush .initial).slots ((first + k) % kTraceCap), first + k)) =
      (pushed.drop first).zipIdx first := by
  refine List.ext_getElem (by simp) fun k left right => ?_
  rw [List.length_map, List.length_range] at left
  rw [List.getElem_map, List.getElem_range, List.getElem_zipIdx, List.getElem_drop]
  have slot : (pushed.foldl tracePush .initial).slots ((first + k) % kTraceCap) =
      pushed[first + k] := RingBuffer.slots_foldl_push (List.getElem?_eq_getElem _) (by omega)
  rw [slot]

/-! ## What the reports say -/

/-- **The name report after any calls**: its lines expand to the last 4096 entries in their
order, are numbered without a gap up to the count of all entries, and repeat nothing that the
line before could hold. -/
theorem nameLines_pushed (pushed : List TraceNameEvent) :
    let lines := nameLines (pushed.foldl tracePush .initial)
    Repeat.expand lines = pushed.drop (pushed.length - kTraceCap) ∧
      Repeat.Follows repeats (pushed.length - kTraceCap) pushed.length lines := by
  have written : nameLines (pushed.foldl tracePush .initial) =
      Repeat.collapse repeats (pushed.length - kTraceCap)
        (pushed.drop (pushed.length - kTraceCap)) := by
    have count : (pushed.foldl tracePush .initial).count = pushed.length := RingBuffer.count_empty pushed
    have first : (if pushed.length > (if pushed.length < kTraceCap then pushed.length
        else kTraceCap) then pushed.length - (if pushed.length < kTraceCap then pushed.length
          else kTraceCap) else 0) = pushed.length - kTraceCap := by
      split <;> split <;> omega
    unfold nameLines
    simp only [count, first]
    rw [window_zipIdx (Nat.sub_le _ _) (by omega)]
    exact foldl_step_blank _ _
  have long : pushed.length - kTraceCap + (pushed.drop (pushed.length - kTraceCap)).length =
      pushed.length := by
    rw [List.length_drop]
    exact Nat.add_sub_of_le (Nat.sub_le pushed.length kTraceCap)
  show Repeat.expand (nameLines _) = _ ∧ Repeat.Follows repeats _ _ (nameLines _)
  rw [written]
  generalize pushed.length - kTraceCap = first at long ⊢
  refine ⟨Repeat.expand_collapse (fun _ _ => repeats_eq) first (pushed.drop first), ?_⟩
  conv => arg 3; rw [← long]
  exact Repeat.follows_collapse first (pushed.drop first)

/-- **The post-mortem names**: those of the last 64 calls, the latest last, each with the slot of
its number. -/
theorem postMortemLines_pushed (pushed : List TraceNameEvent) :
    postMortemLines (pushed.foldl tracePush .initial) =
      ((pushed.drop (pushed.length - 64)).zipIdx (pushed.length - 64)).map fun entry =>
        (entry.2 % kTraceCap, entry.1.name) := by
  have count : (pushed.foldl tracePush .initial).count = pushed.length := RingBuffer.count_empty pushed
  unfold postMortemLines
  simp only [count]
  by_cases none : 0 < pushed.length
  · rw [if_pos none]
    have shown : (if pushed.length < 64 then pushed.length else 64) =
        pushed.length - (pushed.length - 64) := by
      split <;> omega
    rw [shown, Nat.sub_sub_self (Nat.sub_le _ _),
      ← window_zipIdx (Nat.sub_le _ _) (by unfold kTraceCap; omega), List.map_map]
    refine List.map_congr_left fun k _ => ?_
    unfold traceAt
    rw [Nat.mod_mod]
    rfl
  · obtain rfl := List.eq_nil_of_length_eq_zero (Nat.eq_zero_of_not_pos none)
    rfl

end StadiumRecomp.Trace
