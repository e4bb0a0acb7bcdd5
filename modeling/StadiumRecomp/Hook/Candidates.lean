import StadiumRecomp.Hook.Probe
import StadiumRecomp.Lib.SelectionSort
import StadiumRecomp.Lib.Tally

/-!
Contract: the call table `g_textcand` of the census and the report that lists it.

Owns: what a call of a traced function does to the table and to the count of qualifying calls,
the order of the report, and what the report says about any sequence of calls.

Does not own: the string inventory and the set of text routines, which are the probe's.
-/

set_option autoImplicit false

namespace StadiumRecomp.Hook

open StadiumRecomp.Lib
open StadiumRecomp.Guest

def kTextCandCap : Nat := 256
def kTextSampleLen : Nat := 64

/-- A call of a traced function, with the memory it finds. -/
structure ProbeCall where
  rdram : Rdram
  pc : UInt32
  ra : UInt32
  a0 : UInt32
  a1 : UInt32
  a2 : UInt32

/-- What the table takes of a call that draws text. -/
structure TextDraw where
  ra : UInt32
  a0 : UInt32
  a1 : UInt32
  a2 : UInt32
  text : Bytes
deriving DecidableEq, Repr

/-- `TextDrawCand` in use, with the bytes of its sample. -/
structure TextDrawCand where
  pc : UInt32
  ra : UInt32
  a0 : UInt32
  a1 : UInt32
  a2 : UInt32
  count : Nat
  sample : Bytes
deriving DecidableEq, Repr

namespace TextDrawCand

/-- A slot taken for an address. -/
def taken (pc : UInt32) : TextDrawCand := ⟨pc, 0, 0, 0, 0, 0, []⟩

/-- The latest arguments and sample, and one more count. -/
def touch (cand : TextDrawCand) (draw : TextDraw) : TextDrawCand :=
  { cand with
    ra := draw.ra
    a0 := draw.a0
    a1 := draw.a1
    a2 := draw.a2
    count := cand.count + 1
    sample := draw.text.take kTextSampleLen }

end TextDrawCand

/-- The used slots of `g_textcand`, and `g_text_qualifying`. -/
structure TextCensus where
  cands : List TextDrawCand
  qualifying : Nat
deriving DecidableEq, Repr

/-- What `pkmnstadium_textdraw_probe` counts. -/
def textdrawCount (census : TextCensus) (call : ProbeCall) : TextCensus :=
  if call.pc = kPrintfPC then
    match readTextArg call.rdram call.a2 with
    | some _ => { census with qualifying := census.qualifying + 1 }
    | none => census
  else if call.a0 ≥ 0x1000 ∨ call.a1 ≥ 0x1000 then census
  else
    match readTextArg call.rdram call.a2 with
    | none => census
    | some text =>
        { cands := Tally.note TextDrawCand.pc .taken .touch
            (kTextCandCap - census.cands.length)
            (call.pc, ⟨call.ra, call.a0, call.a1, call.a2, text⟩) census.cands
          qualifying := census.qualifying + 1 }

/-- The lines of `pkmnstadium_textdraw_dump`. -/
def textdrawDump (census : TextCensus) : List TextDrawCand :=
  SelectionSort.sort TextDrawCand.count census.cands

/-! ## Calls that count -/

/-- A text routine's call, with its text. -/
def ProbeCall.draw (call : ProbeCall) : Option (UInt32 × TextDraw) :=
  if call.pc = kPrintfPC ∨ call.a0 ≥ 0x1000 ∨ call.a1 ≥ 0x1000 then none
  else (readTextArg call.rdram call.a2).map fun text =>
    (call.pc, ⟨call.ra, call.a0, call.a1, call.a2, text⟩)

/-- A call of the formatter with text. -/
def ProbeCall.formats (call : ProbeCall) : Bool :=
  call.pc == kPrintfPC && (readTextArg call.rdram call.a2).isSome

/-- The calls of text routines, in order. -/
def draws (calls : List ProbeCall) : List (UInt32 × TextDraw) := calls.filterMap ProbeCall.draw

theorem textdrawCount_eq (census : TextCensus) (call : ProbeCall) :
    textdrawCount census call =
      match call.draw with
      | some draw =>
          { cands := Tally.note TextDrawCand.pc .taken .touch
              (kTextCandCap - census.cands.length) draw census.cands
            qualifying := census.qualifying + 1 }
      | none => if call.formats then { census with qualifying := census.qualifying + 1 }
          else census := by
  unfold textdrawCount ProbeCall.draw ProbeCall.formats
  by_cases printf : call.pc = kPrintfPC
  · rw [if_pos printf, if_pos (Or.inl printf)]
    cases readTextArg call.rdram call.a2 <;> simp [printf]
  · rw [if_neg printf]
    by_cases far : call.a0 ≥ 0x1000 ∨ call.a1 ≥ 0x1000
    · rw [if_pos far, if_pos (Or.inr far)]
      simp [printf]
    · rw [if_neg far, if_neg (not_or.mpr ⟨printf, far⟩)]
      cases readTextArg call.rdram call.a2 with
      | none => simp
      | some text => rfl

theorem keyed_taken : Tally.Keyed TextDrawCand.pc .taken .touch := ⟨fun _ => rfl, fun _ _ => rfl⟩

/-- Every qualifying call is counted, and the table is that of the text routines' calls. -/
theorem foldl_textdrawCount (calls : List ProbeCall) :
    calls.foldl textdrawCount ⟨[], 0⟩ =
      { cands := Tally.run TextDrawCand.pc .taken .touch kTextCandCap (draws calls)
        qualifying := (draws calls).length + calls.countP ProbeCall.formats } := by
  induction calls using List.reverseRecOn with
  | nil => rfl
  | append_singleton calls call inductionHypothesis =>
      rw [List.foldl_append, List.foldl_cons, List.foldl_nil, inductionHypothesis,
        textdrawCount_eq]
      unfold draws Tally.run
      rw [List.filterMap_append, List.countP_append, List.length_append]
      cases drawn : call.draw with
      | none =>
          simp only [List.filterMap_cons, drawn, List.filterMap_nil, List.append_nil,
            List.countP_cons, List.countP_nil]
          split <;> rfl
      | some draw =>
          have plain : call.formats = false := by
            unfold ProbeCall.draw at drawn
            unfold ProbeCall.formats
            split at drawn
            · cases drawn
            next apart => simp [(not_or.mp apart).1]
          simp only [List.filterMap_cons, drawn, List.filterMap_nil, List.foldl_append,
            List.foldl_cons, List.foldl_nil, List.countP_cons, List.countP_nil, plain]
          congr 1
          exact Nat.add_right_comm _ _ 1

/-! ## The report -/

/-- A slot after the calls of its address. -/
theorem foldl_touch (pc : UInt32) (events : List TextDraw) :
    events.foldl TextDrawCand.touch (.taken pc) =
      match events.getLast? with
      | none => .taken pc
      | some last => ⟨pc, last.ra, last.a0, last.a1, last.a2, events.length,
          last.text.take kTextSampleLen⟩ := by
  induction events using List.reverseRecOn with
  | nil => rfl
  | append_singleton events event inductionHypothesis =>
      rw [List.foldl_append, List.foldl_cons, List.foldl_nil, inductionHypothesis,
        List.getLast?_concat, List.length_append]
      cases known : events.getLast? with
      | none =>
          rw [List.getLast?_eq_none_iff.mp known]
          rfl
      | some last => rfl

/-- A line of the report: the calls of its address counted, and the last of them shown. -/
structure Reports (events : List (UInt32 × TextDraw)) (cand : TextDrawCand) : Prop where
  count : cand.count = (Tally.eventsOf cand.pc events).length
  latest : ∃ last, (Tally.eventsOf cand.pc events).getLast? = some last ∧ cand.ra = last.ra ∧
    cand.a0 = last.a0 ∧ cand.a1 = last.a1 ∧ cand.a2 = last.a2 ∧
      cand.sample = last.text.take kTextSampleLen

theorem reports_rowOf {events : List (UInt32 × TextDraw)} {pc : UInt32}
    (known : pc ∈ SeenLog.keys events) :
    Reports events (Tally.rowOf TextDrawCand.taken TextDrawCand.touch events pc) := by
  obtain ⟨event, member, same⟩ := SeenLog.mem_keys.mp known
  have some : Tally.eventsOf pc events ≠ [] := by
    unfold Tally.eventsOf
    rw [ne_eq, List.map_eq_nil_iff]
    exact List.ne_nil_of_mem (List.mem_filter.mpr ⟨member, decide_eq_true same⟩)
  have last := List.getLast?_eq_some_getLast some
  have row := foldl_touch pc (Tally.eventsOf pc events)
  rw [last] at row
  unfold Tally.rowOf
  rw [row]
  exact ⟨rfl, _, last, rfl, rfl, rfl, rfl, rfl⟩

/-- **What the report of the census says** after any calls: a line for each of the first 256
text routines, by falling count; each counts its routine's calls and shows the last; and the
lines and the formatter's calls together account for every qualifying call, exactly if no
routine came when the table was full. -/
theorem textdrawDump_reports (calls : List ProbeCall) :
    let census := calls.foldl textdrawCount ⟨[], 0⟩
    let lines := textdrawDump census
    (lines.map TextDrawCand.pc).Perm (SeenLog.held kTextCandCap (draws calls)) ∧
      lines.Pairwise (fun upper lower => lower.count ≤ upper.count) ∧
      (∀ cand ∈ lines, Reports (draws calls) cand) ∧
      (lines.map TextDrawCand.count).sum + calls.countP ProbeCall.formats ≤ census.qualifying ∧
      ((lines.map TextDrawCand.count).sum + calls.countP ProbeCall.formats = census.qualifying ↔
        (SeenLog.keys (draws calls)).length ≤ kTextCandCap) := by
  intro census lines
  have counted : census = _ := foldl_textdrawCount calls
  have table : census.cands = (SeenLog.held kTextCandCap (draws calls)).map
      (Tally.rowOf TextDrawCand.taken TextDrawCand.touch (draws calls)) := by
    rw [counted, Tally.run_eq keyed_taken]
  have perm : lines.Perm census.cands := SelectionSort.sort_perm census.cands
  have reports : ∀ cand ∈ lines, Reports (draws calls) cand := by
    intro cand member
    rw [perm.mem_iff, table, List.mem_map] at member
    obtain ⟨pc, held, rfl⟩ := member
    exact reports_rowOf (SeenLog.mem_keys_of_held held)
  have named : census.cands.map TextDrawCand.pc = SeenLog.held kTextCandCap (draws calls) := by
    rw [table, List.map_map]
    conv_rhs => rw [← List.map_id (SeenLog.held kTextCandCap (draws calls))]
    exact List.map_congr_left fun pc _ => keyed_taken.rowOf (draws calls) pc
  have total : (lines.map TextDrawCand.count).sum = (draws calls).countP fun draw =>
      draw.1 ∈ SeenLog.held kTextCandCap (draws calls) := by
    have distinct : (SeenLog.held kTextCandCap (draws calls)).Nodup :=
      (Tally.keys_nodup (draws calls)).sublist (List.take_sublist _ _)
    rw [← Tally.sum_length_eventsOf distinct, ← named, List.map_map,
      List.map_congr_left fun cand member => (reports cand member).count]
    exact List.Perm.sum_nat (perm.map _)
  have every : census.qualifying = (draws calls).length + calls.countP ProbeCall.formats := by
    rw [counted]
  have most : ((draws calls).countP fun draw =>
      draw.1 ∈ SeenLog.held kTextCandCap (draws calls)) ≤ (draws calls).length :=
    List.countP_le_length
  refine ⟨named ▸ perm.map _, SelectionSort.sort_pairwise census.cands, reports, by omega, ?_⟩
  rw [← Tally.countP_held_eq_length, total, every]
  omega

end StadiumRecomp.Hook
