import StadiumRecomp.Guest.TextArg
import StadiumRecomp.Lib.Runs

/-!
Contract: `pkmnstadium_memscan`, the bulk scan of RDRAM for text.

Owns: the scan and its report, the runs it should report, and the runs that decide whether
it does.

Does not own: the log file the report is printed to.
-/

set_option autoImplicit false

namespace StadiumRecomp.Census

open StadiumRecomp.Lib
open StadiumRecomp.Guest

/-! ## The scan -/

def scanBase : Nat := 0x80000000
def scanEnd : Nat := 0x80800000

/-- `sizeof(buf)`. -/
def bufSize : Nat := 2048

/-- `rdram[(a & 0x1FFFFFFFu) ^ 3]`. -/
def scanned (rdram : Rdram) (a : Nat) : UInt8 := rdram (hostIndex (a &&& 0x1FFFFFFF))

/-- One reported line: the address and the bytes. -/
structure Found where
  addr : Nat
  bytes : Bytes
deriving DecidableEq, Repr

/-- The bytes the inner loop puts into the buffer, with so much room left. -/
def collect (rdram : Rdram) : Nat → Nat → Bytes
  | 0, _ => []
  | room + 1, p =>
      if p < scanEnd then
        let cc := scanned rdram p
        if isTextByte cc then cc :: collect rdram room (p + 1) else []
      else []

def hasJp (bytes : Bytes) : Bool := bytes.any (· ≥ 0x80)

/-- The outer loop from an address on. -/
def scanFrom (rdram : Rdram) (minlen a : Nat) : List Found :=
  if a < scanEnd then
    if !isTextByte (scanned rdram a) then scanFrom rdram minlen (a + 1)
    else
      let buf := collect rdram bufSize a
      let p := a + buf.length
      if buf.length ≥ minlen && hasJp buf then
        ⟨a, buf⟩ :: scanFrom rdram minlen (p + 1)
      else scanFrom rdram minlen (p + 1)
  else []
termination_by scanEnd - a

/-- `pkmnstadium_memscan`. -/
def memscan (rdram : Rdram) (minlen : UInt32) : List Found :=
  scanFrom rdram (if minlen < 4 then 4 else minlen.toNat) scanBase

/-! ## What should be reported -/

/-- The address and byte pairs of a report, in its order. -/
def Found.cells (found : Found) : List (Nat × UInt8) :=
  (List.range found.bytes.length).map (fun k => (found.addr + k, found.bytes.getD k 0))

def cells (report : List Found) : List (Nat × UInt8) := report.flatMap Found.cells

/-- A maximal run of text bytes in RDRAM, as the guest reads them. -/
abbrev TextRun (rdram : Rdram) : Nat → Nat → Prop :=
  MaximalRun (fun a => isTextByte (guestRb rdram (UInt32.ofNat a)) = true) scanBase scanEnd

/-- A run that is long enough and has a byte outside ASCII. -/
structure Wanted (rdram : Rdram) (minlen : UInt32) (first last : Nat) : Prop where
  run : TextRun rdram first last
  long : max minlen.toNat 4 ≤ last - first
  japanese : ∃ a, first ≤ a ∧ a < last ∧ guestRb rdram (UInt32.ofNat a) ≥ 0x80

/-- The report holds, in address order and each once, exactly the bytes of the wanted
runs. -/
structure MissesNothing (rdram : Rdram) (minlen : UInt32) (report : List Found) : Prop where
  ordered : (cells report).Pairwise (fun left right => left.1 < right.1)
  exactly : ∀ a byte, (a, byte) ∈ cells report ↔
    (∃ first last, Wanted rdram minlen first last ∧ first ≤ a ∧ a < last) ∧
      byte = guestRb rdram (UInt32.ofNat a)

/-! ## Addresses -/

theorem scanned_eq {rdram : Rdram} {a : Nat} (low : scanBase ≤ a) (high : a < scanEnd) :
    scanned rdram a = guestRb rdram (UInt32.ofNat a) := by
  have value : (UInt32.ofNat a).toNat = a := by
    rw [UInt32.toNat_ofNat']
    unfold scanEnd at high
    omega
  have one : (1 : UInt32).toNat = 1 := rfl
  have inRange : rdramRange (UInt32.ofNat a) 1 = true := by
    rw [rdramRange_iff, value, one]
    unfold scanBase scanEnd at *
    omega
  unfold scanned guestRb
  rw [if_pos inRange, physical_toNat, value]
  exact congrArg (fun index => rdram (hostIndex index)) (Nat.and_two_pow_sub_one_eq_mod a 29)

/-! ## One buffer -/

theorem collect_length_le (rdram : Rdram) (room a : Nat) :
    (collect rdram room a).length ≤ room := by
  induction room generalizing a with
  | zero => exact Nat.le_refl 0
  | succ room inductionHypothesis =>
      rw [collect]
      simp only
      split
      · split
        · exact Nat.succ_le_succ (inductionHypothesis (a + 1))
        · exact Nat.zero_le _
      · exact Nat.zero_le _

/-- The buffer holds text bytes from its address on. -/
theorem collect_getD {rdram : Rdram} {room a k : Nat}
    (inside : k < (collect rdram room a).length) :
    a + k < scanEnd ∧ isTextByte (scanned rdram (a + k)) = true ∧
      (collect rdram room a).getD k 0 = scanned rdram (a + k) := by
  induction room generalizing a k with
  | zero => exact absurd inside (Nat.not_lt_zero k)
  | succ room inductionHypothesis =>
      rw [collect] at inside ⊢
      by_cases before : a < scanEnd
      swap
      · rw [if_neg before] at inside
        exact absurd inside (Nat.not_lt_zero k)
      rw [if_pos before] at inside ⊢
      by_cases text : isTextByte (scanned rdram a) = true
      swap
      · simp only [text, Bool.false_eq_true, if_false] at inside
        exact absurd inside (Nat.not_lt_zero k)
      simp only [text, if_true] at inside ⊢
      cases k with
      | zero => exact ⟨before, text, rfl⟩
      | succ k =>
          have later := inductionHypothesis (Nat.lt_of_succ_lt_succ inside)
          rw [show a + (k + 1) = a + 1 + k by omega]
          exact later

/-- The buffer ends where it is full or where the text does. -/
theorem collect_ends (rdram : Rdram) (room a : Nat) :
    (collect rdram room a).length = room ∨ scanEnd ≤ a + (collect rdram room a).length ∨
      isTextByte (scanned rdram (a + (collect rdram room a).length)) = false := by
  induction room generalizing a with
  | zero => exact Or.inl rfl
  | succ room inductionHypothesis =>
      rw [collect]
      by_cases before : a < scanEnd
      swap
      · rw [if_neg before]
        exact Or.inr (Or.inl (Nat.not_lt.mp before))
      rw [if_pos before]
      by_cases text : isTextByte (scanned rdram a) = true
      · simp only [text, if_true, List.length_cons]
        rcases inductionHypothesis (a + 1) with full | outside | stops
        · exact Or.inl (congrArg (· + 1) full)
        · exact Or.inr (Or.inl (by omega))
        · refine Or.inr (Or.inr ?_)
          rw [show a + ((collect rdram room (a + 1)).length + 1) =
            a + 1 + (collect rdram room (a + 1)).length by omega]
          exact stops
      · simp only [text, Bool.false_eq_true, if_false, List.length_nil, Nat.add_zero]
        exact Or.inr (Or.inr trivial)

/-! ## The report -/

theorem mem_foundCells {rdram : Rdram} {room a : Nat} {cell : Nat × UInt8} :
    cell ∈ (Found.mk a (collect rdram room a)).cells ↔
      a ≤ cell.1 ∧ cell.1 < a + (collect rdram room a).length ∧
        cell.2 = scanned rdram cell.1 := by
  unfold Found.cells
  rw [List.mem_map]
  constructor
  · intro ⟨k, inside, same⟩
    rw [List.mem_range] at inside
    obtain ⟨_, _, byte⟩ := collect_getD inside
    rw [← same]
    exact ⟨Nat.le_add_right a k, Nat.add_lt_add_left inside a, byte⟩
  · intro ⟨low, high, byte⟩
    have inside : cell.1 - a < (collect rdram room a).length := by omega
    obtain ⟨_, _, stands⟩ := collect_getD inside
    have sum : a + (cell.1 - a) = cell.1 := by omega
    rw [sum] at stands
    refine ⟨cell.1 - a, List.mem_range.mpr inside, ?_⟩
    show (a + (cell.1 - a), (collect rdram room a).getD (cell.1 - a) 0) = cell
    rw [sum, stands, ← byte]

theorem cells_cons (found : Found) (rest : List Found) :
    cells (found :: rest) = found.cells ++ cells rest := List.flatMap_cons

/-- What is reported from an address on lies there, as RDRAM holds it. -/
theorem cells_scanFrom {rdram : Rdram} {minlen a : Nat} :
    ∀ cell ∈ cells (scanFrom rdram minlen a),
      a ≤ cell.1 ∧ cell.1 < scanEnd ∧ cell.2 = scanned rdram cell.1 := by
  fun_induction scanFrom rdram minlen a with
  | case1 a before noText inductionHypothesis =>
      intro cell member
      obtain ⟨low, high, byte⟩ := inductionHypothesis cell member
      exact ⟨Nat.le_of_succ_le low, high, byte⟩
  | case2 a before text buf p kept inductionHypothesis =>
      intro cell member
      rw [cells_cons, List.mem_append] at member
      rcases member with here | later
      · obtain ⟨low, high, byte⟩ := mem_foundCells.mp here
        have inside : cell.1 - a < (collect rdram bufSize a).length := by omega
        have bound := (collect_getD inside).1
        exact ⟨low, by omega, byte⟩
      · obtain ⟨low, high, byte⟩ := inductionHypothesis cell later
        exact ⟨by omega, high, byte⟩
  | case3 a before text buf p dropped inductionHypothesis =>
      intro cell member
      obtain ⟨low, high, byte⟩ := inductionHypothesis cell member
      exact ⟨by omega, high, byte⟩
  | case4 a outside =>
      intro cell impossible
      exact absurd impossible List.not_mem_nil

theorem cells_ordered {rdram : Rdram} {minlen a : Nat} :
    (cells (scanFrom rdram minlen a)).Pairwise (fun left right => left.1 < right.1) := by
  fun_induction scanFrom rdram minlen a with
  | case1 a before noText inductionHypothesis => exact inductionHypothesis
  | case2 a before text buf p kept inductionHypothesis =>
      rw [cells_cons, List.pairwise_append]
      refine ⟨?_, inductionHypothesis, ?_⟩
      · unfold Found.cells
        rw [List.pairwise_map]
        apply List.pairwise_lt_range.imp
        intro left right less
        exact Nat.add_lt_add_left less a
      · intro left here right later
        have high : left.1 < a + buf.length := (mem_foundCells.mp here).2.1
        obtain ⟨low, _, _⟩ := cells_scanFrom right later
        omega
  | case3 a before text buf p dropped inductionHypothesis => exact inductionHypothesis
  | case4 a outside => exact List.Pairwise.nil

/-! ## Buffers and runs -/

section Runs

variable {rdram : Rdram} {minlen : UInt32} {first last a : Nat}

/-- Some wanted run holds the address. -/
def InWanted (rdram : Rdram) (minlen : UInt32) (a : Nat) : Prop :=
  ∃ first last, Wanted rdram minlen first last ∧ first ≤ a ∧ a < last

theorem text_of_run (run : TextRun rdram first last) {x : Nat} (low : first ≤ x)
    (high : x < last) : isTextByte (scanned rdram x) = true := by
  rw [scanned_eq (Nat.le_trans run.low low) (Nat.lt_of_lt_of_le high run.high)]
  exact run.accepted x low high

/-- No run holds the address behind another one. -/
theorem not_inside_at_end (run : TextRun rdram first last) {otherFirst otherLast : Nat}
    (other : TextRun rdram otherFirst otherLast) : ¬ (otherFirst ≤ last ∧ last < otherLast) := by
  intro ⟨low, high⟩
  rcases run.closes with same | stops
  · have bound := other.high
    omega
  · exact stops (other.accepted last low high)

/-- A buffer filled inside a run stays in it, and is full or reaches its end. -/
theorem collect_run (run : TextRun rdram first last) (low : first ≤ a) (high : a < last) :
    0 < (collect rdram bufSize a).length ∧ a + (collect rdram bufSize a).length ≤ last ∧
      ((collect rdram bufSize a).length = bufSize ∨
        a + (collect rdram bufSize a).length = last) := by
  have bottom := run.low
  have stays : a + (collect rdram bufSize a).length ≤ last := by
    by_contra beyond
    have inside : last - a < (collect rdram bufSize a).length := by omega
    obtain ⟨bound, text, _⟩ := collect_getD inside
    rw [show a + (last - a) = last by omega] at bound text
    rcases run.closes with same | stops
    · omega
    · rw [scanned_eq (by omega) bound] at text
      exact stops text
  have ends : (collect rdram bufSize a).length = bufSize ∨
      a + (collect rdram bufSize a).length = last := by
    rcases collect_ends rdram bufSize a with full | outside | stops
    · exact Or.inl full
    · have top := run.high
      exact Or.inr (by omega)
    · right
      by_contra short
      have text := text_of_run run (by omega : first ≤ a + (collect rdram bufSize a).length)
        (by omega)
      rw [stops] at text
      cases text
  refine ⟨?_, stays, ends⟩
  rcases ends with full | reaches
  · rw [full]
    exact Nat.succ_pos _
  · omega

theorem exists_run_of_text (low : scanBase ≤ a) (high : a < scanEnd)
    (text : isTextByte (scanned rdram a) = true) :
    ∃ first last, TextRun rdram first last ∧ first ≤ a ∧ a < last := by
  rw [scanned_eq low high] at text
  exact exists_maximalRun low high text

/-- The addresses of a buffer, and the one behind it, are wanted only with the buffer's
run. -/
theorem wanted_of_inWanted (run : TextRun rdram first last) {x : Nat} (low : first ≤ x)
    (high : x ≤ last) (inWanted : InWanted rdram minlen x) :
    Wanted rdram minlen first last ∧ x < last := by
  obtain ⟨otherFirst, otherLast, wanted, otherLow, otherHigh⟩ := inWanted
  rcases Nat.lt_or_eq_of_le high with inside | same
  · obtain ⟨sameFirst, sameLast⟩ :=
      run.unique wanted.run ⟨low, inside⟩ ⟨otherLow, otherHigh⟩
    subst sameFirst sameLast
    exact ⟨wanted, inside⟩
  · subst same
    exact absurd ⟨otherLow, otherHigh⟩ (not_inside_at_end run wanted.run)

/-- A buffer that qualifies makes its run a wanted one. -/
theorem wanted_of_kept (run : TextRun rdram first last) (low : first ≤ a) (high : a < last)
    (kept : (decide ((collect rdram bufSize a).length ≥ max minlen.toNat 4) &&
      hasJp (collect rdram bufSize a)) = true) : Wanted rdram minlen first last := by
  rw [Bool.and_eq_true, decide_eq_true_eq] at kept
  obtain ⟨long, japanese⟩ := kept
  obtain ⟨_, stays, _⟩ := collect_run run low high
  refine ⟨run, by omega, ?_⟩
  obtain ⟨byte, member, nonAscii⟩ := List.any_eq_true.mp japanese
  obtain ⟨k, inside, stands⟩ := List.mem_iff_getElem.mp member
  obtain ⟨_, _, read⟩ := collect_getD inside
  rw [List.getD_eq_getElem _ _ inside, stands] at read
  rw [read, scanned_eq (Nat.le_trans run.low (by omega)) (by have := run.high; omega)]
    at nonAscii
  exact ⟨a + k, by omega, by omega, of_decide_eq_true nonAscii⟩

/-- A wanted run that fits the buffer qualifies as a whole. -/
theorem kept_of_wanted (wanted : Wanted rdram minlen first last)
    (whole : first + (collect rdram bufSize first).length = last) :
    (decide ((collect rdram bufSize first).length ≥ max minlen.toNat 4) &&
      hasJp (collect rdram bufSize first)) = true := by
  rw [Bool.and_eq_true, decide_eq_true_eq]
  have long := wanted.long
  refine ⟨by omega, ?_⟩
  obtain ⟨x, low, high, nonAscii⟩ := wanted.japanese
  have inside : x - first < (collect rdram bufSize first).length := by omega
  obtain ⟨_, _, read⟩ := collect_getD inside
  have bottom := wanted.run.low
  have top := wanted.run.high
  rw [show first + (x - first) = x by omega, scanned_eq (by omega) (by omega)] at read
  apply List.any_eq_true.mpr
  refine ⟨(collect rdram bufSize first).getD (x - first) 0, ?_, ?_⟩
  · rw [List.getD_eq_getElem _ _ inside]
    exact List.getElem_mem inside
  · rw [read]
    exact decide_eq_true nonAscii

/-- A wanted run that the scan enters at its start and that fits the buffer fills it. -/
theorem whole_of_wanted (wanted : Wanted rdram minlen first last)
    (fits : last - first ≤ bufSize) (unsplit : ¬ (first < a ∧ a < last)) (low : first ≤ a)
    (high : a < last) : first = a ∧ a + (collect rdram bufSize a).length = last := by
  obtain ⟨_, stays, ends⟩ := collect_run wanted.run low high
  omega

section Step

variable (short : ∀ first last, Wanted rdram minlen first last → last - first ≤ bufSize)
  (low : scanBase ≤ a) (before : a < scanEnd) (isText : isTextByte (scanned rdram a) = true)
  (unsplit : ∀ first last, Wanted rdram minlen first last → ¬ (first < a ∧ a < last))

include short low before isText unsplit

/-- A buffer that qualifies ends where its wanted run does. -/
theorem wanted_of_found
    (kept : (decide ((collect rdram bufSize a).length ≥ max minlen.toNat 4) &&
      hasJp (collect rdram bufSize a)) = true) :
    ∃ first ≤ a, Wanted rdram minlen first (a + (collect rdram bufSize a).length) := by
  obtain ⟨first, last, run, from_, upto⟩ := exists_run_of_text low before isText
  have wanted := wanted_of_kept run from_ upto kept
  obtain ⟨_, ends⟩ := whole_of_wanted wanted (short first last wanted)
    (unsplit first last wanted) from_ upto
  rw [ends]
  exact ⟨first, from_, wanted⟩

/-- A buffer that does not qualify passes over nothing wanted, as a wanted run would have
filled it and qualified. -/
theorem unwanted_of_dropped
    (dropped : ¬ (decide ((collect rdram bufSize a).length ≥ max minlen.toNat 4) &&
      hasJp (collect rdram bufSize a)) = true) {x : Nat} (above : a ≤ x)
    (upTo : x ≤ a + (collect rdram bufSize a).length) : ¬ InWanted rdram minlen x := by
  obtain ⟨first, last, run, from_, upto⟩ := exists_run_of_text low before isText
  have stays := (collect_run run from_ upto).2.1
  intro inWanted
  obtain ⟨wanted, _⟩ := wanted_of_inWanted run (by omega) (by omega) inWanted
  obtain ⟨same, ends⟩ := whole_of_wanted wanted (short first last wanted)
    (unsplit first last wanted) from_ upto
  subst same
  exact dropped (kept_of_wanted wanted ends)

end Step

/-! ## Whole scans -/

def Reports (rdram : Rdram) (minlen : UInt32) (a x : Nat) : Prop :=
  ∃ byte, (x, byte) ∈ cells (scanFrom rdram (max minlen.toNat 4) a)

/-- When wanted runs fit the buffer, a scan that starts inside none of them reports exactly
those behind it. -/
theorem reports_iff (short : ∀ first last, Wanted rdram minlen first last →
      last - first ≤ bufSize) (low : scanBase ≤ a)
    (unsplit : ∀ first last, Wanted rdram minlen first last → ¬ (first < a ∧ a < last))
    (x : Nat) : Reports rdram minlen a x ↔ a ≤ x ∧ InWanted rdram minlen x := by
  unfold Reports
  generalize smallest : max minlen.toNat 4 = least
  fun_induction scanFrom rdram least a with
  | case1 a before noText inductionHypothesis =>
      have notHere : ¬ InWanted rdram minlen a := by
        intro ⟨first, last, wanted, from_, upto⟩
        rw [text_of_run wanted.run from_ upto] at noText
        cases noText
      rw [inductionHypothesis (by omega) ?_]
      · constructor
        · exact fun ⟨above, wanted⟩ => ⟨Nat.le_of_succ_le above, wanted⟩
        · intro ⟨above, wanted⟩
          rcases Nat.eq_or_lt_of_le above with same | later
          · exact absurd (same ▸ wanted) notHere
          · exact ⟨later, wanted⟩
      · intro first last wanted ⟨from_, upto⟩
        exact notHere ⟨first, last, wanted, by omega, by omega⟩
  | case2 a before text buf p kept inductionHypothesis =>
      have isText : isTextByte (scanned rdram a) = true := by simpa using text
      subst smallest
      obtain ⟨first, from_, wanted⟩ := wanted_of_found short low before isText unsplit kept
      have behind : ∀ x, InWanted rdram minlen x → a ≤ x → x ≤ p → x < p := by
        intro x inWanted above upTo
        exact (wanted_of_inWanted wanted.run (by omega) upTo inWanted).2
      have later := inductionHypothesis (by omega) (by
        intro otherFirst otherLast other ⟨below, above⟩
        have inside := behind p ⟨otherFirst, otherLast, other, by omega, by omega⟩
          (by omega) (Nat.le_refl p)
        exact Nat.lt_irrefl p inside)
      constructor
      · intro ⟨byte, member⟩
        rw [cells_cons, List.mem_append] at member
        rcases member with here | further
        · obtain ⟨lower, upper, _⟩ := mem_foundCells.mp here
          have inside : x < p := upper
          exact ⟨lower, first, p, wanted, by omega, inside⟩
        · obtain ⟨above, inWanted⟩ := later.mp ⟨byte, further⟩
          exact ⟨by omega, inWanted⟩
      · intro ⟨above, inWanted⟩
        rcases Nat.lt_or_ge p x with further | upTo
        · obtain ⟨byte, member⟩ := later.mpr ⟨further, inWanted⟩
          refine ⟨byte, ?_⟩
          rw [cells_cons]
          exact List.mem_append_right _ member
        · refine ⟨scanned rdram x, ?_⟩
          rw [cells_cons]
          apply List.mem_append_left
          exact mem_foundCells.mpr ⟨above, behind x inWanted above upTo, rfl⟩
  | case3 a before text buf p dropped inductionHypothesis =>
      have isText : isTextByte (scanned rdram a) = true := by simpa using text
      subst smallest
      have unwanted : ∀ x, a ≤ x → x ≤ p → ¬ InWanted rdram minlen x :=
        fun x => unwanted_of_dropped short low before isText unsplit dropped
      rw [inductionHypothesis (by omega) ?_]
      · constructor
        · exact fun ⟨above, inWanted⟩ => ⟨by omega, inWanted⟩
        · intro ⟨above, inWanted⟩
          rcases Nat.lt_or_ge p x with further | upTo
          · exact ⟨further, inWanted⟩
          · exact absurd inWanted (unwanted x above upTo)
      · intro otherFirst otherLast other ⟨below, above⟩
        exact unwanted p (by omega) (Nat.le_refl p)
          ⟨otherFirst, otherLast, other, by omega, by omega⟩
  | case4 a outside =>
      constructor
      · intro ⟨_, impossible⟩
        exact absurd impossible List.not_mem_nil
      · intro ⟨above, _, last, wanted, _, upto⟩
        have top := wanted.run.high
        omega

/-- A buffer filled before a run ends before it. -/
theorem collect_before_run (run : TextRun rdram first last) (low : scanBase ≤ a)
    (before : a < first) : a + (collect rdram bufSize a).length < first := by
  by_contra reaches
  have inside : first - 1 - a < (collect rdram bufSize a).length := by omega
  obtain ⟨bound, text, _⟩ := collect_getD inside
  rw [show a + (first - 1 - a) = first - 1 by omega] at bound text
  rw [scanned_eq (by omega) bound] at text
  rcases run.opens with same | stops
  · omega
  · exact stops text

/-- The byte behind a full buffer is not reported, although the text goes on. -/
theorem not_reports_behind_buffer {least : Nat} (run : TextRun rdram first last)
    (long : bufSize < last - first) (low : scanBase ≤ a) (before : a ≤ first) (byte : UInt8) :
    (first + bufSize, byte) ∉ cells (scanFrom rdram least a) := by
  have starts := text_of_run run (Nat.le_refl first) run.nonempty
  have top := run.high
  have full : (collect rdram bufSize first).length = bufSize := by
    obtain ⟨_, _, ends⟩ := collect_run run (Nat.le_refl first) run.nonempty
    have bounded := collect_length_le rdram bufSize first
    omega
  fun_induction scanFrom rdram least a with
  | case1 a inside noText inductionHypothesis =>
      have notHere : a ≠ first := by
        intro same
        subst same
        rw [starts] at noText
        cases noText
      exact inductionHypothesis (by omega) (by omega)
  | case2 a inside text buf p kept inductionHypothesis =>
      have short : buf.length ≤ bufSize := collect_length_le rdram bufSize a
      intro member
      rw [cells_cons, List.mem_append] at member
      rcases member with here | further
      · have upper : first + bufSize < p := (mem_foundCells.mp here).2.1
        omega
      · rcases Nat.lt_or_eq_of_le before with earlier | same
        · have ends : p < first := collect_before_run run low earlier
          exact inductionHypothesis (by omega) (by omega) further
        · -- The cursor has stepped over the byte that did not fit.
          subst same
          obtain ⟨beyond, _⟩ := cells_scanFrom _ further
          have skipped : p = a + bufSize := congrArg (a + ·) full
          omega
  | case3 a inside text buf p dropped inductionHypothesis =>
      intro member
      rcases Nat.lt_or_eq_of_le before with earlier | same
      · have ends : p < first := collect_before_run run low earlier
        exact inductionHypothesis (by omega) (by omega) member
      · subst same
        obtain ⟨beyond, _⟩ := cells_scanFrom _ member
        have skipped : p = a + bufSize := congrArg (a + ·) full
        omega
  | case4 a outside =>
      have nonempty := run.nonempty
      omega

end Runs

theorem memscan_eq (rdram : Rdram) (minlen : UInt32) :
    memscan rdram minlen = scanFrom rdram (max minlen.toNat 4) scanBase := by
  have four : (4 : UInt32).toNat = 4 := rfl
  have least : (if minlen < 4 then 4 else minlen.toNat) = max minlen.toNat 4 := by
    by_cases small : minlen < 4
    · have below := UInt32.lt_iff_toNat_lt.mp small
      rw [if_pos small]
      omega
    · have above := UInt32.le_iff_toNat_le.mp (UInt32.not_lt.mp small)
      rw [if_neg small]
      omega
  unfold memscan
  rw [least]

/-- A wanted run longer than the buffer is not reported whole. -/
theorem not_missesNothing_of_long {rdram : Rdram} {minlen : UInt32} {first last : Nat}
    (wanted : Wanted rdram minlen first last) (long : bufSize < last - first) :
    ¬ MissesNothing rdram minlen (memscan rdram minlen) := by
  intro complete
  have reported := (complete.exactly (first + bufSize) _).mpr
    ⟨⟨first, last, wanted, Nat.le_add_right _ _, by omega⟩, rfl⟩
  rw [memscan_eq] at reported
  exact not_reports_behind_buffer wanted.run long (Nat.le_refl _) wanted.run.low _ reported

/-- The scan misses nothing exactly when no wanted run is longer than its buffer. -/
theorem memscan_missesNothing_iff (rdram : Rdram) (minlen : UInt32) :
    MissesNothing rdram minlen (memscan rdram minlen) ↔
      ∀ first last, Wanted rdram minlen first last → last - first ≤ bufSize := by
  constructor
  · intro complete first last wanted
    by_contra long
    exact not_missesNothing_of_long wanted (Nat.not_le.mp long) complete
  · intro short
    have unsplit : ∀ first last, Wanted rdram minlen first last →
        ¬ (first < scanBase ∧ scanBase < last) := by
      intro first last wanted ⟨below, _⟩
      have low := wanted.run.low
      omega
    have reported := reports_iff short (Nat.le_refl scanBase) unsplit
    rw [memscan_eq]
    refine ⟨cells_ordered, ?_⟩
    intro a byte
    constructor
    · intro member
      obtain ⟨low, high, read⟩ := cells_scanFrom _ member
      obtain ⟨_, inWanted⟩ := (reported a).mp ⟨byte, member⟩
      exact ⟨inWanted, read.trans (scanned_eq low high)⟩
    · intro ⟨inWanted, read⟩
      obtain ⟨first, last, wanted, from_, upto⟩ := id inWanted
      have low : scanBase ≤ a := Nat.le_trans wanted.run.low from_
      obtain ⟨other, member⟩ := (reported a).mpr ⟨low, inWanted⟩
      obtain ⟨_, high, otherRead⟩ := cells_scanFrom _ member
      rw [read, ← scanned_eq low high, ← otherRead]
      exact member

/-- 2049 bytes of kana at the start of RDRAM, and zeros behind them. -/
def longText : Rdram := fun index => if index ^^^ 3 < 2049 then 0xA4 else 0

theorem memscan_misses_long_text :
    ¬ ∀ (rdram : Rdram) (minlen : UInt32),
      MissesNothing rdram minlen (memscan rdram minlen) := by
  intro complete
  have byte : ∀ a, scanBase ≤ a → a < scanEnd →
      guestRb longText (UInt32.ofNat a) = if a - scanBase < 2049 then 0xA4 else 0 := by
    intro a low high
    have offset : a &&& 0x1FFFFFFF = a - scanBase := by
      rw [show 0x1FFFFFFF = 2 ^ 29 - 1 from rfl, Nat.and_two_pow_sub_one_eq_mod]
      unfold scanBase scanEnd at *
      omega
    rw [← scanned_eq low high]
    unfold scanned longText hostIndex
    rw [Nat.xor_assoc, Nat.xor_self, Nat.xor_zero, offset]
  have run : TextRun longText scanBase (scanBase + 2049) := by
    refine ⟨Nat.le_refl _, by decide, by decide, ?_, Or.inl rfl, Or.inr ?_⟩
    · intro a low high
      have inside : a - scanBase < 2049 := by omega
      rw [byte a low (by unfold scanEnd scanBase at *; omega), if_pos inside]
      decide
    · rw [byte _ (by decide) (by decide)]
      decide
  have wanted : Wanted longText 24 scanBase (scanBase + 2049) := by
    refine ⟨run, by decide, scanBase, Nat.le_refl _, by decide, ?_⟩
    rw [byte _ (by decide) (by decide)]
    decide
  exact not_missesNothing_of_long wanted (by decide) (complete longText 24)

end StadiumRecomp.Census
