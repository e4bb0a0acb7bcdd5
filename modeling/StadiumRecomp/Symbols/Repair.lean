import StadiumRecomp.Symbols.Boundary
import StadiumRecomp.Symbols.Partition

/-!
Contract: boundary repair across `derive_boundary_merges` and
`gen_symbols_toml`.

Owns: what one logged pair adds to the accumulated repair and that later pairs
keep it, the reading of the two written files by the generator, and the
end-to-end statement about a repaired function's range, with the adds-file
entries that the repair leaves standing.

Does not own: the recompiler that writes the log.
-/

set_option autoImplicit false

namespace StadiumRecomp.Symbols

open StadiumRecomp.Lib
open StadiumRecomp.Lib.PyInt
open StadiumRecomp.Lib.PyText

/-! ## The entries a pair covers -/

def SortedInts (values : List Int) : Prop := values.Pairwise (· ≤ ·)

theorem sortedInts_sorted (values : List Int) : SortedInts (sortedInts values) := by
  unfold SortedInts sortedInts
  exact List.pairwise_insertionSort _ values

@[simp] theorem mem_sortedInts {values : List Int} {value : Int} :
    value ∈ sortedInts values ↔ value ∈ values := by
  simp [sortedInts]

private theorem mem_takeWhile_of_le {entries : List Int} (sorted : SortedInts entries)
    {value bound : Int} (member : value ∈ entries) (le : value ≤ bound) :
    value ∈ entries.takeWhile (· ≤ bound) := by
  induction entries with
  | nil => simp at member
  | cons head rest inductionHypothesis =>
      obtain ⟨headBefore, restSorted⟩ := List.pairwise_cons.mp sorted
      have headLe : head ≤ bound := by
        rcases List.mem_cons.mp member with rfl | tail
        · exact le
        · exact le_trans (headBefore value tail) le
      rw [List.takeWhile_cons_of_pos (by simpa using headLe)]
      rcases List.mem_cons.mp member with rfl | tail
      · simp
      · exact List.mem_cons_of_mem _ (inductionHypothesis restSorted tail)

/-- `entries[lo:hi]` holds every entry strictly above the start and up to the
target. -/
theorem mem_slice {entries : List Int} (sorted : SortedInts entries)
    {value start target : Int} (member : value ∈ entries) (above : start < value)
    (upTo : value ≤ target) :
    value ∈ (entries.take (Search.bisectRight entries target)).drop
      (Search.bisectRight entries start) := by
  have takeEq : ∀ bound : Int, entries.take (Search.bisectRight entries bound) =
      entries.takeWhile (· ≤ bound) := by
    intro bound
    exact (List.prefix_iff_eq_take.mp (List.takeWhile_prefix _)).symm
  have inTake : value ∈ entries.take (Search.bisectRight entries target) := by
    rw [takeEq]
    exact mem_takeWhile_of_le sorted member upTo
  rw [← List.take_append_drop (Search.bisectRight entries start)
    (entries.take (Search.bisectRight entries target))] at inTake
  rcases List.mem_append.mp inTake with early | late
  · exfalso
    have inStart : value ∈ entries.take (Search.bisectRight entries start) := by
      rw [List.take_take] at early
      exact List.take_subset_take_left entries (min_le_left _ _) early
    rw [takeEq] at inStart
    have le := List.mem_takeWhile_imp inStart
    simp only [decide_eq_true_eq] at le
    omega
  · exact late

/-! ## The repair loop -/

/-- The accumulated repair already covers a logged pair. -/
structure Repair.Covers (resident : List UInt8) (entries : List Int)
    (repair : Repair) (pair : Int × Int) : Prop where
  merged : ∀ vram ∈ entries, pair.1 < vram → vram ≤ pair.2 →
    isJalTarget resident vram = false → vram ∈ repair.merges
  sized : pair.1 < pair.2 →
    pair.2 - pair.1 + 4 ≤ (repair.needSize.get? pair.1).getD 0

/-- What the loop never takes back. -/
structure Repair.Extends (before after : Repair) : Prop where
  merges : before.merges ⊆ after.merges
  needSize : ∀ vram, (before.needSize.get? vram).getD 0 ≤
    (after.needSize.get? vram).getD 0

/-- The minimum sizes are filed once per vram and never negative. -/
structure Repair.Sane (repair : Repair) : Prop where
  distinct : Dict.Distinct repair.needSize
  nonneg : ∀ vram size, repair.needSize.get? vram = some size → 0 ≤ size

section Loop

variable {resident : List UInt8} {entries : List Int}

theorem absorb_needSize (repair : Repair) (vram : Int) :
    (absorb resident repair vram).needSize = repair.needSize := by
  unfold absorb
  split <;> rfl

theorem absorb_merges (repair : Repair) (vram : Int) :
    repair.merges ⊆ (absorb resident repair vram).merges := by
  unfold absorb
  split
  · exact List.Subset.refl _
  · intro other member
    exact List.mem_insert_of_mem member

theorem foldl_absorb_needSize (vrams : List Int) (repair : Repair) :
    (vrams.foldl (absorb resident) repair).needSize = repair.needSize := by
  induction vrams generalizing repair with
  | nil => rfl
  | cons vram vrams inductionHypothesis =>
      rw [List.foldl_cons, inductionHypothesis, absorb_needSize]

theorem foldl_absorb_merges (vrams : List Int) (repair : Repair) :
    repair.merges ⊆ (vrams.foldl (absorb resident) repair).merges := by
  induction vrams generalizing repair with
  | nil => exact List.Subset.refl _
  | cons vram vrams inductionHypothesis =>
      rw [List.foldl_cons]
      exact List.Subset.trans (absorb_merges repair vram) (inductionHypothesis _)

theorem mem_foldl_absorb {vrams : List Int} {vram : Int} (member : vram ∈ vrams)
    (notJal : isJalTarget resident vram = false) (repair : Repair) :
    vram ∈ (vrams.foldl (absorb resident) repair).merges := by
  induction vrams generalizing repair with
  | nil => simp at member
  | cons head rest inductionHypothesis =>
      rw [List.foldl_cons]
      rcases List.mem_cons.mp member with rfl | tail
      · apply foldl_absorb_merges
        simp [absorb, notJal]
      · exact inductionHypothesis tail _

/-- One step only adds to the repair. -/
theorem repairPair_extends (repair : Repair) (pair : Int × Int) :
    repair.Extends (repairPair resident entries repair pair) := by
  unfold repairPair
  simp only
  split
  next grows =>
    refine ⟨foldl_absorb_merges _ _, ?_⟩
    intro vram
    simp only [foldl_absorb_needSize] at grows ⊢
    rw [Dict.get?_set]
    by_cases equal : pair.1 = vram
    · subst equal
      simp only [if_true, Option.getD_some]
      omega
    · simp [equal]
  next =>
    refine ⟨foldl_absorb_merges _ _, ?_⟩
    intro vram
    rw [foldl_absorb_needSize]

/-- One step covers its own pair. -/
theorem repairPair_covers (sorted : SortedInts entries) (repair : Repair)
    (pair : Int × Int) :
    (repairPair resident entries repair pair).Covers resident entries pair := by
  unfold repairPair
  simp only
  split
  next grows =>
    refine ⟨?_, ?_⟩
    · intro vram member above upTo notJal
      exact mem_foldl_absorb (mem_slice sorted member above upTo) notJal _
    · intro _
      simp
  next enough =>
    refine ⟨?_, ?_⟩
    · intro vram member above upTo notJal
      exact mem_foldl_absorb (mem_slice sorted member above upTo) notJal _
    · intro _
      exact not_lt.mp enough

theorem repairPair_sane {repair : Repair} (sane : repair.Sane) (pair : Int × Int) :
    (repairPair resident entries repair pair).Sane := by
  unfold repairPair
  simp only
  split
  next grows =>
    rw [foldl_absorb_needSize] at grows
    refine ⟨?_, ?_⟩
    · simp only [foldl_absorb_needSize]
      exact sane.distinct.set _ _
    · intro vram size found
      simp only [foldl_absorb_needSize, Dict.get?_set] at found
      split at found
      next =>
        cases found
        cases previous : repair.needSize.get? pair.1 with
        | none =>
            simp only [previous, Option.getD_none] at grows
            omega
        | some old =>
            have oldNonneg := sane.nonneg _ _ previous
            simp only [previous, Option.getD_some] at grows
            omega
      next => exact sane.nonneg _ _ found
  next =>
    refine ⟨?_, ?_⟩
    · rw [foldl_absorb_needSize]
      exact sane.distinct
    · intro vram size found
      rw [foldl_absorb_needSize] at found
      exact sane.nonneg _ _ found

theorem Repair.Covers.extend {before after : Repair} {pair : Int × Int}
    (covers : before.Covers resident entries pair) (extends' : before.Extends after) :
    after.Covers resident entries pair where
  merged := fun vram member above upTo notJal =>
    extends'.merges (covers.merged vram member above upTo notJal)
  sized := fun before' => le_trans (covers.sized before') (extends'.needSize pair.1)

/-- A whole run covers every pair it was given, and whatever was covered. -/
theorem foldl_repairPair_covers (sorted : SortedInts entries)
    (pairs : List (Int × Int)) (repair : Repair) {pair : Int × Int}
    (known : pair ∈ pairs ∨ repair.Covers resident entries pair) :
    (pairs.foldl (repairPair resident entries) repair).Covers resident entries pair := by
  induction pairs generalizing repair with
  | nil =>
      rcases known with member | covers
      · simp at member
      · exact covers
  | cons head rest inductionHypothesis =>
      rw [List.foldl_cons]
      apply inductionHypothesis
      rcases known with member | covers
      · rcases List.mem_cons.mp member with rfl | tail
        · exact Or.inr (repairPair_covers sorted repair _)
        · exact Or.inl tail
      · exact Or.inr (covers.extend (repairPair_extends repair head))

theorem foldl_repairPair_sane (pairs : List (Int × Int)) {repair : Repair}
    (sane : repair.Sane) : (pairs.foldl (repairPair resident entries) repair).Sane := by
  induction pairs generalizing repair with
  | nil => exact sane
  | cons head rest inductionHypothesis =>
      exact inductionHypothesis (repairPair_sane sane head)

end Loop

/-! ## Existing files start the loop sanely -/

private theorem loadNeedLine_sane {before after : Dict Int Int} {line : Text}
    (distinct : Dict.Distinct before)
    (nonneg : ∀ vram size, before.get? vram = some size → 0 ≤ size)
    (loaded : loadNeedLine before line = .ok after) :
    Dict.Distinct after ∧ ∀ vram size, after.get? vram = some size → 0 ≤ size := by
  unfold loadNeedLine at loaded
  split at loaded
  · obtain ⟨size, _, loaded⟩ := Outcome.bind_eq_ok loaded
    obtain ⟨vram, _, loaded⟩ := Outcome.bind_eq_ok loaded
    cases loaded
    refine ⟨distinct.set _ _, ?_⟩
    intro other value found
    rw [Dict.get?_set] at found
    split at found
    next =>
      cases found
      cases previous : Dict.get? before vram with
      | none => simp
      | some old =>
          have oldNonneg := nonneg _ _ previous
          simp only [Option.getD_some]
          omega
    next => exact nonneg _ _ found
  · cases loaded

private theorem foldlM_loadNeedLine_sane (lines : List Text)
    {before after : Dict Int Int} (distinct : Dict.Distinct before)
    (nonneg : ∀ vram size, before.get? vram = some size → 0 ≤ size)
    (loaded : lines.foldlM loadNeedLine before = .ok after) :
    Dict.Distinct after ∧ ∀ vram size, after.get? vram = some size → 0 ≤ size := by
  induction lines generalizing before with
  | nil =>
      cases loaded
      exact ⟨distinct, nonneg⟩
  | cons line lines inductionHypothesis =>
      rw [List.foldlM_cons] at loaded
      obtain ⟨next, lineOk, loaded⟩ := Outcome.bind_eq_ok loaded
      obtain ⟨nextDistinct, nextNonneg⟩ := loadNeedLine_sane distinct nonneg lineOk
      exact inductionHypothesis nextDistinct nextNonneg loaded

theorem loadExisting_sane {merges sizes : Option Text} {repair : Repair}
    (loaded : loadExisting merges sizes = .ok repair) : repair.Sane := by
  obtain ⟨oldMerges, _, loaded⟩ := Outcome.bind_eq_ok loaded
  obtain ⟨needSize, needOk, finished⟩ := Outcome.bind_eq_ok loaded
  cases finished
  cases sizes with
  | none =>
      cases needOk
      exact ⟨List.nodup_nil, by simp⟩
  | some file =>
      obtain ⟨distinct, nonneg⟩ := foldlM_loadNeedLine_sane (dataLines file)
        Dict.Distinct.nil (by simp) needOk
      exact ⟨distinct, nonneg⟩

/-! ## The generator reads the written files back -/

theorem number_line_data {line : Text} (nonempty : line ≠ [])
    (plain : ∀ symbol ∈ line,
      isHexDigit symbol = true ∨ symbol = 'x' ∨ symbol = '-') :
    line ≠ [] ∧ stripComment line = line ∧
      ∀ symbol ∈ line, symbol ≠ '\n' ∧ symbol ≠ '\r' := by
  refine ⟨nonempty, ?_, ?_⟩
  · apply stripComment_eq_self
    · intro symbol member
      simp [isHash, (plain_of_number_symbol (plain symbol member)).2.2.2]
    · intro symbol first
      exact (plain_of_number_symbol (plain symbol (List.mem_of_mem_head? first))).1
    · intro symbol last
      exact (plain_of_number_symbol (plain symbol (List.mem_of_mem_getLast? last))).1
  · intro symbol member
    obtain ⟨_, notNewline, notReturn, _⟩ := plain_of_number_symbol (plain symbol member)
    exact ⟨notNewline, notReturn⟩

/-- A header line is a comment and holds no line break. -/
def isHeaderLine (line : Text) : Bool :=
  line.head? == some '#' && line.all (fun symbol => symbol != '\n' && symbol != '\r')

theorem isHeaderLine_plain {header : List Text}
    (checked : header.all isHeaderLine = true) : ∀ line ∈ header,
    (∃ rest, line = '#' :: rest) ∧ ∀ symbol ∈ line, symbol ≠ '\n' ∧ symbol ≠ '\r' := by
  intro line member
  have lineChecked := List.all_eq_true.mp checked line member
  simp only [isHeaderLine, Bool.and_eq_true, beq_iff_eq, List.all_eq_true,
    bne_iff_ne] at lineChecked
  refine ⟨?_, lineChecked.2⟩
  cases line with
  | nil => simp at lineChecked
  | cons symbol rest =>
      have same : symbol = '#' := by simpa using lineChecked.1
      exact ⟨rest, by rw [same]⟩

private theorem mergesHeader_plain : ∀ line ∈ mergesHeader,
    (∃ rest, line = '#' :: rest) ∧ ∀ symbol ∈ line, symbol ≠ '\n' ∧ symbol ≠ '\r' :=
  isHeaderLine_plain (by decide)

theorem sizesHeader_plain : ∀ line ∈ sizesHeader,
    (∃ rest, line = '#' :: rest) ∧ ∀ symbol ∈ line, symbol ≠ '\n' ∧ symbol ≠ '\r' :=
  isHeaderLine_plain (by decide)

theorem fmtHex08_nonempty (value : Int) : fmtHex08 value ≠ [] := by
  simp [fmtHex08]

theorem dataLines_writeMerges (merges : List Int) :
    dataLines (writeMerges merges) = (sortedInts merges).map fmtHex08 := by
  have numbers : ∀ line ∈ (sortedInts merges).map fmtHex08, line ≠ [] ∧
      stripComment line = line ∧ ∀ symbol ∈ line, symbol ≠ '\n' ∧ symbol ≠ '\r' := by
    intro line member
    obtain ⟨value, _, rfl⟩ := List.mem_map.mp member
    exact number_line_data (fmtHex08_nonempty value)
      (fun symbol inside => symbol_of_mem_fmtHex08 inside)
  apply dataLines_written
  · intro line member
    exact (mergesHeader_plain line member).1
  · intro line member
    rcases List.mem_append.mp member with header | data
    · exact (mergesHeader_plain line header).2
    · exact (numbers line data).2.2
  · exact fun line member => (numbers line member).1
  · exact fun line member => (numbers line member).2.1

/-- A `vram size` line is its own data, on one line. -/
theorem sizeEntry_data (vram size : Int) :
    fmtHex08 vram ++ ' ' :: fmtHex size ≠ [] ∧
      stripComment (fmtHex08 vram ++ ' ' :: fmtHex size) =
        fmtHex08 vram ++ ' ' :: fmtHex size ∧
      ∀ symbol ∈ fmtHex08 vram ++ ' ' :: fmtHex size, symbol ≠ '\n' ∧ symbol ≠ '\r' := by
  have shape : ∀ symbol ∈ fmtHex08 vram ++ ' ' :: fmtHex size, symbol = ' ' ∨
      isHexDigit symbol = true ∨ symbol = 'x' ∨ symbol = '-' := by
    intro symbol member
    simp only [List.mem_append, List.mem_cons] at member
    rcases member with inside | blank | inside
    · exact Or.inr (symbol_of_mem_fmtHex08 inside)
    · exact Or.inl blank
    · exact Or.inr (symbol_of_mem_fmtHex inside)
  have lastNumber : ∀ symbol ∈ (fmtHex08 vram ++ ' ' :: fmtHex size).getLast?,
      pySpace symbol = false := by
    intro symbol last
    have lastEq : (fmtHex08 vram ++ ' ' :: fmtHex size).getLast? = (fmtHex size).getLast? := by
      rw [List.getLast?_append_of_ne_nil _ (by simp)]
      rw [List.getLast?_cons]
      simp [fmtHex, List.getLast?_cons]
    rw [lastEq] at last
    exact (plain_of_number_symbol
      (symbol_of_mem_fmtHex (List.mem_of_mem_getLast? last))).1
  refine ⟨by simp, ?_, ?_⟩
  · apply stripComment_eq_self
    · intro symbol member
      rcases shape symbol member with rfl | number
      · rfl
      · simp [isHash, (plain_of_number_symbol number).2.2.2]
    · intro symbol first
      simp only [fmtHex08, List.cons_append, List.head?_cons,
        Option.mem_def, Option.some.injEq] at first
      subst first
      rfl
    · exact lastNumber
  · intro symbol member
    rcases shape symbol member with rfl | number
    · decide
    · obtain ⟨_, notNewline, notReturn, _⟩ := plain_of_number_symbol number
      exact ⟨notNewline, notReturn⟩

/-- It splits into its two numbers. -/
theorem words_sizeEntry (vram size : Int) :
    Text.words pySpace (fmtHex08 vram ++ ' ' :: fmtHex size) = [fmtHex08 vram, fmtHex size] := by
  apply Text.words_pair
  · intro symbol member
    exact (plain_of_number_symbol (symbol_of_mem_fmtHex08 member)).1
  · intro symbol member
    exact (plain_of_number_symbol (symbol_of_mem_fmtHex member)).1
  · exact fmtHex08_nonempty vram
  · simp [fmtHex]
  · rfl

theorem dataLines_writeSizes (needSize : Dict Int Int) :
    dataLines (writeSizes needSize) =
      (sortedInts (needSize.map Prod.fst)).map (sizeLine needSize) := by
  have numbers : ∀ line ∈ (sortedInts (needSize.map Prod.fst)).map (sizeLine needSize),
      line ≠ [] ∧ stripComment line = line ∧
        ∀ symbol ∈ line, symbol ≠ '\n' ∧ symbol ≠ '\r' := by
    intro line member
    obtain ⟨vram, _, rfl⟩ := List.mem_map.mp member
    exact sizeEntry_data vram _
  apply dataLines_written
  · intro line member
    exact (sizesHeader_plain line member).1
  · intro line member
    rcases List.mem_append.mp member with header | data
    · exact (sizesHeader_plain line header).2
    · exact (numbers line data).2.2
  · exact fun line member => (numbers line member).1
  · exact fun line member => (numbers line member).2.1

theorem int0_fmtHex08_of_nonneg {value : Int} (nonneg : 0 ≤ value) :
    int0 (fmtHex08 value) = some value := by
  have read := int0_fmtHex08 value.toNat
  rwa [Int.toNat_of_nonneg nonneg] at read

theorem int0_fmtHex_of_nonneg {value : Int} (nonneg : 0 ≤ value) :
    int0 (fmtHex value) = some value := by
  have read := int0_fmtHex value.toNat
  rwa [Int.toNat_of_nonneg nonneg] at read

/-- Every merge reaches the generator's drop set. A negative one would stop the
generator at that line. -/
theorem mem_of_loadAddrFile_writeMerges {merges drops : List Int}
    (loaded : loadAddrFile (some (writeMerges merges)) = .ok drops) {vram : Int}
    (member : vram ∈ merges) : vram ∈ drops := by
  change (dataLines (writeMerges merges)).mapM
    (fun line => orValueError (int0 line)) = .ok drops at loaded
  rw [dataLines_writeMerges] at loaded
  obtain ⟨output, outputMember, ok⟩ := Outcome.exists_output_of_mem loaded
    (List.mem_map.mpr ⟨vram, by simpa using member, rfl⟩)
  by_cases nonneg : 0 ≤ vram
  · rw [int0_fmtHex08_of_nonneg nonneg] at ok
    cases ok
    exact outputMember
  · rw [int0_fmtHex08_negative (by omega)] at ok
    cases ok

/-- The only thing a written size line can parse to. -/
private theorem parseSizeLine_sizeLine {needSize : Dict Int Int} {vram : Int}
    (sizeNonneg : 0 ≤ (needSize.get? vram).getD 0) {output : Int × Int}
    (parsed : parseSizeLine (sizeLine needSize vram) = .ok output) :
    output = (vram, (needSize.get? vram).getD 0) := by
  have split := words_sizeEntry vram ((needSize.get? vram).getD 0)
  unfold parseSizeLine sizeLine at parsed
  rw [split] at parsed
  simp only [int0_fmtHex_of_nonneg sizeNonneg] at parsed
  by_cases nonneg : 0 ≤ vram
  · rw [int0_fmtHex08_of_nonneg nonneg] at parsed
    cases parsed
    rfl
  · rw [int0_fmtHex08_negative (by omega)] at parsed
    cases parsed

/-- The generator reads each needed size as that vram's override. -/
theorem get?_of_loadSizes_writeSizes {repair : Repair} (sane : repair.Sane)
    {overrides : Dict Int Int}
    (loaded : loadSizes (some (writeSizes repair.needSize)) = .ok overrides)
    {vram size : Int} (found : repair.needSize.get? vram = some size) :
    overrides.get? vram = some size := by
  obtain ⟨entries, parsed, finish⟩ := Outcome.bind_eq_ok loaded
  cases finish
  rw [dataLines_writeSizes] at parsed
  have entriesEq : entries = (sortedInts (repair.needSize.map Prod.fst)).map
      (fun vram => (vram, (repair.needSize.get? vram).getD 0)) := by
    apply Outcome.mapM_eq_map parsed
    intro other _ output ok
    apply parseSizeLine_sizeLine _ ok
    cases stored : repair.needSize.get? other with
    | none => simp
    | some value => simpa using sane.nonneg other value stored
  have listed : vram ∈ sortedInts (repair.needSize.map Prod.fst) := by
    rw [mem_sortedInts]
    exact List.mem_map.mpr ⟨(vram, size), Dict.mem_of_get? found, rfl⟩
  rw [Dict.get?_writes, entriesEq, Dict.lastWrite_map_of_mem _ _ listed, found]
  rfl

/-! ## End to end -/

/-- A successful derivation, as the repair its two files were written from. -/
theorem deriveBoundaryMerges_eq_ok {log : Text} {resident : List UInt8}
    {vrams : List JsonInt} {merges sizes : Option Text} {newMerges newSizes : Text}
    (derived : deriveBoundaryMerges log resident vrams merges sizes =
      .ok (newMerges, newSizes)) :
    ∃ (entries : List Int) (repair : Repair), entryVrams vrams (loggedPairs log) = .ok entries ∧
      repair.Sane ∧
      (SortedInts entries → ∀ pair ∈ loggedPairs log,
        repair.Covers resident entries pair) ∧
      newMerges = writeMerges repair.merges ∧
      newSizes = writeSizes repair.needSize := by
  obtain ⟨entries, entriesOk, derived⟩ := Outcome.bind_eq_ok derived
  obtain ⟨existing, existingOk, derived⟩ := Outcome.bind_eq_ok derived
  cases derived
  refine ⟨entries, _, entriesOk,
    foldl_repairPair_sane _ (loadExisting_sane existingOk), ?_, rfl, rfl⟩
  intro sorted pair member
  exact foldl_repairPair_covers sorted _ _ (Or.inl member)

/-- With at least one logged pair, the entries are exactly the integer vrams,
sorted, and there is no string vram. -/
theorem entryVrams_eq_ok {vrams : List JsonInt} {pairs : List (Int × Int)}
    (nonempty : pairs ≠ []) {entries : List Int}
    (ok : entryVrams vrams pairs = .ok entries) :
    SortedInts entries ∧ ∀ vram ∈ vrams, ∃ value ∈ entries, vram = .int value := by
  unfold entryVrams at ok
  split at ok
  next values allInts =>
    cases ok
    refine ⟨sortedInts_sorted _, ?_⟩
    intro vram member
    obtain ⟨value, valueMember, same⟩ := Outcome.exists_output_of_mem allInts member
    refine ⟨value, by simpa using valueMember, ?_⟩
    cases vram with
    | int other =>
        cases same
        rfl
    | str text => cases same
  next =>
    split at ok
    next noPairs =>
      simp only [Bool.and_eq_true, List.isEmpty_iff] at noPairs
      exact absurd noPairs.1 nonempty
    next => cases ok

/-- The generator's side files after a derivation. -/
def SideFiles.afterDerivation (files : SideFiles) (newMerges newSizes : Text) :
    SideFiles :=
  { files with merges := some newMerges, sizes := some newSizes }

/-- An adds-file entry strictly above `start` and up to `target` is removed by
the drops or merges the generator reads. -/
def AddsRemoved (inputs : Inputs) (start target : Int) : Prop :=
  ∀ vram, (inputs.adds.get? vram).isSome → start < vram → vram ≤ target →
    vram ∈ inputs.drops

section EndToEnd

variable {bounds : Section} {inputs : Inputs}

/-- A wanted size that reaches past `target` survives the size rule when the gap
does, both ends being word aligned. -/
theorem target_le_finalSize {override size start target gap : Int}
    (startAligned : start % 4 = 0) (targetAligned : target % 4 = 0)
    (above : start < target) (wanted : target - start + 4 ≤ max override size)
    (room : target - start + 4 ≤ gap) :
    target + 4 ≤ start + finalSize override gap size := by
  unfold finalSize
  simp only
  have raised : (if override > size then override else size) = max override size := by
    split <;> omega
  rw [raised]
  split <;> split <;> omega

/-- When every declared entry up to the target is dropped, the next emitted
entry lies past the target's word. -/
theorem target_lt_nextVram (wellFormed : inputs.WellFormed) {out earlier later : List Fn}
    {fn : Fn} (clean : out = (clampSizes bounds inputs.sizeOverrides
      (listed bounds inputs)).map (applyRename inputs.renames))
    (split : out = earlier ++ fn :: later) {target : Int}
    (targetAligned : target % 4 = 0) (inside : target + 4 ≤ bounds.hi)
    (removed : ∀ vram, inputs.Declares vram → fn.vram < vram → vram ≤ target →
      vram ∈ inputs.drops) :
    target + 4 ≤ nextVram bounds later := by
  cases later with
  | nil => exact inside
  | cons next later =>
      have splitNext : (clampSizes bounds inputs.sizeOverrides (listed bounds inputs)).map
          (applyRename inputs.renames) = (earlier ++ [fn]) ++ next :: later := by
        rw [← clean, split]
        simp
      obtain ⟨_, _, _, _, _, before⟩ := emitted_entry wellFormed (clean ▸ split)
      obtain ⟨source, ownerEq, kept, _, _, _⟩ := emitted_entry wellFormed splitNext
      have declared : inputs.Declares next.vram := by
        rw [← Inputs.owner_isSome_iff, ownerEq]
        rfl
      obtain ⟨_, _, nextAligned, notDropped⟩ := (keeps_iff next.vram).mp kept
      have past : target < next.vram := by
        by_contra notPast
        exact notDropped (removed next.vram declared before (by omega))
      change target + 4 ≤ next.vram
      omega

end EndToEnd

theorem parseInt_of_parseFunction {raw : RawFunction} {fn : Fn}
    (parsed : parseFunction raw = .ok fn) : parseInt raw.vram = .ok fn.vram := by
  obtain ⟨vram, vramOk, parsed⟩ := Outcome.bind_eq_ok parsed
  obtain ⟨size, _, parsed⟩ := Outcome.bind_eq_ok parsed
  cases parsed
  exact vramOk

theorem emit_eq_ok {bounds : Section} {inputs : Inputs} {out : List Fn}
    (emitted : emit bounds inputs = .ok out) :
    out = (clampSizes bounds inputs.sizeOverrides (listed bounds inputs)).map
      (applyRename inputs.renames) := by
  unfold emit at emitted
  simp only at emitted
  split at emitted
  · cases emitted
  · cases emitted
    rfl

/-- The size kept for a covered pair reaches behind its target. -/
theorem Repair.Covers.exists_size {resident : List UInt8} {entries : List Int} {repair : Repair}
    {start target : Int} (covers : repair.Covers resident entries (start, target))
    (above : start < target) :
    ∃ size, repair.needSize.get? start = some size ∧ target - start + 4 ≤ size := by
  have sized := covers.sized above
  simp only at sized
  cases stored : repair.needSize.get? start with
  | none =>
      rw [stored, Option.getD_none] at sized
      omega
  | some size => exact ⟨size, rfl, by simpa [stored] using sized⟩

/-- After a derivation and a generation, the emitted range of a logged function
contains the whole word at its branch target, provided no `functions.json` entry
on the way is a `jal` destination and every adds-file entry on the way is
dropped or merged. -/
theorem boundaryRepair_covers_target (bounds : Section) (files : SideFiles)
    (raw : List RawFunction) (log : Text) (resident : List UInt8)
    (merges sizes : Option Text) (newMerges newSizes : Text)
    (derived : deriveBoundaryMerges log resident (raw.map RawFunction.vram)
      merges sizes = .ok (newMerges, newSizes))
    (inputs : Inputs)
    (read : readInputs (files.afterDerivation newMerges newSizes) raw = .ok inputs)
    (out : List Fn)
    (generated : genSymbolsToml bounds (files.afterDerivation newMerges newSizes)
      raw = .ok out)
    (start target : Int) (logged : (start, target) ∈ loggedPairs log)
    (targetAligned : target % 4 = 0) (above : start < target)
    (inside : target + 4 ≤ bounds.hi)
    (fn : Fn) (emitted : fn ∈ out) (atStart : fn.vram = start)
    (noJal : ∀ entry ∈ inputs.functions, start < entry.vram → entry.vram ≤ target →
      isJalTarget resident entry.vram = false)
    (addsRemoved : AddsRemoved inputs start target) :
    target + 4 ≤ fn.vram + fn.size := by
  have wellFormed := readInputs_wellFormed read
  obtain ⟨drops, newDrops, _, mergesOk, dropsEq, sizesOk, _, _, functionsOk⟩ :=
    readInputs_eq_ok read
  obtain ⟨entries, repair, entriesOk, sane, covers, rfl, rfl⟩ :=
    deriveBoundaryMerges_eq_ok derived
  obtain ⟨sorted, allInts⟩ :=
    entryVrams_eq_ok (List.ne_nil_of_mem logged) entriesOk
  have covered := covers sorted _ logged
  -- Every declared entry on the way is in the generator's drop set.
  have removed : ∀ vram, inputs.Declares vram → start < vram → vram ≤ target →
      vram ∈ inputs.drops := by
    rintro vram (⟨entry, member, rfl⟩ | isAdd) after upTo
    · obtain ⟨rawEntry, rawMember, parsed⟩ := Outcome.exists_of_mem_mapM functionsOk member
      obtain ⟨value, listed, rawVram⟩ :=
        allInts rawEntry.vram (List.mem_map.mpr ⟨rawEntry, rawMember, rfl⟩)
      have vramOk := parseInt_of_parseFunction parsed
      rw [rawVram] at vramOk
      cases vramOk
      have merged := covered.merged entry.vram listed after upTo
        (noJal entry member after upTo)
      rw [dropsEq]
      exact List.mem_append_right _ (mem_of_loadAddrFile_writeMerges mergesOk merged)
    · exact addsRemoved vram isAdd after upTo
  -- The generator's override at the start is the accumulated minimum size.
  obtain ⟨size, stored, enough⟩ := covered.exists_size above
  have override := get?_of_loadSizes_writeSizes sane sizesOk stored
  rw [genSymbolsToml_of_read read] at generated
  have clean := emit_eq_ok generated
  obtain ⟨earlier, later, split⟩ := List.append_of_mem emitted
  subst atStart
  have room := target_lt_nextVram wellFormed clean split targetAligned inside removed
  obtain ⟨source, _, kept, _, sizeEq, _⟩ := emitted_entry wellFormed (clean ▸ split)
  rw [override, Option.getD_some] at sizeEq
  rw [sizeEq]
  exact target_le_finalSize ((keeps_iff fn.vram).mp kept).2.2.1 targetAligned above
    (by omega) (by omega)

/-- An override from an earlier pass, an over-split fragment and a dropped add. -/
theorem boundaryRepair_covers_target_example : (0x80000480 : Int) + 4 ≤
    0x80000400 + 0x84 :=
  boundaryRepair_covers_target ⟨0x80000400, 0x7FC00⟩
    ⟨some "0x80000440 # data".toList, none, none, none,
      some "0x80000440 0x10 thread".toList⟩
    [⟨"entry".toList, .int 0x80000400, some (.int 0x20)⟩,
      ⟨"fragment".toList, .int 0x80000420, some (.int 0x20)⟩]
    "Function FUN_80000400 is branching outside of the function (to 0x80000480)".toList
    [] none (some "0x80000400 0x40".toList)
    (writeMerges [0x80000420]) (writeSizes [(0x80000400, 0x84)]) (by rfl)
    ⟨[0x80000440, 0x80000420], [(0x80000400, 0x84)], [],
      [(0x80000440, ⟨"thread".toList, 0x80000440, 0x10⟩)],
      [⟨"entry".toList, 0x80000400, 0x20⟩, ⟨"fragment".toList, 0x80000420, 0x20⟩]⟩
    (by rfl)
    [⟨"entry".toList, 0x80000400, 0x84⟩] (by rfl) 0x80000400 0x80000480 (by decide)
    (by decide) (by decide) (by decide) ⟨"entry".toList, 0x80000400, 0x84⟩
    (List.mem_singleton_self _) rfl (by decide) (by
      intro vram isAdd above upTo
      obtain ⟨add, found⟩ := Option.isSome_iff_exists.mp isAdd
      obtain ⟨rfl, -⟩ := Prod.mk.inj (List.mem_singleton.mp (Dict.mem_of_get? found))
      decide)

/-- An add on the way that is no `jal` destination stays, so the range stops at
it: the repair never looks at the adds file. -/
theorem boundaryRepair_stops_at_add :
    deriveBoundaryMerges
        "Function FUN_80000400 is branching outside of the function (to 0x80000480)".toList
        [] [.int 0x80000400] none none =
      .ok (writeMerges [], writeSizes [(0x80000400, 0x84)]) ∧
    genSymbolsToml ⟨0x80000400, 0x7FC00⟩
        (SideFiles.afterDerivation
          ⟨none, none, none, none, some "0x80000440 0x10 thread".toList⟩
          (writeMerges []) (writeSizes [(0x80000400, 0x84)]))
        [⟨"entry".toList, .int 0x80000400, some (.int 0x20)⟩] =
      .ok [⟨"entry".toList, 0x80000400, 0x40⟩, ⟨"thread".toList, 0x80000440, 0x10⟩] ∧
    isJalTarget [] 0x80000440 = false ∧
    ¬ (0x80000480 : Int) + 4 ≤ 0x80000400 + 0x40 := by
  refine ⟨by rfl, by rfl, by decide, by decide⟩

end StadiumRecomp.Symbols
