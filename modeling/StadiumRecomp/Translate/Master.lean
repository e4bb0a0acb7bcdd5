import Mathlib.Data.List.Sort
import StadiumRecomp.Lib.Dict
import StadiumRecomp.Translate.Dump

/-!
Contract: `strings_decoded.tsv`, the persistent master of `pms_build_translations.py decode`.

Owns: `load_tsv`, `write_tsv` and `cmd_decode`, and that a written master reads back as its rows,
in the order of the file and with the Japanese on one line.

Does not own: the dump, the printed statistics, and the byte encoding of the file.
-/

set_option autoImplicit false

namespace StadiumRecomp.Translate

open StadiumRecomp.Lib
open StadiumRecomp.Lib.HexText
open StadiumRecomp.Lib.PyInt
open StadiumRecomp.Lib.PyText
open StadiumRecomp.Guest (isTextByte)

/-! ## Writing -/

/-- One symbol of `jp.replace("\t", " ").replace("\n", "\\n")`. -/
def flatSymbol (symbol : Char) : Text :=
  if symbol = '\t' then [' '] else if symbol = '\n' then ['\\', 'n'] else [symbol]

def flatten (jp : Text) : Text := jp.flatMap flatSymbol

/-- A row as it stands in the file. -/
def MasterRow.flat (row : MasterRow) : MasterRow := { row with jp := flatten row.jp }

def tsvFields (row : MasterRow) : List Text :=
  [row.key, decimal row.count, decimal row.x, decimal row.y, row.srcHex, flatten row.jp]

def tsvLine (row : MasterRow) : Text := ((tsvFields row).intersperse ['\t']).flatten

def tsvHeader : Text := "key\tcount\tx\ty\tsrc_hex\tjp".toList

/-- `sorted(rows, key=lambda r: -r["count"])`. -/
def sortRows (rows : List MasterRow) : List MasterRow :=
  rows.insertionSort fun left right => -left.count ≤ -right.count

/-- `write_tsv`. -/
def writeTsv (rows : List MasterRow) : Text :=
  Text.unlines '\n' (tsvHeader :: (sortRows rows).map tsvLine)

/-! ## Reading -/

/-- `int(p) if digits.isdigit() else 0`, none where `int` raises. -/
def intField (digits p : Text) : Option Int := if isDigits digits then int10 p else some 0

/-- A line behind the header. The inner `none` passes over it, the outer one raises. -/
def parseTsvLine (line : Text) : Option (Option MasterRow) :=
  match line.splitOn '\t' with
  | key :: count :: x :: y :: srcHex :: jp :: _ => do
      let count ← intField count count
      let x ← intField (x.dropWhile (· == '-')) x
      let y ← intField (y.dropWhile (· == '-')) y
      return some ⟨key, count, x, y, srcHex, jp⟩
  | _ => some none

/-- `load_tsv`, none where it raises. -/
def loadTsv : Option Text → Option (Dict Text MasterRow)
  | none => some []
  | some file => do
      let rows ← ((splitlines (universalNewlines file)).drop 1).mapM parseTsvLine
      return Dict.writes [] (rows.reduceOption.map fun row => (row.key, row))

/-! ## One run -/

/-- A row of the dump over what the master has: the higher count, the latest coordinates. -/
def mergeRow (known : Option MasterRow) (row : MasterRow) : MasterRow :=
  match known with
  | some old => { row with count := max row.count old.count }
  | none => row

def record (master : Dict Text MasterRow) (row : MasterRow) : Dict Text MasterRow :=
  master.set row.key (mergeRow (master.get? row.key) row)

/-- The master with the rows of a dump. -/
def absorb (master : Dict Text MasterRow) (rows : List MasterRow) : Dict Text MasterRow :=
  rows.foldl record master

/-- `cmd_decode`: the file it writes, none where it raises. -/
def cmdDecode (codec : Codec) (dump tsv : Option Text) : Option Text := do
  let master ← loadTsv tsv
  let rows ← parseDump codec dump
  return writeTsv ((absorb master rows).map Prod.snd)

/-! ## Plain rows -/

/-- The codec makes no line separator but the newline of text bytes. -/
def PlainCodec (codec : Codec) : Prop :=
  ∀ bytes text, (∀ c ∈ bytes, isTextByte c = true) → codec bytes = some text →
    ∀ symbol ∈ text, isLineBoundary symbol = true → symbol = '\n'

/-- A row that survives being written. -/
structure PlainRow (row : MasterRow) : Prop where
  key : ∀ symbol ∈ row.key, pySpace symbol = false
  count : 0 ≤ row.count
  x : 0 ≤ row.x
  y : 0 ≤ row.y
  srcHex : ∀ symbol ∈ row.srcHex, pySpace symbol = false
  jp : ∀ symbol ∈ row.jp, isLineBoundary symbol = true → symbol = '\n'

theorem escapedByte_plain {byte : UInt8} {symbol : Char} (member : symbol ∈ escapedByte byte) :
    isLineBoundary symbol = false := by
  unfold escapedByte at member
  rcases List.mem_cons.mp member with rfl | member
  · decide
  rcases List.mem_cons.mp member with rfl | member
  · decide
  exact isLineBoundary_of_not_pySpace (not_pySpace_of_mem_hexByte member)

section Decoding

variable {codec : Codec} (plain : PlainCodec codec)

include plain

theorem getD_escapedByte_plain {byte : UInt8} (isText : isTextByte byte = true) :
    ∀ symbol ∈ (codec [byte]).getD (escapedByte byte),
      isLineBoundary symbol = true → symbol = '\n' := by
  intro symbol member boundary
  cases decoded : codec [byte] with
  | none =>
      rw [decoded] at member
      rw [escapedByte_plain member] at boundary
      cases boundary
  | some text =>
      rw [decoded] at member
      exact plain [byte] text (List.forall_mem_singleton.mpr isText) decoded symbol member boundary

theorem decodePieces_plain {b : Bytes} (texts : ∀ c ∈ b, isTextByte c = true) :
    ∀ symbol ∈ decodePieces codec b, isLineBoundary symbol = true → symbol = '\n' := by
  induction b using decodePieces.induct codec with
  | case1 =>
      intro symbol member
      cases member
  | case2 byte => exact getD_escapedByte_plain plain (texts byte List.mem_cons_self)
  | case3 byte next rest text decoded inductionHypothesis =>
      rw [decodePieces, decoded]
      intro symbol member boundary
      rcases List.mem_append.mp member with inPair | later
      · apply plain [byte, next] text _ decoded symbol inPair boundary
        intro c inside
        exact texts c (List.mem_append_left rest inside)
      · exact inductionHypothesis (fun c inside =>
          texts c (List.mem_cons_of_mem _ (List.mem_cons_of_mem _ inside))) symbol later boundary
  | case4 byte next rest failed inductionHypothesis =>
      rw [decodePieces, failed]
      intro symbol member boundary
      rcases List.mem_append.mp member with first | later
      · exact getD_escapedByte_plain plain (texts byte List.mem_cons_self) symbol first boundary
      · exact inductionHypothesis (fun c inside => texts c (List.mem_cons_of_mem _ inside))
          symbol later boundary

theorem decodeEuc_plain {b : Bytes} (texts : ∀ c ∈ b, isTextByte c = true) :
    ∀ symbol ∈ decodeEuc codec b, isLineBoundary symbol = true → symbol = '\n' := by
  unfold decodeEuc
  cases decoded : codec b with
  | none => exact decodePieces_plain plain texts
  | some text => exact plain b text texts decoded

theorem plainRow_rowOf {slot : Census.StrInvEntry} (texts : ∀ c ∈ slot.bytes, isTextByte c = true) :
    PlainRow (rowOf codec slot) where
  key _ member := not_pySpace_of_mem_slotKey member
  count := Int.natCast_nonneg _
  x := Int.natCast_nonneg _
  y := Int.natCast_nonneg _
  srcHex _ member := not_pySpace_of_mem_hexText member
  jp := decodeEuc_plain plain texts

end Decoding

/-! ## A line of the file -/

theorem flatten_flatten (jp : Text) : flatten (flatten jp) = flatten jp := by
  have symbols (symbol : Char) : flatten (flatSymbol symbol) = flatSymbol symbol := by
    unfold flatSymbol
    split
    · rfl
    · split
      · rfl
      next notTab notNewline =>
        show flatSymbol symbol ++ [] = _
        unfold flatSymbol
        rw [if_neg notTab, if_neg notNewline, List.append_nil]
  show ((jp.flatMap flatSymbol).flatMap flatSymbol) = _
  rw [List.flatMap_assoc]
  exact congrArg (fun write => jp.flatMap write) (funext symbols)

theorem MasterRow.flat_flat (row : MasterRow) : row.flat.flat = row.flat :=
  congrArg (fun jp => { row with jp := jp }) (flatten_flatten row.jp)

/-- Flattened text has no tab and no line break. -/
theorem flatten_plain {jp : Text}
    (plain : ∀ symbol ∈ jp, isLineBoundary symbol = true → symbol = '\n') :
    ∀ symbol ∈ flatten jp, symbol ≠ '\t' ∧ isLineBoundary symbol = false := by
  intro symbol member
  obtain ⟨source, inJp, written⟩ := List.mem_flatMap.mp member
  unfold flatSymbol at written
  split at written
  · rw [List.mem_singleton.mp written]
    decide
  · split at written
    · rcases List.mem_cons.mp written with rfl | last
      · decide
      · rw [List.mem_singleton.mp last]
        decide
    next notTab notNewline =>
      rw [List.mem_singleton.mp written]
      refine ⟨notTab, ?_⟩
      cases boundary : isLineBoundary source with
      | false => rfl
      | true => exact absurd (plain source inJp boundary) notNewline

theorem ne_tab_of_not_pySpace {symbol : Char} (plain : pySpace symbol = false) : symbol ≠ '\t' := by
  rintro rfl
  exact absurd plain (by decide)

theorem dropWhile_sign_decimal (value : Nat) :
    (decimal value).dropWhile (· == '-') = decimal value := by
  cases digits : decimal value with
  | nil => rfl
  | cons head rest =>
      apply List.dropWhile_cons_of_neg
      have member : head ∈ decimal value := digits ▸ List.mem_cons_self
      rw [decimal_natCast] at member
      simpa using (plain_of_decimalDigit (digitVal_of_mem_decimal member)).2.1

theorem mem_tsvLine {row : MasterRow} {symbol : Char} (member : symbol ∈ tsvLine row) :
    symbol = '\t' ∨ ∃ field ∈ tsvFields row, symbol ∈ field := by
  have pieces (fields : List Text) (inside : symbol ∈ (fields.intersperse ['\t']).flatten) :
      symbol = '\t' ∨ ∃ field ∈ fields, symbol ∈ field := by
    induction fields with
    | nil => cases inside
    | cons first rest inductionHypothesis =>
        cases rest with
        | nil => exact Or.inr ⟨first, List.mem_cons_self, by simpa using inside⟩
        | cons second rest =>
            rw [List.intersperse_cons_cons, List.flatten_cons, List.flatten_cons] at inside
            rcases List.mem_append.mp inside with inFirst | later
            · exact Or.inr ⟨first, List.mem_cons_self, inFirst⟩
            rcases List.mem_append.mp later with separator | later
            · exact Or.inl (List.mem_singleton.mp separator)
            · apply (inductionHypothesis later).imp_right
              intro ⟨field, inFields, inField⟩
              exact ⟨field, List.mem_cons_of_mem _ inFields, inField⟩
  exact pieces _ member

section Line

variable {row : MasterRow} (plain : PlainRow row)

include plain

theorem tsvFields_plain : ∀ field ∈ tsvFields row, ∀ symbol ∈ field,
    symbol ≠ '\t' ∧ isLineBoundary symbol = false := by
  have blankless {field : Text} (noBlank : ∀ symbol ∈ field, pySpace symbol = false) :
      ∀ symbol ∈ field, symbol ≠ '\t' ∧ isLineBoundary symbol = false := by
    intro symbol member
    exact ⟨ne_tab_of_not_pySpace (noBlank symbol member),
      isLineBoundary_of_not_pySpace (noBlank symbol member)⟩
  have number {value : Int} (nonneg : 0 ≤ value) :
      ∀ symbol ∈ decimal value, symbol ≠ '\t' ∧ isLineBoundary symbol = false := by
    obtain ⟨natural, rfl⟩ := Int.eq_ofNat_of_zero_le nonneg
    exact blankless fun symbol member => not_pySpace_of_mem_decimal member
  intro field member
  unfold tsvFields at member
  simp only [List.mem_cons, List.not_mem_nil, or_false] at member
  rcases member with rfl | rfl | rfl | rfl | rfl | rfl
  · exact blankless plain.key
  · exact number plain.count
  · exact number plain.x
  · exact number plain.y
  · exact blankless plain.srcHex
  · exact flatten_plain plain.jp

theorem tsvLine_plain : Text.OneLine isLineBoundary (tsvLine row) := by
  intro symbol member
  rcases mem_tsvLine member with rfl | ⟨field, inFields, inField⟩
  · decide
  · exact (tsvFields_plain plain field inFields symbol inField).2

theorem parseTsvLine_tsvLine : parseTsvLine (tsvLine row) = some (some row.flat) := by
  have fields : (tsvLine row).splitOn '\t' = tsvFields row := by
    apply List.splitOn_intercalate
    · intro field member tab
      exact (tsvFields_plain plain field member '\t' tab).1 rfl
    · exact List.cons_ne_nil _ _
  obtain ⟨count, countEq⟩ := Int.eq_ofNat_of_zero_le plain.count
  obtain ⟨x, xEq⟩ := Int.eq_ofNat_of_zero_le plain.x
  obtain ⟨y, yEq⟩ := Int.eq_ofNat_of_zero_le plain.y
  unfold parseTsvLine
  rw [fields]
  unfold tsvFields intField
  rw [countEq, xEq, yEq]
  simp only [dropWhile_sign_decimal, isDigits_decimal, if_true, int10_decimal]
  show some (some (MasterRow.mk row.key count x y row.srcHex (flatten row.jp))) = _
  rw [← countEq, ← xEq, ← yEq]
  rfl

end Line

/-! ## The whole file -/

/-- The master as it is read back: in the order of the file, the Japanese flat. -/
def settled (rows : List MasterRow) : Dict Text MasterRow :=
  (sortRows rows).map fun row => (row.key, row.flat)

theorem sortRows_perm (rows : List MasterRow) : (sortRows rows).Perm rows :=
  List.perm_insertionSort _ _

theorem keys_settled (rows : List MasterRow) :
    (settled rows).map Prod.fst = (sortRows rows).map MasterRow.key := by
  unfold settled
  rw [List.map_map]
  rfl

theorem settled_distinct {rows : List MasterRow} (distinct : (rows.map MasterRow.key).Nodup) :
    Dict.Distinct (settled rows) := by
  unfold Dict.Distinct
  rw [keys_settled]
  exact (((sortRows_perm rows).map _).nodup_iff).mpr distinct

/-- A written master reads back. -/
theorem loadTsv_writeTsv {rows : List MasterRow} (plain : ∀ row ∈ rows, PlainRow row)
    (distinct : (rows.map MasterRow.key).Nodup) :
    loadTsv (some (writeTsv rows)) = some (settled rows) := by
  have plainSorted : ∀ row ∈ sortRows rows, PlainRow row := fun row member =>
    plain row ((sortRows_perm rows).mem_iff.mp member)
  have lines : ∀ line ∈ tsvHeader :: (sortRows rows).map tsvLine,
      Text.OneLine isLineBoundary line := by
    intro line member
    rcases List.mem_cons.mp member with rfl | inRows
    · decide +kernel
    · obtain ⟨row, inSorted, rfl⟩ := List.mem_map.mp inRows
      exact tsvLine_plain (plainSorted row inSorted)
  have read : ((sortRows rows).map tsvLine).mapM parseTsvLine =
      some ((sortRows rows).map fun row => some row.flat) :=
    Outcome.mapM_map_eq_some fun row member => parseTsvLine_tsvLine (plainSorted row member)
  unfold loadTsv writeTsv
  simp only
  rw [splitlines_unlines lines, List.drop_one, List.tail_cons, read]
  show some (Dict.writes [] ((List.reduceOption _).map _)) = _
  rw [Outcome.reduceOption_map_some, List.map_map]
  exact congrArg some (Dict.writes_of_distinct (settled_distinct distinct))

theorem rows_settled (rows : List MasterRow) :
    (settled rows).map Prod.snd = (sortRows rows).map MasterRow.flat := by
  unfold settled
  rw [List.map_map]
  rfl

theorem tsvLine_flat (row : MasterRow) : tsvLine row.flat = tsvLine row := by
  show (List.intersperse ['\t'] [row.key, decimal row.count, decimal row.x, decimal row.y,
    row.srcHex, flatten (flatten row.jp)]).flatten = _
  rw [flatten_flatten]
  rfl

/-- Rows whose counts stand in the order of the file are not moved. -/
theorem sortRows_of_counts {rows other : List MasterRow}
    (same : rows.map MasterRow.count = (sortRows other).map MasterRow.count) :
    sortRows rows = rows := by
  have sorted : (sortRows other).Pairwise fun left right => -left.count ≤ -right.count :=
    List.pairwise_insertionSort _ _
  have counts := (List.pairwise_map (f := MasterRow.count)
    (R := fun left right => -left ≤ -right)).mpr sorted
  rw [← same] at counts
  exact (List.pairwise_map.mp counts).insertionSort_eq

/-- Rows that read like the file are written like it. -/
theorem writeTsv_of_flat_eq {rows other : List MasterRow}
    (same : rows.map MasterRow.flat = (settled other).map Prod.snd) :
    writeTsv rows = writeTsv other := by
  rw [rows_settled] at same
  have counts : rows.map MasterRow.count = (sortRows other).map MasterRow.count := by
    have flatCounts := congrArg (List.map MasterRow.count) same
    rw [List.map_map, List.map_map] at flatCounts
    exact flatCounts
  have lines : rows.map tsvLine = (sortRows other).map tsvLine := by
    have flatLines := congrArg (List.map tsvLine) same
    rw [List.map_map, List.map_map] at flatLines
    have flat : tsvLine ∘ MasterRow.flat = tsvLine := funext tsvLine_flat
    rwa [flat] at flatLines
  unfold writeTsv
  rw [sortRows_of_counts counts, lines]

end StadiumRecomp.Translate
