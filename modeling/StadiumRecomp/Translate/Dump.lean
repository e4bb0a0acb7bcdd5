import StadiumRecomp.Census.Inventory
import StadiumRecomp.Guest.TextArg
import StadiumRecomp.Lib.HexText
import StadiumRecomp.Lib.Outcome
import StadiumRecomp.Lib.PyText

/-!
Contract: `stringdump.log`, from the string inventory to the rows `pms_build_translations.py`
reads of it.

Owns: `dump_stringinv_locked`, `decode_euc`, `parse_dump`, and that a dump reads back as the
strings of the inventory.

Does not own: Python's `euc_jp` codec, which is a parameter, and what fills the inventory.
-/

set_option autoImplicit false

namespace StadiumRecomp.Translate

open StadiumRecomp.Lib
open StadiumRecomp.Lib.HexText
open StadiumRecomp.Lib.PyInt
open StadiumRecomp.Lib.PyText
open StadiumRecomp.Census
open StadiumRecomp.Guest (isTextByte)

/-! ## Writing the dump -/

/-- The inner loop of the selection sort, from position `j` on: the first of the largest counts. -/
def bestFrom (best : Nat) (bestCount : UInt32) (j : Nat) : List StrInvEntry → Nat
  | [] => best
  | slot :: rest =>
      if slot.count > bestCount then bestFrom j slot.count (j + 1) rest
      else bestFrom best bestCount (j + 1) rest

/-- Rounds of the selection sort on what is not sorted yet. -/
def dumpRounds : Nat → List StrInvEntry → List StrInvEntry
  | 0, order => order
  | _ + 1, [] => []
  | rounds + 1, first :: rest =>
      match bestFrom 0 first.count 1 rest with
      | 0 => first :: dumpRounds rounds rest
      | best + 1 => rest.getD best first :: dumpRounds rounds (rest.set best first)

/-- The strings of the inventory. -/
def strings (inv : StrInv) : List StrInvEntry := inv.slots.filter StrInvEntry.used

/-- They in the order of the dump. -/
def dumpOrder (inv : StrInv) : List StrInvEntry :=
  dumpRounds (strings inv).length (strings inv)

/-- `%<width>u`. -/
def padded (width value : Nat) : Text :=
  List.replicate (width - (decimal value).length) ' ' ++ decimal value

/-- `0x%016llX`. -/
def slotKey (slot : StrInvEntry) : Text :=
  '0' :: 'x' :: (hexPadded 16 slot.key.toNat).map Char.toUpper

def dumpLine (slot : StrInvEntry) : Text :=
  slotKey slot ++ ' ' :: (padded 6 slot.count.toNat ++ ' ' :: (padded 4 slot.a0.toNat ++ ' ' ::
    (padded 4 slot.a1.toNat ++ ' ' :: (padded 3 slot.bytes.length ++ ' ' :: hexText slot.bytes))))

def dumpHeader (n : Nat) (dropped : UInt32) : List Text :=
  ["=== string inventory (distinct strings drawn by 0x8001A944) ===".toList,
    "  distinct strings: ".toList ++ decimal n ++ "   dropped(table full): ".toList ++
      decimal dropped.toNat,
    "  format: <key> <count> <x> <y> <len> <src_hex>".toList, []]

/-- `dump_stringinv_locked`. -/
def dumpText (inv : StrInv) : Text :=
  Text.unlines '\n'
    (dumpHeader (strings inv).length inv.dropped ++ (dumpOrder inv).map dumpLine)

/-! ## Reading the dump -/

/-- A row of the master. -/
structure MasterRow where
  key : Text
  count : Int
  x : Int
  y : Int
  srcHex : Text
  jp : Text
deriving DecidableEq, Repr

/-- `bytes.decode("euc_jp")`, none where it raises. -/
abbrev Codec := Bytes → Option Text

/-- What stands for a byte that does not decode. -/
def escapedByte (byte : UInt8) : Text := '\\' :: 'x' :: hexByte byte

/-- The loop of `decode_euc`: two bytes, else one, else an escape. -/
def decodePieces (codec : Codec) : Bytes → Text
  | [] => []
  | [byte] => (codec [byte]).getD (escapedByte byte)
  | byte :: next :: rest =>
      match codec [byte, next] with
      | some text => text ++ decodePieces codec rest
      | none => (codec [byte]).getD (escapedByte byte) ++ decodePieces codec (next :: rest)

/-- `decode_euc`. -/
def decodeEuc (codec : Codec) (b : Bytes) : Text := (codec b).getD (decodePieces codec b)

/-- A line of the dump. The inner `none` passes over it, the outer one raises. -/
def parseDumpLine (codec : Codec) (line : Text) : Option (Option MasterRow) :=
  if ¬ "0x".toList <+: line then some none
  else
    match Text.words pySpace line with
    | key :: count :: x :: y :: _ :: srcHex :: _ =>
        match fromHex srcHex with
        | none => some none
        | some raw => do
            let count ← int10 count
            let x ← int10 x
            let y ← int10 y
            return some ⟨key, count, x, y, srcHex, decodeEuc codec raw⟩
    | _ => some none

/-- `parse_dump`, none where it raises. -/
def parseDump (codec : Codec) : Option Text → Option (List MasterRow)
  | none => some []
  | some file =>
      ((splitlines (universalNewlines file)).mapM (parseDumpLine codec)).map List.reduceOption

/-- The row of a string. -/
def rowOf (codec : Codec) (slot : StrInvEntry) : MasterRow where
  key := slotKey slot
  count := slot.count.toNat
  x := slot.a0.toNat
  y := slot.a1.toNat
  srcHex := hexText slot.bytes
  jp := decodeEuc codec slot.bytes

/-! ## The order -/

theorem swap_perm (rest : List StrInvEntry) (best : Nat) (first : StrInvEntry) :
    (rest.getD best first :: rest.set best first).Perm (first :: rest) := by
  induction rest generalizing best with
  | nil => exact List.Perm.refl _
  | cons head tail inductionHypothesis =>
      cases best with
      | zero => exact List.Perm.swap _ _ _
      | succ best =>
          show (tail.getD best first :: head :: tail.set best first).Perm (first :: head :: tail)
          calc List.Perm (tail.getD best first :: head :: tail.set best first)
                (head :: tail.getD best first :: tail.set best first) := List.Perm.swap _ _ _
            List.Perm _ (head :: first :: tail) := (inductionHypothesis best).cons head
            List.Perm _ (first :: head :: tail) := List.Perm.swap _ _ _

theorem dumpRounds_perm (rounds : Nat) (order : List StrInvEntry) :
    (dumpRounds rounds order).Perm order := by
  induction rounds generalizing order with
  | zero => exact List.Perm.refl _
  | succ rounds inductionHypothesis =>
      cases order with
      | nil => exact List.Perm.refl _
      | cons first rest =>
          rw [dumpRounds]
          split
          · exact (inductionHypothesis rest).cons first
          next best _ =>
            exact ((inductionHypothesis _).cons _).trans (swap_perm rest best first)

theorem dumpOrder_perm (inv : StrInv) : (dumpOrder inv).Perm (strings inv) := dumpRounds_perm _ _

/-! ## Reading back -/

theorem not_pySpace_of_mem_slotKey {slot : StrInvEntry} {symbol : Char}
    (member : symbol ∈ slotKey slot) : pySpace symbol = false := by
  unfold slotKey at member
  rcases List.mem_cons.mp member with rfl | member
  · rfl
  rcases List.mem_cons.mp member with rfl | member
  · rfl
  rcases symbol_of_mem_hexPadded keepsDigits_toUpper rfl rfl 16 slot.key.toNat member with
    hex | ⟨negative, _⟩
  · exact not_pySpace_of_isHexDigit hex
  · omega

theorem decimal_ne_nil (value : Nat) : decimal value ≠ [] := by
  rw [decimal_natCast]
  exact Nat.toDigits_ne_nil

/-- A padded number is one word. -/
theorem words_padded (width value : Nat) (line : Text) :
    Text.words pySpace (padded width value ++ ' ' :: line) =
      decimal value :: Text.words pySpace line := by
  unfold padded
  rw [List.append_assoc, Text.words_append_blanks,
    Text.words_cons (fun _ member => not_pySpace_of_mem_decimal member) (decimal_ne_nil value) rfl]
  intro symbol member
  rw [List.eq_of_mem_replicate member]
  rfl

theorem words_dumpLine {slot : StrInvEntry} (nonempty : slot.bytes ≠ []) :
    Text.words pySpace (dumpLine slot) =
      [slotKey slot, decimal slot.count.toNat, decimal slot.a0.toNat, decimal slot.a1.toNat,
        decimal slot.bytes.length, hexText slot.bytes] := by
  unfold dumpLine
  rw [Text.words_cons (fun _ member => not_pySpace_of_mem_slotKey member) (List.cons_ne_nil _ _)
    rfl, words_padded, words_padded, words_padded, words_padded,
    Text.words_singleton (fun _ member => not_pySpace_of_mem_hexText member)
      (hexText_ne_nil nonempty)]

theorem parseDumpLine_dumpLine (codec : Codec) {slot : StrInvEntry} (nonempty : slot.bytes ≠ []) :
    parseDumpLine codec (dumpLine slot) = some (some (rowOf codec slot)) := by
  have keyed : "0x".toList <+: dumpLine slot := ⟨_, rfl⟩
  unfold parseDumpLine
  rw [if_neg (not_not.mpr keyed), words_dumpLine nonempty]
  simp only [fromHex_hexText, int10_decimal]
  rfl

theorem parseDumpLine_header (codec : Codec) (n : Nat) (dropped : UInt32) :
    ∀ line ∈ dumpHeader n dropped, parseDumpLine codec line = some none := by
  intro line member
  unfold parseDumpLine
  apply if_pos
  intro ⟨rest, same⟩
  unfold dumpHeader at member
  simp only [List.mem_cons, List.not_mem_nil, or_false] at member
  rcases member with rfl | rfl | rfl | rfl
  · cases same
  · cases same
  · cases same
  · cases same

theorem dumpLine_plain (slot : StrInvEntry) : Text.OneLine isLineBoundary (dumpLine slot) := by
  have number (width value : Nat) : Text.OneLine isLineBoundary (padded width value) := by
    intro symbol member
    rcases List.mem_append.mp member with blank | digit
    · rw [List.eq_of_mem_replicate blank]
      decide
    · exact isLineBoundary_of_not_pySpace (not_pySpace_of_mem_decimal digit)
  have joined {left right : Text} (leftPlain : Text.OneLine isLineBoundary left)
      (rightPlain : Text.OneLine isLineBoundary right) :
      Text.OneLine isLineBoundary (left ++ ' ' :: right) := by
    intro symbol member
    rcases List.mem_append.mp member with inLeft | member
    · exact leftPlain symbol inLeft
    rcases List.mem_cons.mp member with rfl | inRight
    · decide
    · exact rightPlain symbol inRight
  unfold dumpLine
  apply joined
  · intro symbol member
    exact isLineBoundary_of_not_pySpace (not_pySpace_of_mem_slotKey member)
  apply joined (number _ _)
  apply joined (number _ _)
  apply joined (number _ _)
  apply joined (number _ _)
  intro symbol member
  exact isLineBoundary_of_not_pySpace (not_pySpace_of_mem_hexText member)

theorem dumpHeader_plain (n : Nat) (dropped : UInt32) :
    ∀ line ∈ dumpHeader n dropped, Text.OneLine isLineBoundary line := by
  have number (value : Nat) : Text.OneLine isLineBoundary (decimal value) := fun symbol member =>
    isLineBoundary_of_not_pySpace (not_pySpace_of_mem_decimal member)
  intro line member
  unfold dumpHeader at member
  simp only [List.mem_cons, List.not_mem_nil, or_false] at member
  rcases member with rfl | rfl | rfl | rfl
  · decide +kernel
  · have labels : Text.OneLine isLineBoundary "  distinct strings: ".toList ∧
        Text.OneLine isLineBoundary "   dropped(table full): ".toList := by
      decide +kernel
    intro symbol member
    rcases List.mem_append.mp member with member | inDropped
    · rcases List.mem_append.mp member with member | inLabel
      · rcases List.mem_append.mp member with inLabel | inCount
        · exact labels.1 symbol inLabel
        · exact number n symbol inCount
      · exact labels.2 symbol inLabel
    · exact number _ symbol inDropped
  · decide +kernel
  · intro symbol member
    cases member

/-- A dump reads back as the rows of its strings, in the order of the dump. -/
theorem parseDump_dumpText (codec : Codec) {inv : StrInv}
    (nonempty : ∀ slot ∈ strings inv, slot.bytes ≠ []) :
    parseDump codec (some (dumpText inv)) = some ((dumpOrder inv).map (rowOf codec)) := by
  have filled : ∀ slot ∈ dumpOrder inv, slot.bytes ≠ [] := fun slot member =>
    nonempty slot ((dumpOrder_perm inv).mem_iff.mp member)
  unfold parseDump dumpText
  simp only
  have header := @Outcome.mapM_map_eq_some _ _ _ (parseDumpLine codec) id
    (dumpHeader (strings inv).length inv.dropped) (fun _ => none)
    (parseDumpLine_header codec (strings inv).length inv.dropped)
  have rows : ((dumpOrder inv).map dumpLine).mapM (parseDumpLine codec) =
      some ((dumpOrder inv).map fun slot => some (rowOf codec slot)) :=
    Outcome.mapM_map_eq_some fun slot member => parseDumpLine_dumpLine codec (filled slot member)
  rw [List.map_id] at header
  rw [splitlines_unlines, List.mapM_append, header, rows]
  · show some (List.reduceOption (_ ++ _)) = _
    rw [List.map_const', List.reduceOption_append, List.reduceOption_replicate_none,
      List.nil_append, Outcome.reduceOption_map_some]
  · intro line member
    rcases List.mem_append.mp member with inHeader | inRows
    · exact dumpHeader_plain _ _ line inHeader
    · obtain ⟨slot, _, rfl⟩ := List.mem_map.mp inRows
      exact dumpLine_plain slot

end StadiumRecomp.Translate
