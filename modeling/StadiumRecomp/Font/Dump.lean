import StadiumRecomp.Guest.Memory
import StadiumRecomp.Lib.PyInt

/-!
Contract: the dump of the game's font sheets.

Owns: the slot descriptors, how much of a sheet `pkmnstadium_fontdump` writes, the files and the
log it leaves, and that a dumped file is a stretch of guest memory.

Does not own: what is made of the files.
-/

set_option autoImplicit false

namespace StadiumRecomp.Font

open StadiumRecomp.Lib
open StadiumRecomp.Lib.Text (ascii)
open StadiumRecomp.Guest

/-! ## Conversions of `fprintf` -/

/-- `%u`. -/
def unsigned (value : Nat) : Text := Nat.toDigits 10 value

/-- `%<width>u`. -/
def padLeft (width value : Nat) : Text :=
  List.replicate (width - (unsigned value).length) ' ' ++ unsigned value

/-- `%-<width>u`. -/
def padRight (width value : Nat) : Text :=
  unsigned value ++ List.replicate (width - (unsigned value).length) ' '

/-- `%0<width>X`. -/
def hex (width value : Nat) : Text := (PyInt.hexPadded width value).map Char.toUpper

/-! ## The dump -/

/-- A font-slot descriptor. -/
structure SlotDesc where
  advance : UInt8
  height : UInt8
  width : UInt8
  texbase : UInt32

def slotDesc (rdram : Rdram) (fontState : UInt32) (slot : Nat) : SlotDesc :=
  let desc := fontState + UInt32.ofNat slot * 8
  let d := copyBytes rdram desc 8
  ⟨d.getD 0 0, d.getD 1 0, d.getD 2 0, readU32 rdram (desc + 4)⟩

namespace SlotDesc

/-- The bytes of a glyph. -/
def tile (desc : SlotDesc) : UInt32 := desc.width.toUInt32 * desc.height.toUInt32

/-- The slot has no sheet. -/
def skipped (desc : SlotDesc) : Bool :=
  !rdramRange desc.texbase desc.tile || desc.width == 0 || desc.height == 0 ||
    64 < desc.width || 64 < desc.height

/-- `if (bytes > 0x40000u) bytes = 0x40000u`. -/
def capped (bytes : UInt32) : UInt32 := if 0x40000 < bytes then 0x40000 else bytes

/-- The bytes to dump: those of 256 glyphs, fewer up to the end of memory. -/
def bytes (desc : SlotDesc) : UInt32 :=
  if rdramRange desc.texbase (capped (desc.tile * 256)) then capped (desc.tile * 256)
  else capped (0x800000 - physical desc.texbase)

end SlotDesc

/-- The sheet, in chunks of 4096 bytes. -/
def sheetBytes (rdram : Rdram) (texbase bytes : UInt32) : Bytes :=
  (List.range ((bytes.toNat + 4095) / 4096)).flatMap fun chunk =>
    let off := UInt32.ofNat (chunk * 4096)
    let n := bytes - off
    copyBytes rdram (texbase + off) (if 4096 < n then 4096 else n)

/-- `font_slot%u.i8`. -/
def sheetName (slot : Nat) : Text := ascii "font_slot" ++ unsigned slot ++ ascii ".i8"

/-- What the two kinds of slot line begin with. -/
def slotFront (slot : Nat) (desc : SlotDesc) : Text :=
  ascii "  " ++ unsigned slot ++ ascii "     " ++ padLeft 3 desc.advance.toNat ++ ascii "  " ++
    padRight 4 desc.width.toNat ++ ascii " " ++ padRight 4 desc.height.toNat ++ ascii " 0x" ++
    hex 8 desc.texbase.toNat ++ ascii "  "

/-- The file that a slot leaves; `opens` tells whether it can be opened. -/
def slotFile (rdram : Rdram) (fontState : UInt32) (opens : Nat → Bool) (slot : Nat) :
    Option Bytes :=
  let desc := slotDesc rdram fontState slot
  if desc.skipped || !opens slot then none
  else some (sheetBytes rdram desc.texbase desc.bytes)

/-- The line of a slot. -/
def slotLine (rdram : Rdram) (fontState : UInt32) (opens : Nat → Bool) (slot : Nat) : Text :=
  let desc := slotDesc rdram fontState slot
  if desc.skipped then slotFront slot desc ++ ascii "(skip)\n"
  else
    let wrote := ((slotFile rdram fontState opens slot).getD []).length
    slotFront slot desc ++ unsigned wrote ++ ascii " bytes -> " ++ sheetName slot ++
      ascii " (tile " ++ unsigned desc.width.toNat ++ ascii "x" ++ unsigned desc.height.toNat ++
      ascii ")\n"

/-- What a dump leaves: its log and the files of its directory. -/
structure Dump where
  log : Text
  files : Text → Option Bytes

def dumpSlot (rdram : Rdram) (fontState : UInt32) (opens : Nat → Bool) (dump : Dump) (slot : Nat) :
    Dump where
  log := dump.log ++ slotLine rdram fontState opens slot
  files := match slotFile rdram fontState opens slot with
    | some sheet => Function.update dump.files (sheetName slot) (some sheet)
    | none => dump.files

/-- The lines of every log. -/
def headLines (fontState : UInt32) : Text :=
  ascii "=== font dump ===\n" ++ ascii "  font-state ptr @0x800AD200 -> 0x" ++
    hex 8 fontState.toNat ++ ascii "\n"

/-- The lines above those of the slots. -/
def stateLines (state : Bytes) : Text :=
  ascii "  cur_slot=" ++ unsigned (state.getD 0x38 0).toNat ++ ascii " spacing=" ++
    unsigned (state.getD 0x39 0).toNat ++ ascii " line_height=" ++
    unsigned (state.getD 0x3A 0).toNat ++ ascii " flags=0x" ++ hex 2 (state.getD 0x3B 0).toNat ++
    ascii "\n\n" ++ ascii "  slot  adv  w    h    texbase     dumped\n"

def outsideLine : Text := ascii "  (font state not yet initialized / out of range)\n"

/-- `pkmnstadium_fontdump`, with the files that its directory held before. -/
def fontdump (rdram : Rdram) (opens : Nat → Bool) (files : Text → Option Bytes) : Dump :=
  let fontState := readU32 rdram 0x800AD200
  if rdramRange fontState 0x40 then
    (List.range 7).foldl (dumpSlot rdram fontState opens)
      ⟨headLines fontState ++ stateLines (copyBytes rdram fontState 0x40), files⟩
  else ⟨headLines fontState ++ outsideLine, files⟩

/-! ## What is dumped -/

namespace SlotDesc

variable {desc : SlotDesc}

theorem tile_toNat (desc : SlotDesc) :
    desc.tile.toNat = desc.width.toNat * desc.height.toNat := by
  have width := desc.width.toNat_lt
  have height := desc.height.toNat_lt
  have area : desc.width.toNat * desc.height.toNat < 256 * 256 := by
    calc
      desc.width.toNat * desc.height.toNat ≤ 255 * desc.height.toNat :=
        Nat.mul_le_mul_right _ (by omega)
      _ < 256 * 256 := by omega
  unfold tile
  rw [UInt32.toNat_mul, UInt8.toNat_toUInt32, UInt8.toNat_toUInt32]
  omega

theorem capped_toNat (bytes : UInt32) : (capped bytes).toNat = min 0x40000 bytes.toNat := by
  have limit : (0x40000 : UInt32).toNat = 0x40000 := rfl
  unfold capped
  split
  next more =>
    rw [UInt32.lt_iff_toNat_lt, limit] at more
    omega
  next notMore =>
    rw [UInt32.lt_iff_toNat_lt, limit] at notMore
    omega

/-- A slot with a sheet: a glyph of it has bytes, and they lie in memory. -/
theorem of_not_skipped (dumped : desc.skipped = false) :
    rdramRange desc.texbase desc.tile = true ∧ 0 < desc.tile.toNat ∧ desc.tile.toNat ≤ 4096 := by
  unfold skipped at dumped
  simp only [Bool.or_eq_false_iff, Bool.not_eq_false', beq_eq_false_iff_ne, ne_eq,
    decide_eq_false_iff_not, UInt8.lt_iff_toNat_lt, Nat.not_lt, UInt8.reduceToNat] at dumped
  obtain ⟨⟨⟨⟨inRange, wide⟩, high⟩, narrow⟩, low⟩ := dumped
  have width : 0 < desc.width.toNat := Nat.pos_of_ne_zero fun zero =>
    wide (UInt8.toNat_inj.mp zero)
  have height : 0 < desc.height.toNat := Nat.pos_of_ne_zero fun zero =>
    high (UInt8.toNat_inj.mp zero)
  rw [tile_toNat]
  exact ⟨inRange, Nat.mul_pos width height, Nat.mul_le_mul narrow low⟩

/-- The bytes to dump lie in memory and hold a glyph. -/
theorem bytes_range (dumped : desc.skipped = false) :
    rdramRange desc.texbase desc.bytes = true ∧ desc.tile.toNat ≤ desc.bytes.toNat ∧
      desc.bytes.toNat ≤ 0x40000 := by
  obtain ⟨inRange, positive, small⟩ := of_not_skipped dumped
  have offset := physical_of_range inRange
  obtain ⟨low, high, fits⟩ := rdramRange_iff.mp inRange
  have whole : (desc.tile * 256).toNat = desc.tile.toNat * 256 := by
    rw [UInt32.toNat_mul]
    show desc.tile.toNat * 256 % 2 ^ 32 = _
    omega
  unfold bytes
  by_cases fitsWhole : rdramRange desc.texbase (capped (desc.tile * 256)) = true
  · rw [if_pos fitsWhole, capped_toNat, whole]
    exact ⟨fitsWhole, by omega, by omega⟩
  · have left : (0x800000 - physical desc.texbase).toNat =
        0x800000 - (desc.texbase.toNat - 0x80000000) := by
      have memory : (0x800000 : UInt32).toNat = 0x800000 := rfl
      rw [UInt32.toNat_sub_of_le, offset, memory]
      rw [UInt32.le_iff_toNat_le, offset, memory]
      omega
    rw [if_neg fitsWhole, rdramRange_iff, capped_toNat, left]
    omega

end SlotDesc

/-- A sheet in memory is dumped as it stands. -/
theorem sheetBytes_eq (rdram : Rdram) {texbase bytes : UInt32}
    (inRange : rdramRange texbase bytes = true) :
    sheetBytes rdram texbase bytes = segment rdram texbase bytes.toNat := by
  obtain ⟨low, high, fits⟩ := rdramRange_iff.mp inRange
  -- the first chunks are the front of the sheet
  have chunks : ∀ count, count ≤ (bytes.toNat + 4095) / 4096 →
      ((List.range count).flatMap fun chunk =>
        let off := UInt32.ofNat (chunk * 4096)
        let n := bytes - off
        copyBytes rdram (texbase + off) (if 4096 < n then 4096 else n)) =
      segment rdram texbase (min (count * 4096) bytes.toNat) := by
    intro count
    induction count with
    | zero =>
        intro _
        rw [Nat.zero_mul, Nat.zero_min]
        rfl
    | succ count inductionHypothesis =>
        intro inside
        have off : (UInt32.ofNat (count * 4096)).toNat = count * 4096 := by
          rw [UInt32.toNat_ofNat']
          omega
        have left : (bytes - UInt32.ofNat (count * 4096)).toNat = bytes.toNat - count * 4096 := by
          rw [UInt32.toNat_sub_of_le, off]
          rw [UInt32.le_iff_toNat_le, off]
          omega
        have length : (if 4096 < bytes - UInt32.ofNat (count * 4096) then 4096
            else bytes - UInt32.ofNat (count * 4096) : UInt32).toNat =
            min 4096 (bytes.toNat - count * 4096) := by
          have whole : (4096 : UInt32).toNat = 4096 := rfl
          split
          next more =>
            rw [UInt32.lt_iff_toNat_lt, whole, left] at more
            rw [whole]
            omega
          next notMore =>
            rw [UInt32.lt_iff_toNat_lt, whole, left] at notMore
            rw [left]
            omega
        have start : (texbase + UInt32.ofNat (count * 4096)).toNat =
            texbase.toNat + count * 4096 := toNat_add_ofNat (by omega)
        have before := inductionHypothesis (by omega)
        have front : min (count * 4096) bytes.toNat = count * 4096 := by omega
        rw [List.range_succ, List.flatMap_append, before, List.flatMap_singleton, front]
        show _ ++ copyBytes rdram _ _ = _
        rw [copyBytes_of_range rdram (by rw [rdramRange_iff, start, length]; omega), length,
          ← segment_add]
        congr 1
        omega
  unfold sheetBytes
  rw [chunks _ (Nat.le_refl _)]
  congr 1
  omega

end StadiumRecomp.Font
