import StadiumRecomp.Font.Dump
import StadiumRecomp.Lib.Blit
import StadiumRecomp.Lib.PyText
import StadiumRecomp.Lib.Search

/-!
Contract: pictures of the dumped font sheets.

Owns: what `tools/pms_fontrender.py` finds in a log, the picture it lays a sheet out in, and that
dumping and rendering show the glyphs of guest memory.

Does not own: the dump itself, and the compression and the checksums of PNG files.
-/

set_option autoImplicit false

namespace StadiumRecomp.Font

open StadiumRecomp.Lib
open StadiumRecomp.Lib.Text (ascii)
open StadiumRecomp.Lib.PyText (spaces)
open StadiumRecomp.Lib.Search
open StadiumRecomp.Guest

/-! ## Reading the log -/

def isDigit (symbol : Char) : Bool := (PyInt.digitVal 10 symbol).isSome

/-- `(\d+)`. -/
def digits (text : Text) : Option (Text × Text) :=
  if (text.takeWhile isDigit).isEmpty then none
  else some (text.takeWhile isDigit, text.dropWhile isDigit)

/-- `->\s+(font_slot\d+\.i8)\s+\(tile\s+(\d+)x(\d+)\)`. No run of the pattern can give a symbol
back to what follows it. -/
def sheetMatch (text : Text) : Option ((Text × Nat × Nat) × Text) := do
  let text ← dropPrefix? (ascii "->") text
  let text ← spaces text
  let text ← dropPrefix? (ascii "font_slot") text
  let (slot, text) ← digits text
  let text ← dropPrefix? (ascii ".i8") text
  let text ← spaces text
  let text ← dropPrefix? (ascii "(tile") text
  let text ← spaces text
  let (tw, text) ← digits text
  let text ← dropPrefix? (ascii "x") text
  let (th, text) ← digits text
  let text ← dropPrefix? (ascii ")") text
  let width ← PyInt.natLiteral 10 tw
  let height ← PyInt.natLiteral 10 th
  return ((ascii "font_slot" ++ slot ++ ascii ".i8", width, height), text)

/-! ## Pictures -/

/-- A picture, with the scanlines that its data chunk compresses. -/
structure Png where
  width : Nat
  height : Nat
  raw : Bytes
deriving DecidableEq, Repr

/-- `write_png_gray`. -/
def writePngGray (w h : Nat) (pixels : Bytes) : Png :=
  ⟨w, h, (List.range h).flatMap fun y => 0 :: (pixels.take ((y + 1) * w)).drop (y * w)⟩

/-- The lines of a glyph, each where the picture takes it. -/
def glyphRows (data : Bytes) (tw th cols gw g : Nat) : List (Blit UInt8) :=
  let gx := g % cols * (tw + 1) + 1
  let gy := g / cols * (th + 1) + 1
  let base := g * (tw * th)
  (List.range th).map fun y =>
    ⟨(gy + y) * gw + gx, (data.take (base + (y + 1) * tw)).drop (base + y * tw)⟩

/-- `render_sheet`: the number of glyphs, with the picture written. -/
def renderSheet (data : Bytes) (tw th cols : Nat) : Nat × Option Png :=
  let tile := tw * th
  if tile = 0 then (0, none)
  else
    let nglyphs := data.length / tile
    if nglyphs = 0 then (0, none)
    else
      let rows := (nglyphs + cols - 1) / cols
      let gw := cols * (tw + 1) + 1
      let gh := rows * (th + 1) + 1
      let img := Blit.applyAll ((List.range nglyphs).flatMap (glyphRows data tw th cols gw))
        (List.replicate (gw * gh) 64)
      (nglyphs, some (writePngGray gw gh img))

/-- A sheet that was rendered. -/
structure Rendering where
  name : Text
  width : Nat
  height : Nat
  glyphs : Nat
  png : Option Png
deriving DecidableEq, Repr

def rendering (cols : Nat) (name : Text) (tw th : Nat) (i8 : Bytes) : Rendering :=
  let (n, png) := renderSheet i8 tw th cols
  ⟨name, tw, th, n, png⟩

/-- `main` of the renderer, over the directory of a dump. -/
def fontrender (dump : Dump) (cols : Nat) : List Rendering :=
  (findAll sheetMatch 0 (PyText.universalNewlines dump.log)).filterMap fun (name, tw, th) =>
    (dump.files name).map (rendering cols name tw th)

/-! ## The layout of a picture -/

section Layout

variable {data : Bytes} {tw th cols : Nat}

/-- The picture as a function of row and column. -/
def pixel (grid : Grid) (nglyphs : Nat) (byte : Nat → UInt8) (row column : Nat) : UInt8 :=
  match grid.cellAt row column with
  | some (g, y, x) =>
      if g < nglyphs then byte (g * (grid.width * grid.height) + y * grid.width + x) else 64
  | none => 64

theorem length_glyphRow {g y : Nat} (glyph : g < data.length / (tw * th)) (line : y < th) :
    ((data.take (g * (tw * th) + (y + 1) * tw)).drop (g * (tw * th) + y * tw)).length = tw ∧
      g * (tw * th) + (y + 1) * tw ≤ data.length := by
  have whole := Nat.mul_le_mul_right (tw * th) (Nat.succ_le_of_lt glyph)
  have inside := Nat.div_mul_le_self data.length (tw * th)
  have lines := Nat.mul_le_mul_left tw (Nat.succ_le_of_lt line)
  have next : (y + 1) * tw = y * tw + tw := Nat.succ_mul y tw
  rw [Nat.succ_mul] at whole
  rw [Nat.mul_comm tw, Nat.succ_eq_add_one] at lines
  rw [List.length_drop, List.length_take]
  omega

/-- What a covering line holds at a position is the byte that the layout names. -/
theorem glyphRows_covers {nglyphs : Nat} (glyphs : nglyphs = data.length / (tw * th))
    (positive : 0 < cols) (rows position : Nat) {g : Nat} (glyph : g < nglyphs) {blit : Blit UInt8}
    (member : blit ∈ glyphRows data tw th cols (cols * (tw + 1) + 1) g) :
    (blit.Covers position → ∃ y x, blit.row[position - blit.start]? =
        some (data.getD (g * (tw * th) + y * tw + x) 0) ∧
      (Grid.mk tw th cols rows).cellAt (position / (cols * (tw + 1) + 1))
        (position % (cols * (tw + 1) + 1)) = some (g, y, x)) ∧
    ∃ y < th, blit.start = (Grid.mk tw th cols rows).lineStart g y ∧ blit.row.length = tw := by
  obtain ⟨y, line, rfl⟩ := List.mem_map.mp member
  have line' := List.mem_range.mp line
  obtain ⟨length, inside⟩ := length_glyphRow (glyphs ▸ glyph) line'
  refine ⟨fun covers => ?_, y, line', rfl, length⟩
  obtain ⟨low, high⟩ := covers
  rw [length] at high
  have place : position = (Grid.mk tw th cols rows).lineStart g y +
      (position - (Grid.mk tw th cols rows).lineStart g y) :=
    (Nat.add_sub_of_le low).symm
  have short : position - (Grid.mk tw th cols rows).lineStart g y < tw := by
    have high' : position < (Grid.mk tw th cols rows).lineStart g y + tw := high
    omega
  refine ⟨y, position - (Grid.mk tw th cols rows).lineStart g y, ?_, ?_⟩
  · have next : (y + 1) * tw = y * tw + tw := Nat.succ_mul y tw
    show ((data.take _).drop _)[position - (Grid.mk tw th cols rows).lineStart g y]? = _
    rw [List.getElem?_drop, List.getElem?_take_of_lt (by omega),
      List.getElem?_eq_getElem (by omega), List.getD_eq_getElem _ _ (by omega)]
  · have found := (Grid.mk tw th cols rows).cellAt_lineStart g positive line' short
    rwa [← place] at found

/-- A picture depends on the bytes of its glyphs only. -/
theorem pixel_congr {grid : Grid} {nglyphs : Nat} {left right : Nat → UInt8}
    (same : ∀ i < nglyphs * (grid.width * grid.height), left i = right i) (row column : Nat) :
    pixel grid nglyphs left row column = pixel grid nglyphs right row column := by
  unfold pixel Grid.cellAt
  split
  next found =>
    split at found
    next => cases found
    next inner =>
      cases found
      obtain ⟨rowInner, columnInner⟩ := not_or.mp inner
      split
      next glyph =>
        have line : row % (grid.height + 1) < grid.height + 1 := Nat.mod_lt row (Nat.succ_pos _)
        have place : column % (grid.width + 1) < grid.width + 1 :=
          Nat.mod_lt column (Nat.succ_pos _)
        have lines := Nat.mul_le_mul_right grid.width
          (show row % (grid.height + 1) - 1 + 1 ≤ grid.height by omega)
        have whole := Nat.mul_le_mul_right (grid.width * grid.height) (Nat.succ_le_of_lt glyph)
        rw [Nat.succ_mul] at lines whole
        rw [Nat.mul_comm grid.height] at lines
        exact same _ (by omega)
      next => rfl
  next => rfl

/-- The glyphs have their rows. -/
theorem glyph_row_lt {nglyphs g : Nat} (positive : 0 < cols) (glyph : g < nglyphs) :
    g / cols < (nglyphs + cols - 1) / cols := by
  have whole := Nat.div_add_mod (nglyphs + cols - 1) cols
  have left := Nat.mod_lt (nglyphs + cols - 1) positive
  rw [Nat.div_lt_iff_lt_mul positive, Nat.mul_comm]
  omega

/-- The image as the loops leave it. -/
theorem getElem?_image (data : Bytes) (tw th : Nat) {nglyphs : Nat}
    (glyphs : nglyphs = data.length / (tw * th)) (positive : 0 < cols) (position : Nat) :
    let grid := Grid.mk tw th cols ((nglyphs + cols - 1) / cols)
    let blits := (List.range nglyphs).flatMap (glyphRows data tw th cols grid.imageWidth)
    let cells := List.replicate (grid.imageWidth * grid.imageHeight) (64 : UInt8)
    (Blit.applyAll blits cells).length = grid.imageWidth * grid.imageHeight ∧
      (position < grid.imageWidth * grid.imageHeight →
        (Blit.applyAll blits cells)[position]? = some (pixel grid nglyphs (data.getD · 0)
          (position / grid.imageWidth) (position % grid.imageWidth))) := by
  intro grid blits cells
  have owner : ∀ blit ∈ blits, ∃ g < nglyphs, blit ∈ glyphRows data tw th cols grid.imageWidth g :=
    fun blit member => by
      obtain ⟨g, glyph, row⟩ := List.mem_flatMap.mp member
      exact ⟨g, List.mem_range.mp glyph, row⟩
  have length : cells.length = grid.imageWidth * grid.imageHeight := List.length_replicate
  have fit : ∀ blit ∈ blits, blit.Fits cells.length := by
    intro blit member
    obtain ⟨g, glyph, row⟩ := owner blit member
    obtain ⟨_, y, line, start, width⟩ :=
      glyphRows_covers glyphs positive grid.rows 0 glyph row
    have inside := grid.lineStart_add_lt positive (glyph_row_lt positive glyph) line
    unfold Blit.Fits
    rw [start, width, length]
    exact Nat.le_of_lt inside
  refine ⟨(Blit.length_applyAll fit).trans length, fun inside => ?_⟩
  have found : ∀ blit ∈ blits, blit.Covers position → ∃ g < nglyphs, ∃ y x,
      blit.row[position - blit.start]? = some (data.getD (g * (tw * th) + y * tw + x) 0) ∧
        grid.cellAt (position / grid.imageWidth) (position % grid.imageWidth) = some (g, y, x) := by
    intro blit member covers
    obtain ⟨g, glyph, row⟩ := owner blit member
    obtain ⟨y, x, value, cell⟩ :=
      (glyphRows_covers glyphs positive grid.rows position glyph row).1 covers
    exact ⟨g, glyph, y, x, value, cell⟩
  have kept : (∀ blit ∈ blits, ¬ blit.Covers position) →
      (Blit.applyAll blits cells)[position]? = some 64 := by
    intro outside
    rw [Blit.getElem?_applyAll_of_not_covers fit outside, List.getElem?_replicate_of_lt inside]
  unfold pixel
  cases cell : grid.cellAt (position / grid.imageWidth) (position % grid.imageWidth) with
  | none =>
      refine kept fun blit member covers => ?_
      obtain ⟨_, _, _, _, _, cell'⟩ := found blit member covers
      rw [cell] at cell'
      cases cell'
  | some place =>
      obtain ⟨g, y, x⟩ := place
      show _ = some (if g < nglyphs then data.getD (g * (tw * th) + y * tw + x) 0 else 64)
      split
      next glyph =>
        obtain ⟨line, column, here⟩ := Grid.lineStart_cellAt positive cell
        refine Blit.getElem?_applyAll fit ?_ fun blit member covers => ?_
        · refine ⟨_, List.mem_flatMap.mpr ⟨g, List.mem_range.mpr glyph,
            List.mem_map.mpr ⟨y, List.mem_range.mpr line, rfl⟩⟩, ?_⟩
          have width := (length_glyphRow (glyphs ▸ glyph) line).1
          have start : position = grid.lineStart g y + x := here
          have short : x < tw := column
          unfold Blit.Covers
          rw [width]
          show grid.lineStart g y ≤ position ∧ position < grid.lineStart g y + tw
          omega
        · obtain ⟨_, _, _, _, value, cell'⟩ := found blit member covers
          rw [cell] at cell'
          cases cell'
          exact value
      next none =>
        refine kept fun blit member covers => ?_
        obtain ⟨_, glyph, _, _, _, cell'⟩ := found blit member covers
        rw [cell] at cell'
        cases cell'
        exact none glyph

/-- A line of an image that is a function of row and column. -/
theorem line_eq {width height : Nat} {image : Bytes} {value : Nat → Nat → UInt8}
    (length : image.length = width * height)
    (pixels : ∀ position < width * height,
      image[position]? = some (value (position / width) (position % width)))
    {y : Nat} (line : y < height) :
    (image.take ((y + 1) * width)).drop (y * width) = (List.range width).map (value y) := by
  have next : (y + 1) * width = y * width + width := Nat.succ_mul y width
  have area := Nat.mul_le_mul_left width (Nat.succ_le_of_lt line)
  rw [Nat.succ_eq_add_one, Nat.mul_comm width (y + 1)] at area
  refine List.ext_getElem? fun column => ?_
  rw [List.getElem?_drop]
  by_cases inside : column < width
  · rw [List.getElem?_take_of_lt (by omega), pixels _ (by omega), List.getElem?_map,
      List.getElem?_range inside]
    have row : (y * width + column) / width = y := by
      rw [Nat.mul_comm, Nat.mul_add_div (by omega), Nat.div_eq_of_lt inside, Nat.add_zero]
    have offset : (y * width + column) % width = column := by
      rw [Nat.mul_comm, Nat.mul_add_mod, Nat.mod_eq_of_lt inside]
    rw [row, offset]
    rfl
  · rw [List.getElem?_eq_none (by rw [List.length_take]; omega),
      List.getElem?_eq_none (by rw [List.length_map, List.length_range]; omega)]

/-- The picture is its layout: every scanline of a rendered sheet is the border and the bytes
of the glyphs that lie across it. -/
theorem renderSheet_eq (data : Bytes) (glyph : 0 < tw * th) (holds : tw * th ≤ data.length)
    (positive : 0 < cols) :
    renderSheet data tw th cols =
      (data.length / (tw * th),
        let grid := Grid.mk tw th cols ((data.length / (tw * th) + cols - 1) / cols)
        some ⟨grid.imageWidth, grid.imageHeight, (List.range grid.imageHeight).flatMap fun row =>
          0 :: (List.range grid.imageWidth).map
            (pixel grid (data.length / (tw * th)) (data.getD · 0) row)⟩) := by
  have many : 0 < data.length / (tw * th) := Nat.div_pos holds glyph
  have image := fun position =>
    getElem?_image data tw th rfl positive position
  unfold renderSheet writePngGray
  rw [if_neg (Nat.ne_of_gt glyph), if_neg (Nat.ne_of_gt many)]
  refine Prod.ext rfl (congrArg some ?_)
  refine congrArg (Png.mk _ _) ?_
  refine List.flatMap_congr fun y line => ?_
  exact congrArg (List.cons 0) (line_eq (image 0).1 (fun position => (image position).2)
    (List.mem_range.mp line))

end Layout

/-! ## What stands in a log -/

/-- A text in which no match starts, without carriage returns. -/
def Quiet (text : Text) : Prop := ∀ symbol ∈ text, symbol ≠ '-' ∧ symbol ≠ '\r'

instance (text : Text) : Decidable (Quiet text) := List.decidableBAll _ text

theorem Quiet.append {left right : Text} (first : Quiet left) (second : Quiet right) :
    Quiet (left ++ right) := fun symbol member =>
  (List.mem_append.mp member).elim (first symbol) (second symbol)

theorem Quiet.noReturn {text : Text} (quiet : Quiet text) : '\r' ∉ text := fun member =>
  (quiet '\r' member).2 rfl

theorem quiet_unsigned (value : Nat) : Quiet (unsigned value) := by
  intro symbol member
  have digit := PyInt.digitVal_of_mem_decimal member
  refine ⟨(PyInt.plain_of_decimalDigit digit).2.1, ?_⟩
  rintro rfl
  exact absurd digit (by decide)

theorem quiet_blanks (count : Nat) : Quiet (List.replicate count ' ') := by
  intro symbol member
  rw [List.eq_of_mem_replicate member]
  decide

theorem quiet_padLeft (width value : Nat) : Quiet (padLeft width value) :=
  (quiet_blanks _).append (quiet_unsigned value)

theorem quiet_padRight (width value : Nat) : Quiet (padRight width value) :=
  (quiet_unsigned value).append (quiet_blanks _)

theorem quiet_hex (width value : Nat) : Quiet (hex width value) := by
  intro symbol member
  rcases PyInt.symbol_of_mem_hexPadded PyInt.keepsDigits_toUpper rfl rfl width value member with
    digit | ⟨negative, _⟩
  · refine ⟨?_, (PyInt.plain_of_number_symbol (Or.inl digit)).2.2.1⟩
    rintro rfl
    exact absurd digit (by decide)
  · omega

theorem quiet_slotFront (slot : Nat) (desc : SlotDesc) : Quiet (slotFront slot desc) := by
  unfold slotFront
  have literals : Quiet (ascii "  ") ∧ Quiet (ascii "     ") ∧ Quiet (ascii " ") ∧
      Quiet (ascii " 0x") := by decide
  obtain ⟨two, five, one, base⟩ := literals
  exact ((((((((two.append (quiet_unsigned _)).append five).append (quiet_padLeft _ _)).append
    two).append (quiet_padRight _ _)).append one).append (quiet_padRight _ _)).append base).append
      (quiet_hex _ _) |>.append two

/-- A match starts with a dash. -/
theorem findAll_quiet {text : Text} (quiet : Quiet text) (rest : Text) :
    findAll sheetMatch 0 (text ++ rest) = findAll sheetMatch 0 rest := by
  refine findAll_append fun symbol member behind => ?_
  have dash : dropPrefix? (ascii "->") (symbol :: behind) = none :=
    if_neg (quiet symbol member).1.symm
  unfold sheetMatch
  rw [dash]
  rfl

theorem digits_unsigned (value : Nat) {symbol : Char} (stops : isDigit symbol = false)
    (rest : Text) :
    digits (unsigned value ++ symbol :: rest) = some (unsigned value, symbol :: rest) := by
  have all : ∀ other ∈ unsigned value, isDigit other = true := fun other member =>
    PyInt.digitVal_of_mem_decimal member
  have nonempty : unsigned value ≠ [] := Nat.toDigits_ne_nil
  unfold digits
  rw [Text.takeWhile_append_stop stops, Text.dropWhile_append_stop stops,
    List.takeWhile_eq_self_iff.mpr all, List.dropWhile_eq_nil_iff.mpr all, List.nil_append,
    if_neg (by simpa using nonempty)]

/-- A dumped slot's line is found with its file and the size of its tiles. -/
theorem sheetMatch_slot (slot width height : Nat) (rest : Text) :
    sheetMatch (ascii "-> " ++ sheetName slot ++ ascii " (tile " ++ unsigned width ++ ascii "x" ++
      unsigned height ++ ascii ")" ++ rest) = some ((sheetName slot, width, height), rest) := by
  have dropped : ∀ pattern behind : Text, dropPrefix? pattern (pattern ++ behind) = some behind :=
    fun _ _ => dropPrefix?_eq_some.mpr rfl
  have blank : ∀ {symbol : Char} (behind : Text), PyInt.pySpace symbol = false →
      spaces (ascii " " ++ symbol :: behind) = some (symbol :: behind) := by
    intro symbol behind plain
    show spaces (' ' :: symbol :: behind) = _
    unfold spaces
    rw [List.takeWhile_cons_of_pos rfl, List.dropWhile_cons_of_pos rfl,
      List.dropWhile_cons_of_neg (by rw [plain]; decide)]
    rfl
  have blankDigits : ∀ behind, spaces (ascii " " ++ (unsigned width ++ behind)) =
      some (unsigned width ++ behind) := by
    intro behind
    cases written : unsigned width with
    | nil => exact absurd written Nat.toDigits_ne_nil
    | cons first tail =>
        have member : first ∈ unsigned width := written ▸ List.mem_cons_self
        exact blank _ (PyInt.plain_of_decimalDigit (PyInt.digitVal_of_mem_decimal member)).1
  have toName : ∀ behind, spaces (ascii " " ++ (ascii "font_slot" ++ behind)) =
      some (ascii "font_slot" ++ behind) := fun behind => blank (ascii "ont_slot" ++ behind) rfl
  have toTile : ∀ behind, spaces (ascii " " ++ (ascii "(tile" ++ behind)) =
      some (ascii "(tile" ++ behind) := fun behind => blank (ascii "tile" ++ behind) rfl
  have slotDigits : ∀ behind, digits (unsigned slot ++ (ascii ".i8" ++ behind)) =
      some (unsigned slot, ascii ".i8" ++ behind) := fun behind =>
    digits_unsigned slot rfl (ascii "i8" ++ behind)
  have widthDigits : ∀ behind, digits (unsigned width ++ (ascii "x" ++ behind)) =
      some (unsigned width, ascii "x" ++ behind) := fun behind => digits_unsigned width rfl behind
  have heightDigits : digits (unsigned height ++ (ascii ")" ++ rest)) =
      some (unsigned height, ascii ")" ++ rest) := digits_unsigned height rfl rest
  have arrow : ascii "-> " = ascii "->" ++ ascii " " := rfl
  have tile : ascii " (tile " = ascii " " ++ (ascii "(tile" ++ ascii " ") := rfl
  have widthRead : PyInt.natLiteral 10 (unsigned width) = some width :=
    PyInt.natLiteral_decimal width
  have heightRead : PyInt.natLiteral 10 (unsigned height) = some height :=
    PyInt.natLiteral_decimal height
  simp only [sheetMatch, sheetName, arrow, tile, List.append_assoc, Option.bind_eq_bind, dropped,
    Option.bind_some, toName, slotDigits, toTile, blankDigits, widthDigits, heightDigits,
    widthRead, heightRead, Option.pure_def]

/-! ## Dump and pictures -/

section Pipeline

variable (rdram : Rdram) (fontState : UInt32) (opens : Nat → Bool)

/-- What the line of a slot names. -/
def slotSheet (slot : Nat) : Option (Text × Nat × Nat) :=
  let desc := slotDesc rdram fontState slot
  if desc.skipped then none
  else some (sheetName slot, desc.width.toNat, desc.height.toNat)

theorem foldl_dumpSlot_log (slots : List Nat) (dump : Dump) :
    (slots.foldl (dumpSlot rdram fontState opens) dump).log =
      dump.log ++ slots.flatMap (slotLine rdram fontState opens) := by
  induction slots generalizing dump with
  | nil => exact (List.append_nil _).symm
  | cons slot slots inductionHypothesis =>
      rw [List.foldl_cons, inductionHypothesis, List.flatMap_cons, ← List.append_assoc]
      rfl

theorem sheetName_inj {left right : Nat} (same : sheetName left = sheetName right) :
    left = right := by
  have digits' := List.append_cancel_left (List.append_cancel_right same)
  have read := congrArg (PyInt.natLiteral 10) digits'
  unfold unsigned at read
  rw [PyInt.natLiteral_decimal, PyInt.natLiteral_decimal] at read
  exact Option.some.inj read

/-- The file of a slot, or the one that was there. -/
theorem foldl_dumpSlot_files (slots : List Nat) (dump : Dump) (slot : Nat) :
    (slots.foldl (dumpSlot rdram fontState opens) dump).files (sheetName slot) =
      if slot ∈ slots then (slotFile rdram fontState opens slot).or (dump.files (sheetName slot))
      else dump.files (sheetName slot) := by
  induction slots generalizing dump with
  | nil => rfl
  | cons first slots inductionHypothesis =>
      rw [List.foldl_cons, inductionHypothesis]
      have step : (dumpSlot rdram fontState opens dump first).files (sheetName slot) =
          if slot = first then (slotFile rdram fontState opens slot).or (dump.files (sheetName slot))
          else dump.files (sheetName slot) := by
        unfold dumpSlot
        by_cases here : slot = first
        · subst here
          rw [if_pos rfl]
          cases slotFile rdram fontState opens slot with
          | none => rfl
          | some sheet => exact Function.update_self ..
        · rw [if_neg here]
          cases slotFile rdram fontState opens first with
          | none => rfl
          | some sheet =>
              exact Function.update_of_ne (fun same => here (sheetName_inj same)) _ _
      rw [step]
      by_cases here : slot = first
      · rw [if_pos here, if_pos (List.mem_cons.mpr (Or.inl here))]
        split
        · cases slotFile rdram fontState opens slot <;> rfl
        · rfl
      · simp only [List.mem_cons, here, false_or, if_false]

/-- A slot's line is found if the slot is dumped. -/
theorem findAll_slotLine (slot : Nat) (rest : Text) :
    findAll sheetMatch 0 (slotLine rdram fontState opens slot ++ rest) =
      (slotSheet rdram fontState slot).toList ++ findAll sheetMatch 0 rest := by
  have literals : Quiet (ascii "(skip)\n") ∧ Quiet (ascii " bytes ") ∧ Quiet (ascii "\n") := by decide
  obtain ⟨skip, bytes, feed⟩ := literals
  unfold slotLine slotSheet
  by_cases skipped : (slotDesc rdram fontState slot).skipped = true
  · simp only [if_pos skipped]
    exact findAll_quiet ((quiet_slotFront _ _).append skip) rest
  · simp only [if_neg skipped]
    have wrote := quiet_unsigned ((slotFile rdram fontState opens slot).getD []).length
    generalize unsigned ((slotFile rdram fontState opens slot).getD []).length = count at wrote
    generalize slotDesc rdram fontState slot = desc
    have front : Quiet (slotFront slot desc ++ count ++ ascii " bytes ") :=
      ((quiet_slotFront slot desc).append wrote).append bytes
    have line : slotFront slot desc ++ count ++ ascii " bytes -> " ++ sheetName slot ++
        ascii " (tile " ++ unsigned desc.width.toNat ++ ascii "x" ++ unsigned desc.height.toNat ++
        ascii ")\n" ++ rest = (slotFront slot desc ++ count ++ ascii " bytes ") ++
          ('-' :: (ascii "> " ++ (sheetName slot ++ ascii " (tile " ++ unsigned desc.width.toNat ++
            ascii "x" ++ unsigned desc.height.toNat ++ ascii ")")) ++ (ascii "\n" ++ rest)) := by
      have arrow : ascii " bytes -> " = ascii " bytes " ++ '-' :: ascii "> " := rfl
      have close : ascii ")\n" = ascii ")" ++ ascii "\n" := rfl
      simp only [arrow, close, List.append_assoc, List.cons_append]
    rw [line, findAll_quiet front, findAll_match, findAll_quiet feed]
    · rfl
    · rw [← sheetMatch_slot slot desc.width.toNat desc.height.toNat (ascii "\n" ++ rest)]
      have dash : ascii "-> " = '-' :: ascii "> " := rfl
      simp only [dash, List.append_assoc, List.cons_append]

theorem findAll_slotLines (slots : List Nat) :
    findAll sheetMatch 0 (slots.flatMap (slotLine rdram fontState opens)) =
      slots.filterMap (slotSheet rdram fontState) := by
  induction slots with
  | nil => rfl
  | cons slot slots inductionHypothesis =>
      rw [List.flatMap_cons, findAll_slotLine, inductionHypothesis, List.filterMap_cons]
      cases slotSheet rdram fontState slot <;> rfl

theorem slotLine_noReturn (slot : Nat) : '\r' ∉ slotLine rdram fontState opens slot := by
  have literals : Quiet (ascii "(skip)\n") ∧ Quiet (ascii "font_slot") ∧ Quiet (ascii ".i8") ∧
      Quiet (ascii " (tile ") ∧ Quiet (ascii "x") ∧ Quiet (ascii ")\n") := by decide
  obtain ⟨skip, font, type, tile, times, close⟩ := literals
  have arrow : '\r' ∉ ascii " bytes -> " := by decide
  unfold slotLine
  by_cases skipped : (slotDesc rdram fontState slot).skipped = true
  · simp only [if_pos skipped]
    exact ((quiet_slotFront _ _).append skip).noReturn
  · simp only [if_neg skipped, sheetName, List.mem_append, not_or]
    exact ⟨⟨⟨⟨⟨⟨⟨⟨(quiet_slotFront _ _).noReturn, (quiet_unsigned _).noReturn⟩, arrow⟩,
      ⟨font.noReturn, (quiet_unsigned _).noReturn⟩, type.noReturn⟩, tile.noReturn⟩,
      (quiet_unsigned _).noReturn⟩, times.noReturn⟩, (quiet_unsigned _).noReturn⟩, close.noReturn⟩

end Pipeline

/-- Neither dash of the header begins a match: no arrow, and no sheet behind the arrow. -/
theorem findAll_headLines (fontState : UInt32) (rest : Text) :
    findAll sheetMatch 0 (headLines fontState ++ rest) = findAll sheetMatch 0 rest := by
  have literals : Quiet (ascii "=== font dump ===\n  font") ∧
      Quiet (ascii "state ptr @0x800AD200 ") ∧ Quiet (ascii "> 0x") ∧ Quiet (ascii "\n") := by decide
  obtain ⟨title, pointer, base, feed⟩ := literals
  have whole : headLines fontState ++ rest = ascii "=== font dump ===\n  font" ++ ('-' ::
      (ascii "state ptr @0x800AD200 " ++ ('-' :: (ascii "> 0x" ++ (hex 8 fontState.toNat ++
        (ascii "\n" ++ rest)))))) := by
    simp only [headLines, List.append_assoc]
    rfl
  have dash : ∀ behind, findAll sheetMatch 0 ('-' :: (ascii "state ptr @0x800AD200 " ++ behind)) =
      findAll sheetMatch 0 (ascii "state ptr @0x800AD200 " ++ behind) := fun _ => rfl
  have arrow : ∀ behind, findAll sheetMatch 0 ('-' :: (ascii "> 0x" ++ behind)) =
      findAll sheetMatch 0 (ascii "> 0x" ++ behind) := fun _ => rfl
  rw [whole, findAll_quiet title, dash, findAll_quiet pointer, arrow, findAll_quiet base,
    findAll_quiet (quiet_hex 8 _), findAll_quiet feed]

theorem headLines_noReturn (fontState : UInt32) : '\r' ∉ headLines fontState := by
  have literals : '\r' ∉ ascii "=== font dump ===\n" ∧
      '\r' ∉ ascii "  font-state ptr @0x800AD200 -> 0x" ∧ '\r' ∉ ascii "\n" := by decide
  simp only [headLines, List.mem_append, not_or]
  exact ⟨⟨⟨literals.1, literals.2.1⟩, (quiet_hex _ _).noReturn⟩, literals.2.2⟩

theorem quiet_stateLines (state : Bytes) : Quiet (stateLines state) := by
  have literals : Quiet (ascii "  cur_slot=") ∧ Quiet (ascii " spacing=") ∧
      Quiet (ascii " line_height=") ∧ Quiet (ascii " flags=0x") ∧ Quiet (ascii "\n\n") ∧
      Quiet (ascii "  slot  adv  w    h    texbase     dumped\n") := by decide
  obtain ⟨cur, spacing, lineHeight, flags, feeds, columns⟩ := literals
  exact ((((((((cur.append (quiet_unsigned _)).append spacing).append (quiet_unsigned _)).append
    lineHeight).append (quiet_unsigned _)).append flags).append (quiet_hex _ _)).append
      feeds).append columns

/-- The renderer finds the slots that were dumped. -/
theorem findAll_fontdump (rdram : Rdram) (opens : Nat → Bool) (files : Text → Option Bytes) :
    findAll sheetMatch 0 (PyText.universalNewlines (fontdump rdram opens files).log) =
      if rdramRange (readU32 rdram 0x800AD200) 0x40 then
        (List.range 7).filterMap (slotSheet rdram (readU32 rdram 0x800AD200))
      else [] := by
  have plain : ∀ {text : Text}, '\r' ∉ text → PyText.universalNewlines text = text := fun none =>
    PyText.universalNewlines_eq_self fun symbol member same => none (same ▸ member)
  have outside : Quiet outsideLine := by decide
  unfold fontdump
  generalize readU32 rdram 0x800AD200 = fontState
  have head := headLines_noReturn fontState
  by_cases inRange : rdramRange fontState 0x40 = true
  · simp only [if_pos inRange]
    have state := quiet_stateLines (copyBytes rdram fontState 0x40)
    have slots : '\r' ∉ (List.range 7).flatMap (slotLine rdram fontState opens) := fun member => by
      obtain ⟨slot, _, inLine⟩ := List.mem_flatMap.mp member
      exact slotLine_noReturn rdram fontState opens slot inLine
    rw [foldl_dumpSlot_log, plain, List.append_assoc, findAll_headLines, findAll_quiet state,
      findAll_slotLines]
    simp only [List.mem_append, not_or]
    exact ⟨⟨head, state.noReturn⟩, slots⟩
  · simp only [if_neg inRange]
    rw [plain, findAll_headLines, ← List.append_nil outsideLine, findAll_quiet outside]
    · rfl
    · simp only [List.mem_append, not_or]
      exact ⟨head, outside.noReturn⟩

/-- The sheet of a slot as a picture of guest memory, with its number of glyphs. -/
def SlotDesc.picture (rdram : Rdram) (cols : Nat) (desc : SlotDesc) : Nat × Png :=
  let nglyphs := desc.bytes.toNat / desc.tile.toNat
  let grid := Grid.mk desc.width.toNat desc.height.toNat cols ((nglyphs + cols - 1) / cols)
  (nglyphs, ⟨grid.imageWidth, grid.imageHeight, (List.range grid.imageHeight).flatMap fun row =>
    0 :: (List.range grid.imageWidth).map
      (pixel grid nglyphs (fun i => guestRb rdram (desc.texbase + UInt32.ofNat i)) row)⟩)

theorem renderSheet_sheetBytes (rdram : Rdram) {cols : Nat} (positive : 0 < cols) {desc : SlotDesc}
    (dumped : desc.skipped = false) :
    renderSheet (sheetBytes rdram desc.texbase desc.bytes) desc.width.toNat desc.height.toNat cols =
      ((desc.picture rdram cols).1, some (desc.picture rdram cols).2) := by
  obtain ⟨_, glyph, _⟩ := SlotDesc.of_not_skipped dumped
  obtain ⟨inRange, holds, _⟩ := SlotDesc.bytes_range dumped
  have length : (sheetBytes rdram desc.texbase desc.bytes).length = desc.bytes.toNat := by
    rw [sheetBytes_eq rdram inRange, length_segment]
  rw [desc.tile_toNat] at glyph holds
  rw [renderSheet_eq _ glyph (length ▸ holds) positive, length]
  unfold SlotDesc.picture
  rw [desc.tile_toNat]
  refine Prod.ext rfl (congrArg some (congrArg (Png.mk _ _) ?_))
  refine List.flatMap_congr fun row _ => congrArg (List.cons 0) ?_
  refine List.map_congr_left fun column _ => pixel_congr (fun i inside => ?_) row column
  have inside' : i < desc.bytes.toNat :=
    Nat.lt_of_lt_of_le inside (Nat.div_mul_le_self desc.bytes.toNat _)
  rw [sheetBytes_eq rdram inRange, List.getD_eq_getElem _ _ (by rwa [length_segment])]
  unfold Guest.segment
  rw [List.getElem_map, List.getElem_range]

/-- **What is rendered is guest memory**: after a dump the renderer finds exactly the slots that
were dumped, in order, each with its own size, and shows of each every glyph that fits before the
end of memory or the cap, every pixel where the layout puts it. A slot whose file could not be
opened shows what its file held before. -/
theorem fontrender_fontdump (rdram : Rdram) (opens : Nat → Bool) (files : Text → Option Bytes)
    {cols : Nat} (positive : 0 < cols) :
    fontrender (fontdump rdram opens files) cols =
      let fontState := readU32 rdram 0x800AD200
      if rdramRange fontState 0x40 then
        (List.range 7).filterMap fun slot =>
          let desc := slotDesc rdram fontState slot
          let name := sheetName slot
          if desc.skipped then none
          else if opens slot then
            let (glyphs, png) := desc.picture rdram cols
            some ⟨name, desc.width.toNat, desc.height.toNat, glyphs, some png⟩
          else (files name).map (rendering cols name desc.width.toNat desc.height.toNat)
      else [] := by
  have found := findAll_fontdump rdram opens files
  have file := fun slot => foldl_dumpSlot_files rdram (readU32 rdram 0x800AD200) opens
    (List.range 7) ⟨headLines (readU32 rdram 0x800AD200) ++
      stateLines (copyBytes rdram (readU32 rdram 0x800AD200) 0x40), files⟩ slot
  unfold fontrender
  rw [found]
  unfold fontdump
  generalize readU32 rdram 0x800AD200 = fontState at file
  by_cases inRange : rdramRange fontState 0x40 = true
  · simp only [if_pos inRange, List.filterMap_filterMap]
    refine List.filterMap_congr fun slot member => ?_
    unfold slotSheet
    by_cases skipped : (slotDesc rdram fontState slot).skipped = true
    · simp only [if_pos skipped, Option.bind_none]
    · have dumped := Bool.eq_false_iff.mpr skipped
      simp only [if_neg skipped, Option.bind_some]
      rw [file, if_pos member]
      unfold slotFile
      cases opened : opens slot with
      | false => simp [dumped]
      | true =>
          simp only [dumped, Bool.not_true, Bool.or_self, Bool.false_eq_true, if_false, if_true,
            Option.some_or, Option.map_some, rendering, renderSheet_sheetBytes rdram positive dumped]
  · simp only [if_neg inRange, List.filterMap_nil]

/-- A memory whose first slot has glyphs of two pixels. -/
def narrowFont : Rdram :=
  storeBytes (storeBytes (fun index => UInt8.ofNat index) 0xAD200 [0x80, 0, 1, 0]) 0x100
    ([12, 2, 1, 0, 0x80, 0, 4, 0] ++ List.replicate 48 0)

theorem fontrender_fontdump_narrowFont :
    (fontrender (fontdump narrowFont (fun _ => true) (fun _ => none)) 16).map (fun one =>
      (one.name, one.width, one.height, one.glyphs, one.png.map Png.height)) =
      [(ascii "font_slot0.i8", 1, 2, 256, some 49)] := by
  rw [fontrender_fontdump narrowFont (fun _ => true) (fun _ => none) (by decide)]
  decide +kernel

end StadiumRecomp.Font
