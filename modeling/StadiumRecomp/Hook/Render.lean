import Mathlib.Data.Rat.Floor
import StadiumRecomp.Hook.World

/-!
Contract: `self_render_static`, English drawn glyph by glyph in the place of the original.

Owns: the font state, the calibration of a font slot, glyph advances, the fit to the
Japanese footprint, the pen, and the empty string left for the caller's own draw.

Does not own: the glyph routines. `float` is exact here.
-/

set_option autoImplicit false

namespace StadiumRecomp.Hook

open StadiumRecomp.Lib
open StadiumRecomp.Guest
open StadiumRecomp.Translate

/-! ## Calibration -/

/-- `pct` of `glyph_width_pct`. -/
def pct : List Nat :=
  [50, 30, 42, 72, 62, 86, 82, 26, 40, 40, 52, 66, 30, 52, 30, 46,
    62, 62, 62, 62, 62, 62, 62, 62, 62, 62, 30, 30, 66, 66, 66, 55,
    90, 70, 70, 72, 76, 66, 62, 78, 78, 34, 50, 72, 60, 92, 80, 80,
    68, 80, 72, 66, 62, 78, 70, 96, 72, 68, 64, 40, 46, 40, 55, 60,
    34, 60, 62, 54, 62, 60, 40, 62, 62, 28, 34, 58, 28, 92, 62, 62,
    62, 62, 46, 52, 42, 62, 58, 88, 58, 58, 52, 46, 26, 46, 60]

def glyphWidthPct (c : UInt8) : Nat :=
  if c < 0x20 ∨ c > 0x7E then 60 else pct.getD (c.toNat - 0x20) 60

/-- Whether a column of a tile has ink. -/
def columnInked (rdram : Rdram) (tile : UInt32) (w h : UInt8) (c : Nat) : Bool :=
  (List.range h.toNat).any fun y =>
    guestRb rdram (tile + UInt32.ofNat y * w.toUInt32 + UInt32.ofNat c) != 0

/-- The last inked column among the first so many, plus one. -/
def inkEdge (rdram : Rdram) (tile : UInt32) (w h : UInt8) : Nat → Nat
  | 0 => 0
  | c + 1 => if columnInked rdram tile w h c then c + 1 else inkEdge rdram tile w h c

/-- `measure_glyph`. -/
def measureGlyph (glyph : GlyphCode) (world : World) (ctx : Context) (w h : UInt8)
    (texbase : UInt32) (ch : UInt8) : World × Int :=
  let g := glyph .index world (ctx.setReg 4 ch.toUInt32)
  let tile := texbase + g.2.reg 2 * w.toUInt32 * h.toUInt32
  (g.1, if rdramRange tile (w.toUInt32 * h.toUInt32) then inkEdge g.1.rdram tile w h w.toNat
    else -1)

/-- The metrics of one slot replaced. -/
def World.setMetrics (world : World) (slot : UInt8) (update : SlotMetrics → SlotMetrics) : World :=
  { world with slotm :=
      Function.update world.slotm slot.toNat (update (world.slotm slot.toNat)) }

@[simp] theorem World.rdram_setMetrics (world : World) (slot : UInt8)
    (update : SlotMetrics → SlotMetrics) : (world.setMetrics slot update).rdram = world.rdram := rfl

/-- The advance of a glyph from its measured ink. -/
def inkAdvance (w : UInt8) (c : Nat) (ink : Int) : UInt8 :=
  let iw :=
    if ink ≤ 0 then
      if c = 0 then w.toNat / 3 else w.toNat * glyphWidthPct (UInt8.ofNat (0x20 + c)) / 100
    else ink.toNat
  UInt8.ofNat (min (max (iw + 1) 2) 63)

/-- One pass of the loop over the 95 glyphs. -/
def measureAdvance (glyph : GlyphCode) (ctx : Context) (w h : UInt8) (texbase : UInt32)
    (slot : UInt8) (world : World) (c : Nat) : World :=
  let iw := measureGlyph glyph world ctx w h texbase (UInt8.ofNat (0x20 + c))
  iw.1.setMetrics slot fun m => { m with adv := Function.update m.adv c (inkAdvance w c iw.2) }

/-- The measurements of `calibrate_slot`, its lock held. -/
def measureSlot (glyph : GlyphCode) (world : World) (ctx : Context) (w h : UInt8)
    (texbase : UInt32) (slot slotAdv : UInt8) : World :=
  let wi := measureGlyph glyph world ctx w h texbase 0x69
  let wm := measureGlyph glyph wi.1 ctx w h texbase 0x6D
  let world :=
    if wi.2 > 0 ∧ wm.2 > 0 ∧ wi.2 * 10 < wm.2 * 7 ∧ wm.2 ≤ w.toNat then
      (List.range 95).foldl (measureAdvance glyph ctx w h texbase slot)
        (wm.1.setMetrics slot fun m => { m with proportional := true })
    else
      wm.1.setMetrics slot fun m =>
        { m with mono := UInt8.ofNat (max (slotAdv.toNat * 62 / 100) 4) }
  world.setMetrics slot fun m => { m with ready := true }

/-- `calibrate_slot`. -/
def calibrateSlot (glyph : GlyphCode) (world : World) (ctx : Context) (fs : UInt32)
    (slot slotAdv : UInt8) : World :=
  if slot ≥ 8 ∨ (world.slotm slot.toNat).ready then world
  else
    let world := world.lock .slotm
    let desc := fs + slot.toUInt32 * 8
    let h := guestRb world.rdram (desc + 1)
    let w := guestRb world.rdram (desc + 2)
    let texbase := readU32 world.rdram (desc + 4)
    let world :=
      if w = 0 ∨ h = 0 ∨ w > 64 ∨ h > 64 ∨ !rdramRange texbase (w.toUInt32 * h.toUInt32) then world
      else measureSlot glyph world ctx w h texbase slot slotAdv
    world.unlock .slotm

/-! ## Advances -/

/-- `gap`. -/
def gapOf (env : Env) : Nat :=
  let v := match env.xlateGap with
    | some e => CString.atoi e
    | none => -1000
  if 0 ≤ v ∧ v ≤ 16 then v.toNat else 1

/-- `fit_on`. -/
def fitOn (env : Env) : Bool :=
  match env.xlateFit with
  | some (first :: _) => first != 0x30
  | _ => true

/-- `adv_for`. -/
def advFor (ready : Bool) (m : SlotMetrics) (slotAdv : UInt8) (gap : Nat) (c : UInt8) : Nat :=
  let a :=
    if ready && m.proportional && c ≥ 0x20 && c ≤ 0x7E then (m.adv (c.toNat - 0x20)).toNat + gap
    else if ready then m.mono.toNat
    else slotAdv.toNat * glyphWidthPct c / 100 + gap
  max a 3

/-! ## Fit -/

def kMaxLines : Nat := 24

/-- Widths by line, and the line counted now. -/
structure LineWidths where
  width : Nat → Nat
  line : Nat

def LineWidths.initial : LineWidths := ⟨fun _ => 0, 0⟩

/-- The line behind a newline. -/
def nextLine (line : Nat) : Nat := if line < kMaxLines - 1 then line + 1 else line

def LineWidths.newline (widths : LineWidths) : LineWidths :=
  { widths with line := nextLine widths.line }

def LineWidths.add (widths : LineWidths) (advance : Nat) : LineWidths :=
  { widths with width :=
      Function.update widths.width widths.line (widths.width widths.line + advance) }

/-- `en_w` and `en_line`. -/
def englishWidths (adv : UInt8 → Nat) (eng : Bytes) : LineWidths :=
  eng.foldl (fun widths c => if c = 0x0A then widths.newline else widths.add (adv c)) .initial

/-- The Japanese loop, from the widths of what is already counted. -/
def japaneseFrom (slotAdv : Nat) : LineWidths → Bytes → LineWidths
  | widths, [] => widths
  | widths, [c] => if c = 0x0A then widths.newline else widths.add slotAdv
  | widths, c :: next :: rest =>
      if c = 0x0A then japaneseFrom slotAdv widths.newline (next :: rest)
      else if c ≥ 0x80 then japaneseFrom slotAdv (widths.add slotAdv) rest
      else japaneseFrom slotAdv (widths.add slotAdv) (next :: rest)

/-- `jp_w` and `jp_line`. -/
def japaneseWidths (slotAdv : Nat) (src : Bytes) : LineWidths :=
  japaneseFrom slotAdv .initial src

/-- The scale of a width that has to fit into another one. -/
def fitScale (room width : Int) : ℚ := if width > room ∧ width > 0 then room / width else 1

def LineWidths.total (widths : LineWidths) : Nat := ((List.range kMaxLines).map widths.width).sum

/-- `line_scale`. -/
def lineScale (fit : Bool) (slotAdv : UInt8) (adv : UInt8 → Nat) (src eng : Bytes)
    (budgetGlyphs : Int) (line : Nat) : ℚ :=
  if fit && slotAdv > 0 then
    let en := englishWidths adv eng
    if budgetGlyphs ≥ 0 then
      let bud := toInt32 (budgetGlyphs * slotAdv.toNat)
      if bud > 0 ∧ line < en.line + 1 then fitScale bud (en.width line) else 1
    else
      let jp := japaneseWidths slotAdv.toNat src
      if en.line + 1 = jp.line + 1 then
        if line < en.line + 1 then fitScale (jp.width line) (en.width line) else 1
      else fitScale jp.total en.total
  else 1

/-! ## Drawing -/

/-- What the loop over the glyphs uses throughout. -/
structure Drawing where
  ready : Bool
  slot : UInt8
  slotAdv : UInt8
  lineH : UInt8
  gap : Nat
  scale : Nat → ℚ
  x0 : Int

structure Pen where
  x : Int
  y : Int
  line : Nat

/-- `m` of `self_render_static`. -/
def World.metrics (world : World) (slot : UInt8) : SlotMetrics :=
  world.slotm (if slot < 8 then slot.toNat else 0)

/-- The advance behind a glyph, condensed on a line that has to fit. -/
def condensed (scale : ℚ) (advance : Nat) : Nat :=
  if scale < 1 then max ⌊advance * scale + 1 / 2⌋.toNat 3 else advance

/-- A copy of the context with the arguments of the glyph drawer. -/
def glyphContext (ctx : Context) (pen : Pen) (c : UInt8) : Context :=
  ((ctx.setReg 4 (UInt32.ofInt pen.x)).setReg 5 (UInt32.ofInt pen.y)).setReg 6 c.toUInt32

/-- The loop over the glyphs. -/
def drawGlyphs (glyph : GlyphCode) (ctx : Context) (drawing : Drawing) :
    Bytes → Pen → World → World
  | [], _, world => world
  | c :: rest, pen, world =>
      if c = 0x0A then
        drawGlyphs glyph ctx drawing rest
          ⟨drawing.x0, pen.y + drawing.lineH.toNat, nextLine pen.line⟩ world
      else
        let world := (glyph .draw world (glyphContext ctx pen c)).1
        let adv := advFor drawing.ready (world.metrics drawing.slot) drawing.slotAdv drawing.gap c
        let adv := condensed (drawing.scale pen.line) adv
        drawGlyphs glyph ctx drawing rest { pen with x := pen.x + adv } world

/-- `st`, `line_h`, `slot` and `slot_adv`. -/
def fontState (rdram : Rdram) : UInt32 × UInt8 × UInt8 × UInt8 :=
  let st := readU32 rdram 0x800AD200
  let (lineH, slot, slotAdv) :=
    if rdramRange st 0x40 then
      let slot := guestRb rdram (st + 0x38)
      (guestRb rdram (st + 0x3A), slot, guestRb rdram (st + slot.toUInt32 * 8))
    else (16, 0, 12)
  (st, if lineH = 0 then 16 else lineH, slot, slotAdv)

/-- A register as a screen coordinate, `(int16_t)(uint16_t)`. -/
def coordinate (ctx : Context) (i : Fin 32) : Int := (ctx.gpr i).toUInt16.toInt16.toInt

/-- What `self_render_static` draws, the hook blocked. -/
def drawStatic (env : Env) (glyph : GlyphCode) (world : World) (ctx : Context) (src eng : Bytes)
    (budgetGlyphs : Int) : World :=
  let (st, lineH, slot, slotAdv) := fontState world.rdram
  let world := calibrateSlot glyph world ctx st slot slotAdv
  let ready := (world.metrics slot).ready
  let adv := advFor ready (world.metrics slot) slotAdv (gapOf env)
  let scale := lineScale (fitOn env) slotAdv adv src eng budgetGlyphs
  let x0 := coordinate ctx 4
  drawGlyphs glyph ctx ⟨ready, slot, slotAdv, lineH, gapOf env, scale, x0⟩ eng
    ⟨x0, coordinate ctx 5, 0⟩ world

/-- The caller's own draw gets an empty string. -/
def suppressDraw (world : World) (ctx : Context) (scratch : UInt32) : World × Context :=
  if rdramRange scratch 1 then
    ({ world with rdram :=
        Function.update world.rdram (hostIndex (physical scratch).toNat) 0 },
      ctx.setReg 6 scratch)
  else (world, ctx)

/-- `self_render_static`, which always succeeds. -/
def selfRenderStatic (env : Env) (glyph : GlyphCode) (world : World) (ctx : Context)
    (src eng : Bytes) (scratch : UInt32) (budgetGlyphs : Int) : World × Context :=
  let prev := world.xlateActive
  let world := World.record { world with xlateActive := true } .beginRender
  let world := drawStatic env glyph world ctx src eng budgetGlyphs
  let left := suppressDraw world ctx scratch
  (World.record { left.1 with xlateActive := prev } .endRender, left.2)

end StadiumRecomp.Hook
