import Mathlib.Algebra.BigOperators.Group.List.Basic
import Mathlib.Algebra.Order.BigOperators.Group.List
import Mathlib.Tactic.FieldSimp
import Mathlib.Tactic.Linarith
import Mathlib.Tactic.Ring
import StadiumRecomp.Hook.Render

/-!
Contract: when the drawn English stays inside the Japanese footprint.

Owns: the glyphs `self_render_static` draws with the advance behind each, the advance of the
pen on a line, and the exact lines on which it exceeds the footprint.

Does not own: the budgets that replace a footprint.
-/

set_option autoImplicit false

namespace StadiumRecomp.Hook

open StadiumRecomp.Lib
open StadiumRecomp.Guest
open StadiumRecomp.Translate

/-! ## Strokes -/

/-- One drawn glyph, and how far the pen moves behind it. -/
structure Stroke where
  pen : Pen
  code : UInt8
  advance : Nat

/-- The strokes of the loop over the glyphs. -/
def strokes (drawing : Drawing) (adv : UInt8 → Nat) : Bytes → Pen → List Stroke
  | [], _ => []
  | c :: rest, pen =>
      if c = 0x0A then
        strokes drawing adv rest
          ⟨drawing.x0, pen.y + drawing.lineH.toNat, nextLine pen.line⟩
      else
        let advance := condensed (drawing.scale pen.line) (adv c)
        ⟨pen, c, advance⟩ ::
          strokes drawing adv rest { pen with x := pen.x + advance }

/-- The total advance of the pen on a line. -/
def advanceOn (drawn : List Stroke) (line : Nat) : Nat :=
  ((drawn.filter (fun stroke => stroke.pen.line = line)).map Stroke.advance).sum

/-- The glyph routines leave the host's metrics alone. -/
def KeepsMetrics (glyph : GlyphCode) : Prop :=
  ∀ routine world ctx, (glyph routine world ctx).1.slotm = world.slotm

def drawStroke (glyph : GlyphCode) (ctx : Context) (world : World) (stroke : Stroke) : World :=
  (glyph .draw world (glyphContext ctx stroke.pen stroke.code)).1

/-- The loop draws its strokes in turn. -/
theorem drawGlyphs_eq_strokes {glyph : GlyphCode} (keeps : KeepsMetrics glyph) (ctx : Context)
    (drawing : Drawing) (eng : Bytes) (pen : Pen) {world : World} {metrics : SlotMetrics}
    (here : world.metrics drawing.slot = metrics) :
    drawGlyphs glyph ctx drawing eng pen world =
      (strokes drawing (advFor drawing.ready metrics drawing.slotAdv drawing.gap) eng pen).foldl
        (drawStroke glyph ctx) world := by
  induction eng generalizing pen world with
  | nil => rfl
  | cons c rest inductionHypothesis =>
      rw [drawGlyphs, strokes]
      split
      · exact inductionHypothesis _ here
      · have same : (drawStroke glyph ctx world ⟨pen, c, 0⟩).metrics drawing.slot = metrics := by
          unfold World.metrics drawStroke
          rw [keeps]
          exact here
        have live : (glyph .draw world (glyphContext ctx pen c)).1.metrics drawing.slot =
            metrics := same
        simp only [live, List.foldl_cons]
        exact inductionHypothesis _ same

/-! ## Glyphs by line -/

/-- The glyphs of an English string with the line of each. -/
def englishGlyphs : Nat → Bytes → List (Nat × UInt8)
  | _, [] => []
  | line, c :: rest =>
      if c = 0x0A then englishGlyphs (nextLine line) rest
      else (line, c) :: englishGlyphs line rest

/-- The glyphs on one line. -/
def glyphsOn (eng : Bytes) (line : Nat) : Bytes :=
  ((englishGlyphs 0 eng).filter (fun glyph => glyph.1 = line)).map Prod.snd

theorem advanceOn_strokes_from (drawing : Drawing) (adv : UInt8 → Nat) (eng : Bytes) (pen : Pen)
    (line : Nat) : advanceOn (strokes drawing adv eng pen) line =
      (((englishGlyphs pen.line eng).filter (fun glyph => glyph.1 = line)).map
        (fun glyph => condensed (drawing.scale line) (adv glyph.2))).sum := by
  induction eng generalizing pen with
  | nil => rfl
  | cons c rest inductionHypothesis =>
      rw [strokes, englishGlyphs]
      split
      · exact inductionHypothesis _
      · have later := inductionHypothesis
          { pen with x := pen.x + condensed (drawing.scale pen.line) (adv c) }
        unfold advanceOn at later ⊢
        by_cases same : pen.line = line
        · subst same
          simp only [List.filter_cons_of_pos, decide_true, List.map_cons, List.sum_cons, later]
        · simp only [List.filter_cons, same, decide_false, Bool.false_eq_true, if_false, later]

theorem advanceOn_strokes (drawing : Drawing) (adv : UInt8 → Nat) (eng : Bytes) (x y : Int)
    (line : Nat) : advanceOn (strokes drawing adv eng ⟨x, y, 0⟩) line =
      ((glyphsOn eng line).map (fun c => condensed (drawing.scale line) (adv c))).sum := by
  rw [advanceOn_strokes_from]
  unfold glyphsOn
  rw [List.map_map]
  rfl

/-- The measuring pass from a state on. -/
theorem englishWidths_from (adv : UInt8 → Nat) (eng : Bytes) (widths : LineWidths) (line : Nat) :
    (eng.foldl (fun widths c => if c = 0x0A then widths.newline else widths.add (adv c))
        widths).width line =
      widths.width line + (((englishGlyphs widths.line eng).filter
        (fun glyph => glyph.1 = line)).map (fun glyph => adv glyph.2)).sum := by
  induction eng generalizing widths with
  | nil => rfl
  | cons c rest inductionHypothesis =>
      rw [List.foldl_cons, inductionHypothesis, englishGlyphs]
      split
      · rfl
      · show Function.update widths.width widths.line _ line + _ = _
        have stays : (widths.add (adv c)).line = widths.line := rfl
        rw [stays]
        by_cases same : widths.line = line
        · subst same
          simp only [Function.update_self, List.filter_cons_of_pos, decide_true, List.map_cons,
            List.sum_cons]
          omega
        · simp only [Function.update_of_ne (fun equal => same equal.symm), List.filter_cons,
            same, decide_false, Bool.false_eq_true, if_false]

/-- The measured width of a line is the sum of its advances. -/
theorem englishWidths_width (adv : UInt8 → Nat) (eng : Bytes) (line : Nat) :
    (englishWidths adv eng).width line = ((glyphsOn eng line).map adv).sum := by
  unfold englishWidths glyphsOn
  rw [englishWidths_from, List.map_map]
  exact Nat.zero_add _

theorem le_nextLine (line : Nat) : line ≤ nextLine line := by
  unfold nextLine
  split <;> omega

theorem englishGlyphs_le (adv : UInt8 → Nat) (eng : Bytes) (widths : LineWidths) :
    widths.line ≤ (eng.foldl (fun widths c =>
        if c = 0x0A then widths.newline else widths.add (adv c)) widths).line ∧
      ∀ glyph ∈ englishGlyphs widths.line eng, glyph.1 ≤ (eng.foldl (fun widths c =>
        if c = 0x0A then widths.newline else widths.add (adv c)) widths).line := by
  induction eng generalizing widths with
  | nil => exact ⟨Nat.le_refl _, fun _ impossible => absurd impossible List.not_mem_nil⟩
  | cons c rest inductionHypothesis =>
      rw [List.foldl_cons, englishGlyphs]
      split
      · obtain ⟨grows, bounded⟩ := inductionHypothesis widths.newline
        exact ⟨Nat.le_trans (le_nextLine widths.line) grows, bounded⟩
      · obtain ⟨grows, bounded⟩ := inductionHypothesis (widths.add (adv c))
        refine ⟨grows, ?_⟩
        intro glyph member
        rcases List.mem_cons.mp member with same | later
        · exact same ▸ grows
        · exact bounded glyph later

/-- No glyph stands behind the last line. -/
theorem glyphsOn_behind {adv : UInt8 → Nat} {eng : Bytes} {line : Nat}
    (behind : (englishWidths adv eng).line < line) : glyphsOn eng line = [] := by
  have bounded := (englishGlyphs_le adv eng .initial).2
  unfold glyphsOn
  rw [List.map_eq_nil_iff, List.filter_eq_nil_iff]
  intro glyph member
  have below : glyph.1 ≤ (englishWidths adv eng).line := bounded glyph member
  rw [decide_eq_true_eq]
  omega

/-! ## Rounding -/

/-- A glyph whose share of the room is under two and a half pixels. It is drawn three wide. -/
def isNarrow (room width advance : Nat) : Bool := 2 * advance * room < 5 * width

/-- By how much a glyph's rounded share of the room exceeds its share, where `2 * width` is a
pixel: what is missing to three pixels, or what the residue is short of a half. -/
def roundingExcess (room width advance : Nat) : Int :=
  if isNarrow room width advance then 6 * width - 2 * advance * room
  else width - ((2 * advance * room + width) % (2 * width) : Nat)

theorem condensed_eq {room width : Nat} (wide : room < width) (advance : Nat) :
    condensed ((room : ℚ) / width) advance =
      max ((2 * advance * room + width) / (2 * width)) 3 := by
  have positive : (0 : ℚ) < width := Nat.cast_pos.mpr (by omega)
  have small : (room : ℚ) / width < 1 := (div_lt_one positive).mpr (Nat.cast_lt.mpr wide)
  have share : (advance : ℚ) * (room / width) + 1 / 2 =
      ((2 * advance * room + width : Nat) : ℚ) / ((2 * width : Nat) : ℚ) := by
    push_cast
    field_simp
  have floor : ⌊(advance : ℚ) * (room / width) + 1 / 2⌋ =
      (((2 * advance * room + width) / (2 * width) : Nat) : Int) := by
    rw [share, Rat.floor_natCast_div_natCast, Int.natCast_ediv]
  unfold condensed
  rw [if_pos small, floor, Int.toNat_natCast]

/-- A drawn advance is its share and the excess. -/
theorem condensed_excess {room width : Nat} (wide : room < width) (advance : Nat) :
    2 * (width : Int) * (condensed ((room : ℚ) / width) advance : Nat) =
      2 * advance * room + roundingExcess room width advance := by
  have divided := Nat.div_add_mod (2 * advance * room + width) (2 * width)
  rw [condensed_eq wide]
  unfold roundingExcess isNarrow
  by_cases narrow : 2 * advance * room < 5 * width
  · have few : (2 * advance * room + width) / (2 * width) < 3 :=
      Nat.div_lt_of_lt_mul (by omega)
    rw [if_pos (decide_eq_true narrow), max_eq_right (Nat.le_of_lt few)]
    push_cast
    ring
  · have many : 3 ≤ (2 * advance * room + width) / (2 * width) :=
      (Nat.le_div_iff_mul_le (by omega)).mpr (by omega)
    have cast := congrArg (fun value : Nat => (value : Int)) divided
    rw [if_neg (by simpa using narrow), max_eq_left many]
    push_cast at cast ⊢
    linarith

/-- The excess of one glyph is half a pixel at most, and three where it is narrow. -/
theorem roundingExcess_le (room width advance : Nat) :
    roundingExcess room width advance ≤
      width + 5 * width * (if isNarrow room width advance then 1 else 0 : Nat) := by
  unfold roundingExcess
  have share : (0 : Int) ≤ 2 * advance * room := by positivity
  split
  · push_cast
    linarith
  · have residue := Int.natCast_nonneg ((2 * advance * room + width) % (2 * width))
    push_cast at residue ⊢
    linarith

theorem sum_condensed {room width : Nat} (wide : room < width) (advances : List Nat) :
    2 * (width : Int) * ((advances.map (condensed ((room : ℚ) / width))).sum : Nat) =
      2 * advances.sum * room + (advances.map (roundingExcess room width)).sum := by
  induction advances with
  | nil => simp
  | cons advance rest inductionHypothesis =>
      have first := condensed_excess wide advance
      simp only [List.map_cons, List.sum_cons]
      push_cast at first inductionHypothesis ⊢
      linarith

/-- The excess of a line is half a pixel for each glyph at most, and what narrow ones add. -/
theorem sum_roundingExcess_le (room width : Nat) (advances : List Nat) :
    (advances.map (roundingExcess room width)).sum ≤
      width * (advances.length + 5 * (advances.countP (isNarrow room width)) : Nat) := by
  induction advances with
  | nil => simp
  | cons advance rest inductionHypothesis =>
      have first := roundingExcess_le room width advance
      rw [List.map_cons, List.sum_cons, List.length_cons, List.countP_cons]
      push_cast at first inductionHypothesis ⊢
      linarith

theorem fitScale_wide {room width : Nat} (wide : room < width) :
    fitScale room width = (room : ℚ) / width := by
  unfold fitScale
  rw [if_pos ⟨by omega, by omega⟩, Int.cast_natCast, Int.cast_natCast]

/-- Where there is room the advances stay as they are. -/
theorem condensed_fitScale {room width : Nat} (enough : width ≤ room) :
    condensed (fitScale room width) = id := by
  unfold fitScale
  rw [if_neg (by omega)]
  funext advance
  exact if_neg (lt_irrefl 1)

/-- The measured widths of a line fit: there is room for them as they are, or the residues of the
broad ones make up for the half pixel that each of these may gain and for what the narrow ones lack
of three pixels. -/
def WidthsFit (room : Nat) (advances : List Nat) : Prop :=
  let width := advances.sum
  let narrow := advances.filter (isNarrow room width)
  let broad := advances.filter fun advance => !isNarrow room width advance
  width ≤ room ∨
    broad.length * width + (narrow.map fun advance => 6 * width - 2 * advance * room).sum ≤
      (broad.map fun advance => (2 * advance * room + width) % (2 * width)).sum

theorem sum_roundingExcess (room width : Nat) (advances : List Nat) :
    let narrow := advances.filter (isNarrow room width)
    let broad := advances.filter fun advance => !isNarrow room width advance
    (advances.map (roundingExcess room width)).sum =
      ((broad.length * width + (narrow.map fun advance => 6 * width - 2 * advance * room).sum :
          Nat) : Int) -
        ((broad.map fun advance => (2 * advance * room + width) % (2 * width)).sum : Nat) := by
  induction advances with
  | nil => simp
  | cons advance rest inductionHypothesis =>
      dsimp only at inductionHypothesis ⊢
      rw [List.map_cons, List.sum_cons, inductionHypothesis]
      unfold roundingExcess
      by_cases narrow : isNarrow room width advance = true
      · have share : 2 * advance * room ≤ 6 * width := by
          unfold isNarrow at narrow
          rw [decide_eq_true_eq] at narrow
          omega
        simp only [narrow, if_true, List.filter_cons_of_pos, Bool.not_true, Bool.false_eq_true,
          not_false_eq_true, List.filter_cons_of_neg, List.map_cons, List.sum_cons]
        push_cast [share]
        ring
      · rw [Bool.not_eq_true] at narrow
        simp only [narrow, if_false, Bool.false_eq_true, not_false_eq_true,
          List.filter_cons_of_neg, Bool.not_false, List.filter_cons_of_pos, List.map_cons,
          List.sum_cons, List.length_cons]
        push_cast
        ring

/-- Condensed advances fit exactly when the measured ones do. -/
theorem condensed_fits_iff (advances : List Nat) (room : Nat) :
    (advances.map (condensed (fitScale room advances.sum))).sum ≤ room ↔
      WidthsFit room advances := by
  by_cases wide : room < advances.sum
  · have drawn := sum_condensed wide advances
    have gained : WidthsFit room advances ↔
        (advances.map (roundingExcess room advances.sum)).sum ≤ 0 := by
      unfold WidthsFit
      dsimp only
      rw [or_iff_right (Nat.not_le.mpr wide), sum_roundingExcess, sub_nonpos, Int.ofNat_le]
    rw [fitScale_wide wide, gained, ← Int.ofNat_le]
    constructor
    · intro fits
      have scaled := mul_le_mul_of_nonneg_left fits (show 0 ≤ 2 * (advances.sum : Int) by omega)
      linarith
    · intro nothing
      refine le_of_mul_le_mul_left ?_ (show 0 < 2 * (advances.sum : Int) by omega)
      linarith
  · have enough : advances.sum ≤ room := Nat.not_lt.mp wide
    rw [condensed_fitScale enough, List.map_id]
    exact iff_of_true enough (Or.inl enough)

/-- What they exceed the room by is bounded by their number. -/
theorem condensed_excess_le (advances : List Nat) (room : Nat) :
    2 * (advances.map (condensed (fitScale room advances.sum))).sum ≤
      2 * room + advances.length + 5 * advances.countP (isNarrow room advances.sum) := by
  by_cases wide : room < advances.sum
  · have drawn := sum_condensed wide advances
    have bounded := sum_roundingExcess_le room advances.sum advances
    have width : (0 : Int) < advances.sum := by omega
    rw [fitScale_wide wide]
    have scaled : 2 * ((advances.map (condensed ((room : ℚ) / advances.sum))).sum : Int) ≤
        2 * room + (advances.length + 5 * advances.countP (isNarrow room advances.sum) : Nat) := by
      refine le_of_mul_le_mul_left ?_ width
      linarith
    omega
  · have enough : advances.sum ≤ room := Nat.not_lt.mp wide
    rw [condensed_fitScale enough, List.map_id]
    omega
/-- Glyphs of one width fit exactly when they have room as they are, or three pixels each at least
and less than half a pixel each left over. -/
theorem widthsFit_replicate {advance : Nat} (positive : 0 < advance) (room count : Nat) :
    WidthsFit room (List.replicate count advance) ↔
      count * advance ≤ room ∨ 3 * count ≤ room ∧ 2 * (room % count) < count := by
  have same : (List.replicate count advance).sum = count * advance := by
    rw [List.sum_replicate, nsmul_eq_mul, Nat.cast_id]
  unfold WidthsFit
  dsimp only
  rw [same]
  refine or_congr_right' fun beyond => ?_
  have some_glyph : 0 < count := Nat.pos_of_ne_zero fun none => by
    rw [none, Nat.zero_mul] at beyond
    exact beyond (Nat.zero_le _)
  have divided := Nat.div_add_mod room count
  have small := Nat.mod_lt room some_glyph
  have narrow_iff : isNarrow room (count * advance) advance = true ↔ 2 * room < 5 * count := by
    unfold isNarrow
    rw [decide_eq_true_eq, show 2 * advance * room = advance * (2 * room) by ring,
      show 5 * (count * advance) = advance * (5 * count) by ring]
    exact Nat.mul_lt_mul_left positive
  by_cases narrow : 2 * room < 5 * count
  · have share : 2 * advance * room < 6 * (count * advance) := by
      have shares := (Nat.mul_lt_mul_left positive).mpr narrow
      have spare := Nat.mul_pos some_glyph positive
      linarith
    have lacks := Nat.mul_pos some_glyph (Nat.sub_pos_of_lt share)
    simp only [List.filter_replicate, narrow_iff.mpr narrow, Bool.not_true, Bool.false_eq_true,
      if_false, if_true, List.map_replicate, List.sum_replicate, nsmul_eq_mul, Nat.cast_id,
      List.length_nil, List.map_nil, List.sum_nil, Nat.zero_mul, Nat.zero_add]
    exact iff_of_false (by omega) (by omega)
  · have residue : (2 * advance * room + count * advance) % (2 * (count * advance)) =
        advance * ((2 * room + count) % (2 * count)) := by
      rw [← Nat.mul_mod_mul_left]
      congr 1 <;> ring
    have isBroad := Bool.eq_false_iff.mpr (mt narrow_iff.mp narrow)
    have half : count ≤ (2 * room + count) % (2 * count) ↔ 2 * (room % count) < count := by
      have shape : 2 * room + count = 2 * count * (room / count) + (2 * (room % count) + count) := by
        linarith
      rw [shape, Nat.mul_add_mod]
      by_cases low : 2 * (room % count) < count
      · rw [Nat.mod_eq_of_lt (by omega)]
        omega
      · rw [Nat.mod_eq_sub_mod (by omega), Nat.mod_eq_of_lt (by omega)]
        omega
    have enough (low : 2 * (room % count) < count) : 3 * count ≤ room := by
      by_contra short
      have quotient : room / count ≤ 2 := Nat.le_of_lt_succ (Nat.div_lt_of_lt_mul (by omega))
      have part := Nat.mul_le_mul_left count quotient
      omega
    simp only [List.filter_replicate, isBroad, Bool.not_false, Bool.false_eq_true, if_false, if_true,
      List.map_replicate, List.sum_replicate, nsmul_eq_mul, Nat.cast_id, List.map_nil, List.sum_nil,
      List.length_replicate, Nat.add_zero, residue]
    rw [Nat.mul_comm count advance, Nat.mul_le_mul_left_iff some_glyph,
      Nat.mul_le_mul_left_iff positive, half]
    exact ⟨fun low => ⟨enough low, low⟩, And.right⟩

/-! ## The whole draw -/

section Draw

variable (env : Env) (glyph : GlyphCode) (world : World) (ctx : Context) (src eng : Bytes)

/-- The advance of a Japanese glyph. -/
def slotAdvance : UInt8 := (fontState world.rdram).2.2.2

/-- What `calibrate_slot` leaves. -/
def calibrated : World :=
  calibrateSlot glyph world ctx (fontState world.rdram).1 (fontState world.rdram).2.2.1
    (slotAdvance world)

/-- The metrics the call measures and draws with. -/
def staticMetrics : SlotMetrics :=
  (calibrated glyph world ctx).metrics (fontState world.rdram).2.2.1

def staticAdvance : UInt8 → Nat :=
  advFor (staticMetrics glyph world ctx).ready (staticMetrics glyph world ctx)
    (slotAdvance world) (gapOf env)

/-- The drawing without a budget of its own. -/
def staticDrawing : Drawing where
  ready := (staticMetrics glyph world ctx).ready
  slot := (fontState world.rdram).2.2.1
  slotAdv := slotAdvance world
  lineH := (fontState world.rdram).2.1
  gap := gapOf env
  scale := lineScale (fitOn env) (slotAdvance world) (staticAdvance env glyph world ctx) src eng (-1)
  x0 := coordinate ctx 4

/-- The strokes of `self_render_static`. -/
def staticStrokes : List Stroke :=
  strokes (staticDrawing env glyph world ctx src eng) (staticAdvance env glyph world ctx) eng
    ⟨coordinate ctx 4, coordinate ctx 5, 0⟩

/-- The width of the Japanese text on a line. -/
def footprint (line : Nat) : Nat :=
  (japaneseWidths (slotAdvance world).toNat src).width line

theorem drawStatic_eq_strokes {glyph : GlyphCode} (keeps : KeepsMetrics glyph) :
    drawStatic env glyph world ctx src eng (-1) =
      (staticStrokes env glyph world ctx src eng).foldl (drawStroke glyph ctx)
        (calibrated glyph world ctx) :=
  drawGlyphs_eq_strokes keeps ctx (staticDrawing env glyph world ctx src eng) eng
    ⟨coordinate ctx 4, coordinate ctx 5, 0⟩ rfl

variable {env glyph world ctx src eng}

/-- The scale of a line that has glyphs. -/
theorem staticDrawing_scale (fit : fitOn env = true) (positive : 0 < slotAdvance world)
    (sameLines : (englishWidths (staticAdvance env glyph world ctx) eng).line =
      (japaneseWidths (slotAdvance world).toNat src).line) {line : Nat}
    (inside : line ≤ (englishWidths (staticAdvance env glyph world ctx) eng).line) :
    (staticDrawing env glyph world ctx src eng).scale line =
      fitScale (footprint world src line)
        ((glyphsOn eng line).map (staticAdvance env glyph world ctx)).sum := by
  have fitting : (fitOn env && decide (slotAdvance world > 0)) = true := by
    rw [fit, decide_eq_true positive]
    rfl
  show lineScale (fitOn env) (slotAdvance world) (staticAdvance env glyph world ctx) src eng (-1)
    line = _
  unfold lineScale
  rw [if_pos fitting, if_neg (by decide)]
  simp only
  rw [if_pos (congrArg (· + 1) sameLines), if_pos (Nat.lt_succ_of_le inside),
    englishWidths_width]
  rfl

end Draw

/-- What is drawn in the place of a Japanese text, fitted to it line by line, stays on a
line inside the footprint exactly when the measured widths fit. Otherwise it exceeds the footprint
by half a pixel for each glyph at most, and by what is missing to three pixels. -/
theorem staticStrokes_fit_iff (env : Env) {glyph : GlyphCode} (keeps : KeepsMetrics glyph)
    (world : World) (ctx : Context) (src eng : Bytes) (fit : fitOn env = true)
    (positive : 0 < slotAdvance world)
    (sameLines : (englishWidths (staticAdvance env glyph world ctx) eng).line =
      (japaneseWidths (slotAdvance world).toNat src).line) :
    drawStatic env glyph world ctx src eng (-1) =
        (staticStrokes env glyph world ctx src eng).foldl (drawStroke glyph ctx)
          (calibrated glyph world ctx) ∧
      ∀ line,
        let advances := (glyphsOn eng line).map (staticAdvance env glyph world ctx)
        (advanceOn (staticStrokes env glyph world ctx src eng) line ≤ footprint world src line ↔
          WidthsFit (footprint world src line) advances) ∧
        2 * advanceOn (staticStrokes env glyph world ctx src eng) line ≤
          2 * footprint world src line + advances.length +
            5 * advances.countP (isNarrow (footprint world src line) advances.sum) := by
  refine ⟨drawStatic_eq_strokes env world ctx src eng keeps, ?_⟩
  intro line
  dsimp only
  unfold staticStrokes
  rw [advanceOn_strokes]
  by_cases inside : line ≤ (englishWidths (staticAdvance env glyph world ctx) eng).line
  · have drawn : (glyphsOn eng line).map (fun c =>
        condensed ((staticDrawing env glyph world ctx src eng).scale line)
          (staticAdvance env glyph world ctx c)) =
        ((glyphsOn eng line).map (staticAdvance env glyph world ctx)).map
          (condensed (fitScale (footprint world src line)
            ((glyphsOn eng line).map (staticAdvance env glyph world ctx)).sum)) := by
      rw [staticDrawing_scale fit positive sameLines inside, List.map_map]
      rfl
    rw [drawn]
    exact ⟨condensed_fits_iff _ _, condensed_excess_le _ _⟩
  · rw [glyphsOn_behind (Nat.not_le.mp inside)]
    exact ⟨iff_of_true (Nat.zero_le _) (Or.inl (Nat.zero_le _)), Nat.zero_le _⟩

/-! ## Five letters over two kana -/

/-- Glyph routines that do nothing. -/
def idleGlyph : GlyphCode := fun _ world ctx => (world, ctx)

/-- A fresh layer over an RDRAM of zeros, so with the default font state. -/
def freshWorld : World := .loaded (fun _ => 0) [] fun _ => 0

def noRegisters : Context := .ofRegisters []

def twoKana : Bytes := [0xA4, 0xA2, 0xA4, 0xA4]

def fiveLetters : Bytes := List.replicate 5 0x61

theorem idleGlyph_keepsMetrics : KeepsMetrics idleGlyph := fun _ _ _ => rfl

theorem staticStrokes_fit_fiveLetters :
    drawStatic (.plain 64) idleGlyph freshWorld noRegisters twoKana fiveLetters (-1) =
        (staticStrokes (.plain 64) idleGlyph freshWorld noRegisters twoKana fiveLetters).foldl
          (drawStroke idleGlyph noRegisters) (calibrated idleGlyph freshWorld noRegisters) ∧
      ∀ line,
        let advances := (glyphsOn fiveLetters line).map
          (staticAdvance (.plain 64) idleGlyph freshWorld noRegisters)
        (advanceOn (staticStrokes (.plain 64) idleGlyph freshWorld noRegisters twoKana
            fiveLetters) line ≤ footprint freshWorld twoKana line ↔
          WidthsFit (footprint freshWorld twoKana line) advances) ∧
        2 * advanceOn (staticStrokes (.plain 64) idleGlyph freshWorld noRegisters twoKana
            fiveLetters) line ≤
          2 * footprint freshWorld twoKana line + advances.length +
            5 * advances.countP (isNarrow (footprint freshWorld twoKana line) advances.sum) :=
  staticStrokes_fit_iff (.plain 64) idleGlyph_keepsMetrics freshWorld noRegisters twoKana
    fiveLetters (by decide) (by decide) (by decide)

/-- Five advances of 8 scaled by 24/40 are 4.8 each, drawn as 5: 25 pixels over 24. -/
theorem staticStrokes_exceed_footprint :
    ¬ ∀ (env : Env) (glyph : GlyphCode) (world : World) (ctx : Context) (src eng : Bytes),
      KeepsMetrics glyph → fitOn env = true → 0 < slotAdvance world →
      (englishWidths (staticAdvance env glyph world ctx) eng).line =
        (japaneseWidths (slotAdvance world).toNat src).line →
      ∀ line, advanceOn (staticStrokes env glyph world ctx src eng) line ≤
        footprint world src line := by
  intro fits
  have bounded := fits (.plain 64) idleGlyph freshWorld noRegisters twoKana fiveLetters
    idleGlyph_keepsMetrics (by decide) (by decide) (by decide) 0
  have room : footprint freshWorld twoKana 0 = 24 := by decide
  have drawn : advanceOn (staticStrokes (.plain 64) idleGlyph freshWorld noRegisters twoKana
      fiveLetters) 0 = 25 := by decide +kernel
  omega

end StadiumRecomp.Hook
