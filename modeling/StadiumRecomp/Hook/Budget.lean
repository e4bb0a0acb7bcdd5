import StadiumRecomp.Hook.Render
import StadiumRecomp.Translate.Numbers

/-!
Contract: the width overrides of `translations.json`, from the digits of the file to the pixels
of the renderer.

Owns: the pixel budget as it can overflow, and the exact texts whose numbers stay in range at
every step.

Does not own: the widths of the English, and the footprint that stands in for an override.
-/

set_option autoImplicit false

namespace StadiumRecomp.Hook

open StadiumRecomp.Lib
open StadiumRecomp.Translate

/-! ## The budget -/

/-- `budget_glyphs * (int)slot_adv`; no result when that leaves `int`. -/
def pixelBudget (budgetGlyphs : Int) (slotAdv : UInt8) : Option Int :=
  let bud := budgetGlyphs * slotAdv.toNat
  if bud.natAbs ≤ intMax then some bud else none

/-- The hook draws the value itself: it is no template, and not too long. -/
def StaticValue (value : XlateVal) : Prop := hasPercent value.en = false ∧ value.en.length ≤ 0x300

/-- Every step from a width in the text to the budget of its entry stays in range. -/
structure NoOverflow (data : Bytes) : Prop where
  /-- Accumulation, negation and conversion yield the number of the text, or the default. -/
  reads : ∀ read ∈ intReads data, read.machine = some read.written
  /-- The override of a value drawn by itself has a budget in every font. -/
  budgets : ∀ key value, (loadTranslations data).get? key = some value → StaticValue value →
    0 ≤ value.fitW → ∀ slotAdv : UInt8, pixelBudget value.fitW slotAdv ≠ none

/-- No number of the text exceeds `long`, and no width of a value drawn by itself exceeds
8421504. -/
structure SmallWidths (data : Bytes) : Prop where
  reads : ∀ read ∈ intReads data, read.written.natAbs ≤ intMax
  budgets : ∀ key value, (writtenTable data).get? key = some value → StaticValue value →
    value.fitW ≤ 8421504

/-- An override has a budget in every font exactly when it has one in the widest. -/
theorem pixelBudget_iff {budgetGlyphs : Int} (override : 0 ≤ budgetGlyphs) :
    (∀ slotAdv : UInt8, pixelBudget budgetGlyphs slotAdv ≠ none) ↔ budgetGlyphs ≤ 8421504 := by
  have cap : intMax = 2147483647 := rfl
  obtain ⟨glyphs, rfl⟩ := Int.eq_ofNat_of_zero_le override
  have product (slotAdv : UInt8) :
      ((glyphs : Int) * (slotAdv.toNat : Int)).natAbs = glyphs * slotAdv.toNat := by
    rw [Int.natAbs_mul, Int.natAbs_natCast, Int.natAbs_natCast]
  unfold pixelBudget
  simp only [product]
  constructor
  · intro fits
    have widest : glyphs * 255 ≤ intMax := by
      by_contra exceeds
      exact fits 255 (if_neg exceeds)
    omega
  · intro small slotAdv
    have advance := slotAdv.toNat_lt
    have bound : glyphs * slotAdv.toNat ≤ 8421504 * 255 :=
      Nat.mul_le_mul (by omega) (by omega)
    rw [if_pos (by omega)]
    exact Option.some_ne_none _

/-- The numbers of a text stay in range if and only if they are small. -/
theorem noOverflow_iff (data : Bytes) : NoOverflow data ↔ SmallWidths data := by
  constructor
  · intro sound
    have small : ∀ read ∈ intReads data, read.written.natAbs ≤ intMax := by
      intro read member
      by_contra large
      have fails := sound.reads read member
      rw [read.machine_eq, if_neg large] at fails
      cases fails
    refine ⟨small, ?_⟩
    intro key value found static
    rw [← loadTranslations_of_small small] at found
    rcases Int.lt_or_le value.fitW 0 with absent | override
    · omega
    · exact (pixelBudget_iff override).mp (sound.budgets key value found static override)
  · intro small
    constructor
    · intro read member
      rw [read.machine_eq, if_pos (small.reads read member)]
    · intro key value found static override
      rw [loadTranslations_of_small small.reads] at found
      exact (pixelBudget_iff override).mpr (small.budgets key value found static)

/-- A width of eleven digits. -/
def longWidth : Bytes :=
  CString.bytesOf "[\x7b\"src_hex\":\"a4a2\",\"target\":\"A\",\"fit_w\":99999999999\x7d]"

theorem not_noOverflow_longWidth : ¬ NoOverflow longWidth := by
  intro sound
  have defined : (intReads longWidth).all (fun read => read.machine.isSome) = true := by
    rw [List.all_eq_true]
    intro read member
    rw [sound.reads read member]
    rfl
  revert defined
  decide +kernel

/-! ## The renderer -/

/-- In a text without overflow an override condenses a line to its number of advances. -/
theorem lineScale_of_noOverflow {data : Bytes} (sound : NoOverflow data) {key : UInt64}
    {value : XlateVal} (found : (loadTranslations data).get? key = some value)
    (static : StaticValue value) (override : 0 ≤ value.fitW) {slotAdv : UInt8} (wide : slotAdv > 0)
    (adv : UInt8 → Nat) (src : Bytes) (line : Nat) :
    lineScale true slotAdv adv src value.en value.fitW line =
      if 0 < value.fitW * slotAdv.toNat ∧ line < (englishWidths adv value.en).line + 1 then
        fitScale (value.fitW * slotAdv.toNat) ((englishWidths adv value.en).width line)
      else 1 := by
  have budget : toInt32 (value.fitW * slotAdv.toNat) = value.fitW * slotAdv.toNat := by
    apply toInt32_of_natAbs_le
    by_contra exceeds
    exact sound.budgets key value found static override slotAdv (if_neg exceeds)
  unfold lineScale
  rw [if_pos (by rw [decide_eq_true wide]; rfl), if_pos override, budget]

end StadiumRecomp.Hook
