import StadiumRecomp.Guest.Checked
import StadiumRecomp.Hook.Render

/-!
Contract: no guest memory access of the text layer leaves RDRAM.

Owns: the glyph measurement on an allocation of RDRAM's size, and the theorem about all
accessors.

Does not own: the glyph routines, whose accesses are their own.
-/

set_option autoImplicit false

namespace StadiumRecomp.Hook

open StadiumRecomp.Lib
open StadiumRecomp.Guest

namespace Checked

/-- The rows of one column of a tile, up to the first with ink. -/
def columnFrom (rdram : Rdram) (tile : UInt32) (w : UInt8) (c : Nat) : Nat → Nat → Option Bool
  | 0, _ => some false
  | left + 1, y => do
      let byte ← Guest.Checked.guestRb rdram
        (tile + UInt32.ofNat y * w.toUInt32 + UInt32.ofNat c)
      if byte ≠ 0 then return true
      columnFrom rdram tile w c left (y + 1)

/-- The columns from the last one down, up to the first with ink. -/
def inkEdge (rdram : Rdram) (tile : UInt32) (w h : UInt8) : Nat → Option Nat
  | 0 => some 0
  | c + 1 => do
      let inked ← columnFrom rdram tile w c h.toNat 0
      if inked then return c + 1
      inkEdge rdram tile w h c

/-- `measure_glyph`. -/
def measureGlyph (glyph : GlyphCode) (world : World) (ctx : Context) (w h : UInt8)
    (texbase : UInt32) (ch : UInt8) : Option (World × Int) :=
  let g := glyph .index world (ctx.setReg 4 ch.toUInt32)
  let tile := texbase + g.2.reg 2 * w.toUInt32 * h.toUInt32
  if rdramRange tile (w.toUInt32 * h.toUInt32) then do
    let edge ← inkEdge g.1.rdram tile w h w.toNat
    return (g.1, edge)
  else some (g.1, -1)

theorem columnFrom_eq (rdram : Rdram) (tile : UInt32) (w : UInt8) (c left y : Nat) :
    columnFrom rdram tile w c left y = some ((List.range' y left).any fun y =>
      guestRb rdram (tile + UInt32.ofNat y * w.toUInt32 + UInt32.ofNat c) != 0) := by
  induction left generalizing y with
  | zero => rfl
  | succ left inductionHypothesis =>
      rw [columnFrom, Guest.Checked.guestRb_eq, inductionHypothesis, List.range'_succ,
        List.any_cons]
      simp only [Option.bind_eq_bind, Option.bind_some, Option.pure_def]
      by_cases inked :
          guestRb rdram (tile + UInt32.ofNat y * w.toUInt32 + UInt32.ofNat c) = 0
      · rw [if_neg (not_not.mpr inked), inked]
        rfl
      · rw [if_pos inked, bne_iff_ne.mpr inked, Bool.true_or]

theorem inkEdge_eq (rdram : Rdram) (tile : UInt32) (w h : UInt8) (columns : Nat) :
    inkEdge rdram tile w h columns = some (Hook.inkEdge rdram tile w h columns) := by
  induction columns with
  | zero => rfl
  | succ c inductionHypothesis =>
      have column : columnFrom rdram tile w c h.toNat 0 =
          some (columnInked rdram tile w h c) := by
        rw [columnFrom_eq, ← List.range_eq_range']
        rfl
      rw [inkEdge, Hook.inkEdge, column, inductionHypothesis]
      simp only [Option.bind_eq_bind, Option.bind_some, Option.pure_def]
      split <;> rfl

theorem measureGlyph_eq (glyph : GlyphCode) (world : World) (ctx : Context) (w h : UInt8)
    (texbase : UInt32) (ch : UInt8) :
    measureGlyph glyph world ctx w h texbase ch =
      some (Hook.measureGlyph glyph world ctx w h texbase ch) := by
  unfold measureGlyph Hook.measureGlyph
  simp only [inkEdge_eq, Option.bind_eq_bind, Option.bind_some, Option.pure_def]
  split <;> rfl

end Checked

/-! ## All accessors -/

/-- What a write leaves: the string and its NUL at their addresses, every other byte as it
was. -/
def WritesExactly (before after : Rdram) (va : UInt32) (s : Bytes) : Prop :=
  segment after va (s ++ [0]).length = s ++ [0] ∧
    ∀ paddr, ¬ Spans va s paddr → after (hostIndex paddr) = before (hostIndex paddr)

/-- Each accessor, whatever address and length it is given, succeeds on an allocation of
RDRAM's size and hits the addressed bytes. A string is written exactly where it has room with
its NUL. -/
theorem accessors_stay_in_rdram (glyph : GlyphCode) (world : World) (ctx : Context)
    (rdram : Rdram) :
    (∀ vaddr len, Guest.Checked.copyBytes rdram vaddr len = some (
      if rdramRange vaddr len then segment rdram vaddr len.toNat
      else List.replicate len.toNat 0)) ∧
    (∀ vaddr, Guest.Checked.readU32 rdram vaddr = some (
      if rdramRange vaddr 4 then
        (segment rdram vaddr 4).foldl
          (fun (value : UInt32) byte => (value <<< 8) ||| byte.toUInt32) 0
      else 0)) ∧
    (∀ va, Guest.Checked.guestRb rdram va = some (guestRb rdram va)) ∧
    (∀ ptr want wlen, Guest.Checked.guestPrefixEq rdram ptr want wlen = some (decide (
      rdramRange ptr (wlen.toUInt32 + 1) = true ∧ ∀ k < wlen.toNat,
        guestRb rdram (ptr + UInt32.ofNat k) = want.getD k 0))) ∧
    (∀ ptr, Guest.Checked.readTextArg rdram ptr = some (readTextArg rdram ptr) ∧
      ∀ text ∈ readTextArg rdram ptr, segment rdram ptr text.length = text) ∧
    (∀ w h texbase ch, Checked.measureGlyph glyph world ctx w h texbase ch =
      some (measureGlyph glyph world ctx w h texbase ch)) ∧
    (∀ fmt, Guest.Checked.readFormat rdram fmt = some (readFormat rdram fmt) ∧
      segment rdram fmt (readFormat rdram fmt).length = readFormat rdram fmt) ∧
    ∀ va s, s.length ≤ 0x300 → ∃ written after,
      Guest.Checked.writeGuestStr rdram va s = some (written, after) ∧
        (written = true ↔ rdramRange va (UInt32.ofNat s.length + 1) = true) ∧
        (written = true → WritesExactly rdram after va s) ∧
        (written = false → after = rdram) := by
  refine ⟨Guest.Checked.copyBytes_eq rdram, Guest.Checked.readU32_eq rdram,
    Guest.Checked.guestRb_eq rdram, Guest.Checked.guestPrefixEq_eq rdram,
    fun ptr => ⟨Guest.Checked.readTextArg_eq rdram ptr, fun _ => segment_of_readTextArg⟩,
    Checked.measureGlyph_eq glyph world ctx,
    fun fmt => ⟨Guest.Checked.readFormat_eq rdram fmt, segment_readFormat rdram fmt⟩, ?_⟩
  intro va s short
  rw [Guest.Checked.writeGuestStr_eq rdram va short]
  cases write : writeGuestStr rdram va s with
  | none =>
      have outside := rdramRange_of_writeGuestStr_none write
      refine ⟨false, rdram, rfl, ?_, ?_, fun _ => rfl⟩
      · rw [outside]
      · intro impossible
        cases impossible
  | some after =>
      have inside := (writeGuestStr_eq_some_iff.mp write).1
      refine ⟨true, after, rfl, ?_, ?_, ?_⟩
      · rw [inside]
      · intro _
        constructor
        · exact segment_writeGuestStr write short
        · intro paddr outside
          exact writeGuestStr_other write outside
      · intro impossible
        cases impossible

/-- Two letters and their NUL in the last three bytes of RDRAM. -/
theorem accessors_write_at_the_end :
    ∃ after,
      Guest.Checked.writeGuestStr (fun _ => 0) 0x807FFFFD [0x48, 0x69] = some (true, after) ∧
        segment after 0x807FFFFD 3 = [0x48, 0x69, 0] ∧
        ∀ paddr, ¬ Spans 0x807FFFFD [0x48, 0x69] paddr → after (hostIndex paddr) = 0 := by
  obtain ⟨written, after, wrote, inRange, exactly, -⟩ :=
    (accessors_stay_in_rdram (fun _ world ctx => (world, ctx))
      (.loaded (fun _ => 0) [] fun _ => 0) (.ofRegisters []) (fun _ => 0)).2.2.2.2.2.2.2
      0x807FFFFD [0x48, 0x69] (by decide)
  have yes : written = true := inRange.mpr (by decide)
  rw [yes] at wrote
  exact ⟨after, wrote, exactly yes⟩

end StadiumRecomp.Hook
