import StadiumRecomp.Hook.Xlate

/-!
Contract: what a call of the translation hook leaves of guest memory and registers.

Owns: the strings a call may look up, the memory the glyph routines lead to, the exits as
effects on memory and context, and the frame of a whole call.

Does not own: what the glyph routines do to memory.
-/

set_option autoImplicit false

namespace StadiumRecomp.Hook

open StadiumRecomp.Lib
open StadiumRecomp.Guest
open StadiumRecomp.Census
open StadiumRecomp.Translate

/-! ## Scratch slots -/

/-- Clearing the low three bits. -/
theorem toNat_and_not_seven (value : UInt32) : (value &&& ~~~7).toNat = value.toNat / 8 * 8 := by
  have mask : (~~~(7 : UInt32)).toNat = (2 ^ 29 - 1) <<< 3 := by decide
  have shifted : value.toNat / 8 * 8 = (value.toNat >>> 3) <<< 3 := by
    rw [Nat.shiftRight_eq_div_pow, Nat.shiftLeft_eq]
  rw [UInt32.toNat_and, mask, shifted]
  apply Nat.eq_of_testBit_eq
  intro i
  rw [Nat.testBit_and, Nat.testBit_shiftLeft, Nat.testBit_shiftLeft, Nat.testBit_shiftRight,
    Nat.testBit_two_pow_sub_one]
  by_cases low : i ≥ 3
  · rw [decide_eq_true low, Bool.true_and, Bool.true_and, show 3 + (i - 3) = i by omega]
    by_cases high : i - 3 < 29
    · rw [decide_eq_true high, Bool.and_true]
    · rw [decide_eq_false high, Bool.and_false]
      have outside : value.toNat < 2 ^ i :=
        Nat.lt_of_lt_of_le value.toNat_lt (Nat.pow_le_pow_right (by decide) (by omega))
      exact (Nat.testBit_lt_two_pow outside).symm
  · rw [decide_eq_false low, Bool.false_and, Bool.false_and, Bool.and_false]

/-- The distance of a slot from the stack pointer. -/
def slotDistance (isFmt : Bool) : Nat := if isFmt then 0x800 else 0xC00

/-- With headroom a slot is its distance below the stack pointer, aligned down. -/
theorem toNat_swapScratch {sp : UInt32} (headroom : ¬ sp < 0x80000C00) (isFmt : Bool) :
    (swapScratch sp isFmt).toNat = (sp.toNat - slotDistance isFmt) / 8 * 8 := by
  have low : 0x80000C00 ≤ sp.toNat := by
    rw [UInt32.lt_iff_toNat_lt] at headroom
    simpa using headroom
  unfold swapScratch
  rw [toNat_and_not_seven, UInt32.toNat_sub_of_le]
  · cases isFmt <;> rfl
  · rw [UInt32.le_iff_toNat_le]
    cases isFmt
    · exact Nat.le_trans (by decide) low
    · exact Nat.le_trans (by decide) low

/-- Below a stack pointer in RDRAM a slot is in RDRAM. -/
theorem rdramRange_swapScratch {sp : UInt32} (headroom : ¬ sp < 0x80000C00)
    (inside : sp < 0x80800000) (isFmt : Bool) :
    rdramRange (swapScratch sp isFmt) 1 = true := by
  have slot := toNat_swapScratch headroom isFmt
  rw [UInt32.lt_iff_toNat_lt] at headroom inside
  have low : (0x80000C00 : UInt32).toNat = 0x80000C00 := rfl
  have high : (0x80800000 : UInt32).toNat = 0x80800000 := rfl
  have one : (1 : UInt32).toNat = 1 := rfl
  have near : slotDistance isFmt ≤ 0xC00 := by cases isFmt <;> decide
  have away : 0x800 ≤ slotDistance isFmt := by cases isFmt <;> decide
  rw [rdramRange_iff]
  omega

/-! ## Registers -/

namespace Context

theorem reg_setReg (ctx : Context) (i : Fin 32) (value : UInt32) :
    (ctx.setReg i value).reg i = value := by
  unfold reg setReg
  simp only [Function.update_self, UInt32.toUInt32_toUInt64]

theorem gpr_setReg_of_ne (ctx : Context) {i j : Fin 32} (value : UInt32) (other : j ≠ i) :
    (ctx.setReg i value).gpr j = ctx.gpr j := Function.update_of_ne other ..

end Context

/-! ## Steps that leave the guest alone -/

/-- Same memory, table, flag and set of addresses. -/
structure KeepsGuest (before after : World) : Prop where
  rdram : after.rdram = before.rdram
  reload : after.reload = before.reload
  textPcs : after.textPcs = before.textPcs

namespace KeepsGuest

theorem refl (world : World) : KeepsGuest world world := ⟨rfl, rfl, rfl⟩

theorem trans {first middle last : World} (left : KeepsGuest first middle)
    (right : KeepsGuest middle last) : KeepsGuest first last :=
  ⟨right.rdram.trans left.rdram, right.reload.trans left.reload,
    right.textPcs.trans left.textPcs⟩

end KeepsGuest

theorem recordFinding_keepsGuest (world : World) (finding : UInt64 × DiscoveryLine) :
    KeepsGuest world (recordFinding world finding) := ⟨rfl, rfl, rfl⟩

theorem foldl_recordFinding_keepsGuest (findings : List (UInt64 × DiscoveryLine)) (world : World) :
    KeepsGuest world (findings.foldl recordFinding world) := by
  induction findings generalizing world with
  | nil => exact .refl world
  | cons finding rest inductionHypothesis =>
      exact (recordFinding_keepsGuest world finding).trans (inductionHypothesis _)

theorem dumpRegisters_keepsGuest (world : World) (ctx : Context) :
    KeepsGuest world (dumpRegisters world ctx) := by
  unfold dumpRegisters
  split
  · exact .refl world
  · exact ⟨rfl, rfl, rfl⟩

theorem xlateDiscovery_keepsGuest (world : World) (ctx : Context) (pc : UInt32) :
    KeepsGuest world (xlateDiscovery world ctx pc) := by
  have found := foldl_recordFinding_keepsGuest
    (watchFindings world.rdram ctx pc ++ longTextFindings world.rdram ctx pc) world
  have logged := found.trans (foldl_recordFinding_keepsGuest (pcLogFindings world.rdram ctx pc) _)
  unfold xlateDiscovery
  split
  · split
    · exact logged.trans (dumpRegisters_keepsGuest _ ctx)
    · exact logged
  · exact found

/-- A lookup takes and leaves the lock of the table. -/
theorem findXlate_eq {world after : World} {key : UInt64} {found : Option XlateVal}
    (looked : findXlate world key = (after, found)) :
    KeepsGuest world after ∧ world.reload.table.get? key = found := by
  cases looked
  exact ⟨⟨rfl, rfl, rfl⟩, rfl⟩

/-! ## Drawing -/

/-- Memory that calls of the glyph routines lead to. -/
inductive Drawn (glyph : GlyphCode) (first : Rdram) : Rdram → Prop
  | start : Drawn glyph first first
  | call (routine : Routine) (world : World) (ctx : Context) :
      Drawn glyph first world.rdram → Drawn glyph first (glyph routine world ctx).1.rdram

section Drawing

variable {glyph : GlyphCode} {first : Rdram} {world : World}

theorem measureGlyph_drawn (drawn : Drawn glyph first world.rdram) (ctx : Context) (w h : UInt8)
    (texbase : UInt32) (ch : UInt8) :
    Drawn glyph first (measureGlyph glyph world ctx w h texbase ch).1.rdram :=
  .call .index world (ctx.setReg 4 ch.toUInt32) drawn

theorem measureAdvance_drawn (drawn : Drawn glyph first world.rdram) (ctx : Context) (w h : UInt8)
    (texbase : UInt32) (slot : UInt8) (c : Nat) :
    Drawn glyph first (measureAdvance glyph ctx w h texbase slot world c).rdram :=
  measureGlyph_drawn drawn ctx w h texbase (UInt8.ofNat (0x20 + c))

theorem foldl_measureAdvance_drawn (ctx : Context) (w h : UInt8) (texbase : UInt32)
    (slot : UInt8) (codes : List Nat) (drawn : Drawn glyph first world.rdram) :
    Drawn glyph first (codes.foldl (measureAdvance glyph ctx w h texbase slot) world).rdram := by
  induction codes generalizing world with
  | nil => exact drawn
  | cons c rest inductionHypothesis =>
      exact inductionHypothesis (measureAdvance_drawn drawn ctx w h texbase slot c)

theorem measureSlot_drawn (drawn : Drawn glyph first world.rdram) (ctx : Context) (w h : UInt8)
    (texbase : UInt32) (slot slotAdv : UInt8) :
    Drawn glyph first (measureSlot glyph world ctx w h texbase slot slotAdv).rdram := by
  have narrow := measureGlyph_drawn drawn ctx w h texbase 0x69
  have wide := measureGlyph_drawn narrow ctx w h texbase 0x6D
  unfold measureSlot
  rw [World.rdram_setMetrics]
  split
  · exact foldl_measureAdvance_drawn ctx w h texbase slot (List.range 95) wide
  · exact wide

theorem calibrateSlot_drawn (drawn : Drawn glyph first world.rdram) (ctx : Context)
    (fs : UInt32) (slot slotAdv : UInt8) :
    Drawn glyph first (calibrateSlot glyph world ctx fs slot slotAdv).rdram := by
  unfold calibrateSlot
  split
  · exact drawn
  · have locked : Drawn glyph first (world.lock .slotm).rdram := drawn
    rw [World.rdram_unlock]
    split
    · exact locked
    · exact measureSlot_drawn locked ctx _ _ _ slot slotAdv

theorem drawGlyphs_drawn (ctx : Context) (drawing : Drawing) (eng : Bytes) (pen : Pen)
    (drawn : Drawn glyph first world.rdram) :
    Drawn glyph first (drawGlyphs glyph ctx drawing eng pen world).rdram := by
  induction eng generalizing pen world with
  | nil => exact drawn
  | cons c rest inductionHypothesis =>
      rw [drawGlyphs]
      split
      · exact inductionHypothesis _ drawn
      · exact inductionHypothesis _ (.call .draw world (glyphContext ctx pen c) drawn)

theorem drawStatic_drawn (env : Env) (drawn : Drawn glyph first world.rdram) (ctx : Context)
    (src eng : Bytes) (budgetGlyphs : Int) :
    Drawn glyph first (drawStatic env glyph world ctx src eng budgetGlyphs).rdram :=
  drawGlyphs_drawn ctx _ eng _ (calibrateSlot_drawn drawn ctx _ _ _)

end Drawing

/-- The hook's own write at the end of drawing, with the context it leaves. -/
def suppressed (drawn : Rdram) (ctx : Context) (scratch : UInt32) : Rdram × Context :=
  if rdramRange scratch 1 then
    (Function.update drawn (hostIndex (physical scratch).toNat) 0, ctx.setReg 6 scratch)
  else (drawn, ctx)

theorem selfRenderStatic_eq (env : Env) (glyph : GlyphCode) (world : World) (ctx : Context)
    (src eng : Bytes) (scratch : UInt32) (budgetGlyphs : Int) :
    ∃ drawn, Drawn glyph world.rdram drawn ∧
      ((selfRenderStatic env glyph world ctx src eng scratch budgetGlyphs).1.rdram,
        (selfRenderStatic env glyph world ctx src eng scratch budgetGlyphs).2) =
          suppressed drawn ctx scratch := by
  have blocked : Drawn glyph world.rdram
      (World.record { world with xlateActive := true } .beginRender).rdram := .start
  refine ⟨_, drawStatic_drawn env blocked ctx src eng budgetGlyphs, ?_⟩
  unfold selfRenderStatic suppressDraw suppressed
  split <;> rfl

/-! ## Exits -/

/-- The English that the table has for a string of a register. -/
def EnglishOf (table : Table) (shown : Fin 32 → Bytes → Prop) (register : Fin 32)
    (en : Bytes) : Prop :=
  ∃ text v, shown register text ∧ table.get? (pmsFnv1a text) = some v ∧ v.en = en

/-- What a call leaves by its exit: which of the strings it may look up had a key, which of the
registers it may repoint showed it, and whose English it is. -/
inductive Leaves (glyph : GlyphCode) (before : World) (ctx : Context) (texts : List Bytes)
    (registers : List (Fin 32)) (shown : Fin 32 → Bytes → Prop) (composed : Bytes → Prop) :
    Result → Prop
  | fell {world : World} (same : world.rdram = before.rdram) :
      Leaves glyph before ctx texts registers shown composed (fallThrough world ctx)
  | swapped {world : World} {register : Fin 32} {text : Bytes} {v : XlateVal}
      (isCandidate : register ∈ registers) (lookedUp : text ∈ texts)
      (isShown : shown register text)
      (found : before.reload.table.get? (pmsFnv1a text) = some v)
      (headroom : ¬ ctx.sp < 0x80000C00) (short : ¬ v.en.length > 0x300)
      (written : writeGuestStr before.rdram (swapScratch ctx.sp (hasPercent v.en)) v.en =
        some world.rdram) :
      Leaves glyph before ctx texts registers shown composed
        ⟨world, swapArgument ctx register (swapScratch ctx.sp (hasPercent v.en)) v.en,
          .swap register v.en⟩
  | rendered {world : World} {after : Context} {text en : Bytes} {drawn : Rdram}
      (lookedUp : text ∈ texts) (found : (before.reload.table.get? (pmsFnv1a text)).isSome)
      (means : EnglishOf before.reload.table shown 6 en ∨ composed en)
      (headroom : ¬ ctx.sp < 0x80000C00) (reached : Drawn glyph before.rdram drawn)
      (left : (world.rdram, after) = suppressed drawn ctx (swapScratch ctx.sp (hasPercent en))) :
      Leaves glyph before ctx texts registers shown composed ⟨world, after, .render en⟩

section Exits

variable {env : Env} {glyph : GlyphCode} {before world : World} {ctx : Context}
  {texts : List Bytes} {registers : List (Fin 32)} {shown : Fin 32 → Bytes → Prop}
  {composed : Bytes → Prop}

theorem fallThrough_leaves (keeps : KeepsGuest before world) :
    Leaves glyph before ctx texts registers shown composed (fallThrough world ctx) :=
  .fell keeps.rdram

theorem renderStatic_leaves {text : Bytes} (keeps : KeepsGuest before world)
    (lookedUp : text ∈ texts) (found : (before.reload.table.get? (pmsFnv1a text)).isSome)
    {eng : Bytes} (means : EnglishOf before.reload.table shown 6 eng ∨ composed eng)
    (headroom : ¬ ctx.sp < 0x80000C00) (src : Bytes) (budgetGlyphs : Int) :
    Leaves glyph before ctx texts registers shown composed (renderStatic env glyph world ctx src eng
      (swapScratch ctx.sp (hasPercent eng)) budgetGlyphs) := by
  obtain ⟨drawn, reached, left⟩ := selfRenderStatic_eq env glyph world ctx src eng
    (swapScratch ctx.sp (hasPercent eng)) budgetGlyphs
  rw [keeps.rdram] at reached
  exact .rendered lookedUp found means headroom reached left

theorem swapFormat_leaves {text : Bytes} {v : XlateVal} (keeps : KeepsGuest before world)
    (isCandidate : 6 ∈ registers) (lookedUp : text ∈ texts) (isShown : shown 6 text)
    (found : before.reload.table.get? (pmsFnv1a text) = some v)
    (headroom : ¬ ctx.sp < 0x80000C00) (short : ¬ v.en.length > 0x300) :
    Leaves glyph before ctx texts registers shown composed
      (swapFormat world ctx (swapScratch ctx.sp (hasPercent v.en)) v.en) := by
  unfold swapFormat
  split
  next => exact fallThrough_leaves keeps
  next rdram written =>
    rw [keeps.rdram] at written
    exact .swapped isCandidate lookedUp isShown found headroom short written

/-! ## The strings a call may look up -/

/-- The format of a string draw with the argument of a single `%s`. -/
def formatTexts (table : Table) (rdram : Rdram) (ctx : Context) : List Bytes :=
  let src := readFormat rdram (ctx.reg 6)
  if src = [] then []
  else
    src :: if (singleS (templateOf (table.get? (pmsFnv1a src)) src)).isSome then
      (readTextArg rdram (ctx.reg 7)).toList else []

/-- The strings the hook may look up for an address. -/
def lookedUp (table : Table) (rdram : Rdram) (ctx : Context) (pc : UInt32) : List Bytes :=
  if pc = kDescDrawPC then
    candidates.filterMap (fun register => readTextArg rdram (ctx.reg register))
  else if pc ≠ kStringDrawPC then (readTextArg rdram (ctx.reg 6)).toList
  else formatTexts table rdram ctx

/-- The registers the hook may repoint for an address. -/
def repointed (pc : UInt32) : List (Fin 32) := if pc = kDescDrawPC then candidates else [6]

/-- The register shows the hook a string. -/
def ShowsText (rdram : Rdram) (ctx : Context) (register : Fin 32) (text : Bytes) : Prop :=
  readTextArg rdram (ctx.reg register) = some text

/-- The register shows the string draw a format. -/
def ShowsFormat (rdram : Rdram) (ctx : Context) (register : Fin 32) (text : Bytes) : Prop :=
  readFormat rdram (ctx.reg register) = text ∧ text ≠ []

/-- What a register shows the hook for an address. -/
def Shows (rdram : Rdram) (ctx : Context) (pc : UInt32) : Fin 32 → Bytes → Prop :=
  if pc = kStringDrawPC then ShowsFormat rdram ctx else ShowsText rdram ctx

/-- The English of the argument in `r7`, in place of the `%s` of the format's English. -/
def Composed (table : Table) (rdram : Rdram) (ctx : Context) (en : Bytes) : Prop :=
  ∃ src p cls, ShowsFormat rdram ctx 6 src ∧
    singleS (templateOf (table.get? (pmsFnv1a src)) src) = some p ∧
      EnglishOf table (ShowsText rdram ctx) 7 cls ∧
        en = (templateOf (table.get? (pmsFnv1a src)) src).take p ++ cls ++
          (templateOf (table.get? (pmsFnv1a src)) src).drop (p + 2)

/-- Only the string draw composes. -/
def ComposedFor (table : Table) (rdram : Rdram) (ctx : Context) (pc : UInt32) (en : Bytes) : Prop :=
  pc = kStringDrawPC ∧ Composed table rdram ctx en

theorem xlateGeneral_leaves (keeps : KeepsGuest before world) (pc : UInt32) :
    Leaves glyph before ctx (readTextArg before.rdram (ctx.reg 6)).toList [6]
      (ShowsText before.rdram ctx) composed (xlateGeneral env glyph world ctx pc) := by
  unfold xlateGeneral
  rw [keeps.rdram]
  split
  · exact fallThrough_leaves keeps
  · split
    next => exact fallThrough_leaves keeps
    next src isText =>
      rw [isText]
      have member : src ∈ (some src).toList := List.mem_singleton_self src
      split
      next after looked => exact fallThrough_leaves (keeps.trans (findXlate_eq looked).1)
      next after v looked =>
        obtain ⟨taken, found⟩ := findXlate_eq looked
        have keeps := keeps.trans taken
        rw [taken.reload.symm.trans keeps.reload] at found
        split
        · exact fallThrough_leaves keeps
        next headroom =>
          split
          · exact fallThrough_leaves keeps
          next short =>
            split
            · exact renderStatic_leaves keeps member (by rw [found]; rfl)
                (.inl ⟨src, v, isText, found, rfl⟩) headroom src v.fitW
            · exact swapFormat_leaves keeps (List.mem_singleton_self _) member isText found
                headroom short

theorem xlateCandidates_leaves (keeps : KeepsGuest before world)
    (headroom : ¬ ctx.sp < 0x80000C00) (left : List (Fin 32)) (mayRepoint : left ⊆ registers)
    (mayLookUp : left.filterMap (fun register => readTextArg before.rdram (ctx.reg register)) ⊆
      texts) :
    Leaves glyph before ctx texts registers (ShowsText before.rdram ctx) composed
      (xlateCandidates ctx left world) := by
  induction left generalizing world with
  | nil => exact fallThrough_leaves keeps
  | cons register rest inductionHypothesis =>
      have mayRepointRest : rest ⊆ registers := fun other member =>
        mayRepoint (List.mem_cons_of_mem register member)
      rw [xlateCandidates, keeps.rdram]
      split
      next noText =>
        rw [List.filterMap_cons, noText] at mayLookUp
        exact inductionHypothesis keeps mayRepointRest mayLookUp
      next src isText =>
        rw [List.filterMap_cons, isText] at mayLookUp
        have mayLookUpRest := List.Subset.trans (List.subset_cons_self src _) mayLookUp
        split
        next after looked =>
          exact inductionHypothesis (keeps.trans (findXlate_eq looked).1) mayRepointRest
            mayLookUpRest
        next after v looked =>
          obtain ⟨taken, found⟩ := findXlate_eq looked
          have keeps := keeps.trans taken
          rw [taken.reload.symm.trans keeps.reload] at found
          split
          · exact inductionHypothesis keeps mayRepointRest mayLookUpRest
          next short =>
            dsimp only
            split
            next => exact inductionHypothesis keeps mayRepointRest mayLookUpRest
            next rdram written =>
              rw [keeps.rdram] at written
              exact .swapped (mayRepoint (List.mem_cons_self ..))
                (mayLookUp (List.mem_cons_self ..)) isText found headroom short written

theorem xlateDesc_leaves (keeps : KeepsGuest before world) :
    Leaves glyph before ctx
      (candidates.filterMap (fun register => readTextArg before.rdram (ctx.reg register)))
      candidates (ShowsText before.rdram ctx) composed (xlateDesc world ctx) := by
  unfold xlateDesc
  split
  · exact fallThrough_leaves keeps
  next headroom =>
    exact xlateCandidates_leaves keeps headroom candidates (fun _ => id) (fun _ => id)

/-- A template with a single `%s` has no other percent. -/
theorem hasPercent_of_singleS {tmpl cls : Bytes} {p : Nat} (single : singleS tmpl = some p)
    (plain : hasPercent cls = false) :
    hasPercent (tmpl.take p ++ cls ++ tmpl.drop (p + 2)) = false := by
  obtain ⟨_, alone⟩ := Option.filter_eq_some_iff.mp single
  rw [Bool.and_eq_true, beq_iff_eq, Bool.not_eq_true'] at alone
  obtain ⟨first, behind⟩ := alone
  have front : hasPercent (tmpl.take p) = false := by
    obtain ⟨_, _, none⟩ := Search.indexOf?_eq_some_iff.mp first
    unfold hasPercent
    rw [← Bool.not_eq_true, List.contains_iff_mem]
    intro member
    obtain ⟨i, within, same⟩ := List.mem_take_iff_getElem.mp member
    refine none i (by omega) ?_
    rw [List.drop_eq_getElem_cons (by omega), same]
    exact ⟨_, rfl⟩
  unfold hasPercent at *
  simp only [List.contains_append, front, plain, behind, Bool.or_false]

theorem xlateFormat_leaves (keeps : KeepsGuest before world) {src : Bytes} (lookedUp : src ∈ texts)
    (isShown : shown 6 src) (headroom : ¬ ctx.sp < 0x80000C00) :
    Leaves glyph before ctx texts [6] shown composed (xlateFormat env glyph world ctx src) := by
  unfold xlateFormat
  split
  next after looked => exact fallThrough_leaves (keeps.trans (findXlate_eq looked).1)
  next after v looked =>
    obtain ⟨taken, found⟩ := findXlate_eq looked
    have keeps := keeps.trans taken
    rw [taken.reload.symm.trans keeps.reload] at found
    split
    · exact fallThrough_leaves keeps
    next short =>
      split
      · exact swapFormat_leaves keeps (List.mem_singleton_self _) lookedUp isShown found headroom
          short
      · exact renderStatic_leaves keeps lookedUp (by rw [found]; rfl)
          (.inl ⟨src, v, isShown, found, rfl⟩) headroom src v.fitW

theorem hasPercent_classifier (found : Option XlateVal) :
    hasPercent (classifier found) = false := by
  unfold classifier
  split
  · split
    · rfl
    next plain => exact Bool.eq_false_iff.mpr plain
  · rfl

theorem eq_of_classifier {found : Option XlateVal} (translated : classifier found ≠ []) :
    ∃ v, found = some v ∧ v.en = classifier found := by
  cases found with
  | none => exact absurd rfl translated
  | some v =>
      refine ⟨v, rfl, ?_⟩
      unfold classifier at translated ⊢
      dsimp only at translated ⊢
      split at translated
      next => exact absurd rfl translated
      next plain => rw [if_neg plain]

/-- A composed text has no percent; it is the format's English with that of the argument. -/
theorem composeSingle_spec (keeps : KeepsGuest before world) (ctx : Context) (src : Bytes) :
    KeepsGuest before (composeSingle world ctx src).1 ∧
      ∀ full budget, (composeSingle world ctx src).2 = some (full, budget) →
        hasPercent full = false ∧
          ∃ p arg v, singleS (templateOf (before.reload.table.get? (pmsFnv1a src)) src) = some p ∧
            readTextArg before.rdram (ctx.reg 7) = some arg ∧
              before.reload.table.get? (pmsFnv1a arg) = some v ∧
                full = (templateOf (before.reload.table.get? (pmsFnv1a src)) src).take p ++ v.en ++
                  (templateOf (before.reload.table.get? (pmsFnv1a src)) src).drop (p + 2) := by
  have format : KeepsGuest before (findXlate world (pmsFnv1a src)).1 := ⟨keeps.1, keeps.2, keeps.3⟩
  have template : (findXlate world (pmsFnv1a src)).2 = before.reload.table.get? (pmsFnv1a src) :=
    congrArg (fun reload : Reload => reload.table.get? (pmsFnv1a src)) keeps.reload
  unfold composeSingle
  simp only [template, format.rdram]
  split
  next => exact ⟨format, fun _ _ impossible => by cases impossible⟩
  next p single =>
    split
    next => exact ⟨format, fun _ _ impossible => by cases impossible⟩
    next arg isText =>
      refine ⟨⟨keeps.1, keeps.2, keeps.3⟩, ?_⟩
      intro full budget composed
      rw [Option.ite_none_right_eq_some] at composed
      obtain ⟨⟨translated, _⟩, same⟩ := composed
      cases same
      have argument : (findXlate (findXlate world (pmsFnv1a src)).1 (pmsFnv1a arg)).2 =
          before.reload.table.get? (pmsFnv1a arg) :=
        congrArg (fun reload : Reload => reload.table.get? (pmsFnv1a arg)) keeps.reload
      rw [argument] at translated ⊢
      obtain ⟨v, found, isClass⟩ := eq_of_classifier translated
      refine ⟨hasPercent_of_singleS single (hasPercent_classifier _), p, arg, v, single, isText,
        found, ?_⟩
      rw [isClass]

theorem format_mem_formatTexts {table : Table} {rdram : Rdram}
    (nonempty : readFormat rdram (ctx.reg 6) ≠ []) :
    readFormat rdram (ctx.reg 6) ∈ formatTexts table rdram ctx := by
  unfold formatTexts
  rw [if_neg nonempty]
  exact List.mem_cons_self ..

theorem argument_mem_formatTexts {table : Table} {rdram : Rdram} {arg : Bytes}
    (nonempty : readFormat rdram (ctx.reg 6) ≠ [])
    (single : (singleS (templateOf (table.get? (pmsFnv1a (readFormat rdram (ctx.reg 6))))
      (readFormat rdram (ctx.reg 6)))).isSome)
    (isText : readTextArg rdram (ctx.reg 7) = some arg) :
    arg ∈ formatTexts table rdram ctx := by
  unfold formatTexts
  rw [if_neg nonempty, if_pos single, isText]
  exact List.mem_cons_of_mem _ (List.mem_singleton_self arg)

theorem xlateStringDraw_leaves (keeps : KeepsGuest before world) :
    Leaves glyph before ctx (formatTexts before.reload.table before.rdram ctx) [6]
      (ShowsFormat before.rdram ctx) (Composed before.reload.table before.rdram ctx)
      (xlateStringDraw env glyph world ctx) := by
  unfold xlateStringDraw
  rw [keeps.rdram]
  dsimp only
  split
  · exact fallThrough_leaves keeps
  next nonempty =>
    split
    · exact fallThrough_leaves keeps
    next headroom =>
      obtain ⟨kept, composes⟩ :=
        composeSingle_spec keeps ctx (readFormat before.rdram (ctx.reg 6))
      split
      next after full budget composed =>
        rw [composed] at kept composes
        obtain ⟨plain, p, arg, v, single, isText, found, isFull⟩ := composes full budget rfl
        have member := argument_mem_formatTexts nonempty (by rw [single]; rfl) isText
        rw [← plain]
        exact renderStatic_leaves kept member (by rw [found]; rfl)
          (.inr ⟨_, p, v.en, ⟨rfl, nonempty⟩, single, ⟨arg, v, isText, found, rfl⟩, isFull⟩)
          headroom full budget
      next after composed =>
        rw [composed] at kept
        exact xlateFormat_leaves kept (format_mem_formatTexts nonempty) ⟨rfl, nonempty⟩ headroom

theorem xlateArmed_leaves (keeps : KeepsGuest before world) (pc : UInt32) :
    Leaves glyph before ctx (lookedUp before.reload.table before.rdram ctx pc) (repointed pc)
      (Shows before.rdram ctx pc) (ComposedFor before.reload.table before.rdram ctx pc)
      (xlateArmed env glyph world ctx pc) := by
  have searched : KeepsGuest before
      (if env.textprobeArmed then xlateDiscovery world ctx pc else world) := by
    split
    · exact keeps.trans (xlateDiscovery_keepsGuest world ctx pc)
    · exact keeps
  unfold xlateArmed lookedUp repointed Shows
  dsimp only
  by_cases desc : pc = kDescDrawPC
  · rw [if_pos desc, if_pos desc, if_pos desc, if_neg (by rw [desc]; decide)]
    exact xlateDesc_leaves searched
  · rw [if_neg desc, if_neg desc, if_neg desc]
    by_cases draw : pc = kStringDrawPC
    · have composed : ComposedFor before.reload.table before.rdram ctx pc =
          Composed before.reload.table before.rdram ctx :=
        funext fun _ => propext (and_iff_right draw)
      rw [if_neg (not_not_intro draw), if_neg (not_not_intro draw), if_pos draw, composed]
      exact xlateStringDraw_leaves searched
    · rw [if_pos draw, if_pos draw, if_neg draw]
      exact xlateGeneral_leaves searched pc

end Exits

theorem reloadStep_rdram (env : Env) (world : World) :
    (reloadStep env world).rdram = world.rdram := by
  unfold reloadStep
  dsimp only
  split <;> rfl

theorem reloadStep_record (env : Env) (world : World) (event : Event) :
    KeepsGuest (reloadStep env world) (reloadStep env (world.record event)) := by
  unfold reloadStep
  rw [show (world.record event).calls = world.calls from rfl]
  dsimp only
  split <;> exact ⟨rfl, rfl, rfl⟩

/-- A call of the hook, its reload step aside. -/
theorem textXlate_leaves (env : Env) (glyph : GlyphCode) (world : World) (ctx : Context)
    (name : Option Bytes) :
    Leaves glyph (reloadStep env world) ctx
      (lookedUp (reloadStep env world).reload.table world.rdram ctx
        (parseFunPc env.longBits name))
      (repointed (parseFunPc env.longBits name))
      (Shows world.rdram ctx (parseFunPc env.longBits name))
      (ComposedFor (reloadStep env world).reload.table world.rdram ctx
        (parseFunPc env.longBits name)) (textXlate env glyph world ctx name) := by
  have keeps := reloadStep_record env world (.enterXlate world.xlateActive)
  have armed : Leaves glyph (reloadStep env world) ctx _ _ _ _ (xlateArmed env glyph _ ctx _) :=
    xlateArmed_leaves keeps (parseFunPc env.longBits name)
  rw [reloadStep_rdram] at armed
  unfold textXlate
  dsimp only
  split
  · exact .fell (reloadStep_rdram env world).symm
  · split
    · exact fallThrough_leaves keeps
    · exact armed

/-! ## The frame of a call -/

/-- Memory that differs at most where a string and its NUL stand. -/
def SameOutside (before after : Rdram) (va : UInt32) (s : Bytes) : Prop :=
  ∀ paddr, ¬ Spans va s paddr → after (hostIndex paddr) = before (hostIndex paddr)

/-- A context that differs at most in the given registers. -/
def SameExcept (before after : Context) (registers : List (Fin 32)) : Prop :=
  after.rest = before.rest ∧ ∀ i, i ∉ registers → after.gpr i = before.gpr i

/-- What a call may change, by its exit, for a table, memory, context and address. -/
structure TouchesOwnSlot (glyph : GlyphCode) (table : Table) (rdram : Rdram) (ctx : Context)
    (pc : UInt32) (result : Result) : Prop where
  untranslated : (∀ text ∈ lookedUp table rdram ctx pc, table.get? (pmsFnv1a text) = none) →
    result.world.rdram = rdram ∧ result.ctx = ctx
  fell : result.exit = .fallThrough → result.world.rdram = rdram ∧ result.ctx = ctx
  swapped : ∀ register en, result.exit = .swap register en →
    register ∈ repointed pc ∧ EnglishOf table (Shows rdram ctx pc) register en ∧
      SameExcept ctx result.ctx [6, register] ∧
        SameOutside rdram result.world.rdram (swapScratch ctx.sp (hasPercent en)) en
  rendered : ∀ en, result.exit = .render en →
    (EnglishOf table (Shows rdram ctx pc) 6 en ∨ ComposedFor table rdram ctx pc en) ∧
      SameExcept ctx result.ctx [6] ∧
      (∃ drawn, Drawn glyph rdram drawn ∧
        SameOutside drawn result.world.rdram (swapScratch ctx.sp (hasPercent en)) en) ∧
      (ctx.sp ≥ 0x80000000 → ctx.sp < 0x80800000 →
        result.ctx.reg 6 = swapScratch ctx.sp (hasPercent en) ∧
          rdramRange (result.ctx.reg 6) 1 = true ∧
            guestRb result.world.rdram (result.ctx.reg 6) = 0)

theorem sameExcept_setReg (ctx : Context) (register : Fin 32) (value : UInt32)
    (registers : List (Fin 32)) (member : register ∈ registers) :
    SameExcept ctx (ctx.setReg register value) registers := by
  refine ⟨rfl, fun i outside => Context.gpr_setReg_of_ne ctx value ?_⟩
  rintro rfl
  exact outside member

theorem sameExcept_swapArgument (ctx : Context) (register : Fin 32) (scratch : UInt32)
    (en : Bytes) : SameExcept ctx (swapArgument ctx register scratch en) [6, register] := by
  have pointed := sameExcept_setReg ctx register scratch [6, register]
    (List.mem_cons_of_mem _ (List.mem_singleton_self _))
  unfold swapArgument
  dsimp only
  split
  · have counted := sameExcept_setReg (ctx.setReg register scratch) 6 (UInt32.ofNat en.length)
      [6, register] (List.mem_cons_self ..)
    exact ⟨rfl, fun i outside => (counted.2 i outside).trans (pointed.2 i outside)⟩
  · exact pointed

/-- The empty string at the end of a drawing is in the slot, and `r6` points at it. -/
theorem suppressed_spec (drawn : Rdram) (ctx : Context) (scratch : UInt32) (en : Bytes) :
    SameExcept ctx (suppressed drawn ctx scratch).2 [6] ∧
      SameOutside drawn (suppressed drawn ctx scratch).1 scratch en ∧
        (rdramRange scratch 1 = true → (suppressed drawn ctx scratch).2.reg 6 = scratch ∧
          guestRb (suppressed drawn ctx scratch).1 scratch = 0) := by
  unfold suppressed
  split
  next inRange =>
    refine ⟨sameExcept_setReg ctx 6 scratch [6] (List.mem_singleton_self _), ?_, ?_⟩
    · intro paddr outside
      apply Function.update_of_ne
      intro same
      exact outside (by rw [hostIndex_inj.mp same]; exact ⟨le_rfl, Nat.le_add_right ..⟩)
    · intro _
      refine ⟨Context.reg_setReg ctx 6 scratch, ?_⟩
      unfold guestRb
      rw [if_pos inRange]
      exact Function.update_self ..
  next outOfRange =>
    exact ⟨⟨rfl, fun _ _ => rfl⟩, fun _ _ => rfl, fun inRange => absurd inRange outOfRange⟩

/-- Untranslated text falls through, and a translation touches only its own slot. -/
theorem textXlate_touchesOwnSlot (env : Env) (glyph : GlyphCode) (world : World) (ctx : Context)
    (name : Option Bytes) :
    TouchesOwnSlot glyph (reloadStep env world).reload.table world.rdram ctx
      (parseFunPc env.longBits name) (textXlate env glyph world ctx name) := by
  have leaves := textXlate_leaves env glyph world ctx name
  rw [← reloadStep_rdram env world] at leaves ⊢
  generalize textXlate env glyph world ctx name = result at leaves ⊢
  cases leaves with
  | fell same =>
      exact ⟨fun _ => ⟨same, rfl⟩, fun _ => ⟨same, rfl⟩,
        fun _ _ impossible => (by cases impossible), fun _ impossible => (by cases impossible)⟩
  | swapped isCandidate isLookedUp isShown found headroom short written =>
      refine ⟨fun missing => ?_, fun impossible => (by cases impossible), fun _ _ exit => ?_,
        fun _ impossible => (by cases impossible)⟩
      · rw [missing _ isLookedUp] at found
        cases found
      · cases exit
        exact ⟨isCandidate, ⟨_, _, isShown, found, rfl⟩, sameExcept_swapArgument ctx _ _ _,
          fun paddr outside => writeGuestStr_other written outside⟩
  | @rendered after ctx' text en drawn isLookedUp found means headroom reached left =>
      refine ⟨fun missing => ?_, fun impossible => (by cases impossible),
        fun _ _ impossible => (by cases impossible), fun _ exit => ?_⟩
      · rw [missing _ isLookedUp] at found
        cases found
      · cases exit
        obtain ⟨registers, outside, empty⟩ :=
          suppressed_spec drawn ctx (swapScratch ctx.sp (hasPercent en)) en
        rw [← left] at registers outside empty
        refine ⟨means, registers, ⟨drawn, reached, outside⟩, fun _ inside => ?_⟩
        have inRange := rdramRange_swapScratch headroom inside (hasPercent en)
        obtain ⟨points, isEmpty⟩ := empty inRange
        dsimp only at points ⊢
        rw [points]
        exact ⟨rfl, inRange, isEmpty⟩

end StadiumRecomp.Hook
