import StadiumRecomp.Hook.Frame

/-!
Contract: which names the translation hook acts on.

Owns: the addresses a call itself adds to the set, and when a name outside the set and the
two fixed addresses is never translated.

Does not own: what is done for a name in the set.
-/

set_option autoImplicit false

namespace StadiumRecomp.Hook

open StadiumRecomp.Lib
open StadiumRecomp.Guest
open StadiumRecomp.Census
open StadiumRecomp.Translate

/-! ## The gate -/

/-- The addresses the reload step of a call adds. -/
def seededBy (env : Env) (world : World) : List UInt32 :=
  if world.calls &&& 0x3FF = 0 ∧ (world.reload.reads (env.file world.calls)).isSome then
    [kStringDrawPC, kPrintfPC]
  else []

/-- With these addresses in the set, no call for the name changes registers or memory,
unless the call adds the name's address. -/
def NeverTranslated (longBits : Nat) (name : Option Bytes) (slots : PcSlots) : Prop :=
  ∀ (env : Env) (glyph : GlyphCode) (world : World) (ctx : Context), env.longBits = longBits →
    world.textPcs = slots → parseFunPc longBits name ∉ seededBy env world →
      (textXlate env glyph world ctx name).world.rdram = world.rdram ∧
        (textXlate env glyph world ctx name).ctx = ctx

/-- After the reload step an address other than zero is in the set only if it was, or is
one of the step's own. -/
theorem reloadStep_slot {env : Env} {world : World} {pc : UInt32} {slot : Fin kTextPcSetN}
    (held : (reloadStep env world).textPcs slot = pc) :
    world.textPcs slot = pc ∨ pc ∈ seededBy env world := by
  unfold reloadStep at held
  dsimp only at held
  split at held
  next due =>
    rw [show ∀ world : World, (world.unlock .xlate).textPcs = world.textPcs from fun _ => rfl]
      at held
    dsimp only at held
    split at held
    next reads =>
      have seeds : seededBy env world = [kStringDrawPC, kPrintfPC] := if_pos ⟨due, reads⟩
      rw [seeds]
      rcases textpcAdd_slot (textpcAdd world.textPcs kStringDrawPC) kPrintfPC slot with same | same
      · rcases textpcAdd_slot world.textPcs kStringDrawPC slot with same' | same'
        · left
          rw [← held, ← same', ← same]
          rfl
        · right
          rw [← held]
          exact List.mem_cons.mpr (.inl (same.trans same'))
      · right
        rw [← held]
        exact List.mem_cons_of_mem _ (List.mem_singleton.mpr same)
    next => exact .inl held
  next => exact .inl held

/-- The hook for an address outside the set. -/
theorem textXlate_of_not_contains {env : Env} (glyph : GlyphCode) {world : World} (ctx : Context)
    {name : Option Bytes} (notDesc : parseFunPc env.longBits name ≠ kDescDrawPC)
    (notStringDraw : parseFunPc env.longBits name ≠ kStringDrawPC)
    (absent : textpcContains (reloadStep env world).textPcs (parseFunPc env.longBits name) =
      false) :
    (textXlate env glyph world ctx name).world.rdram = world.rdram ∧
      (textXlate env glyph world ctx name).ctx = ctx := by
  have keeps := reloadStep_record env world (.enterXlate world.xlateActive)
  have stays : ∀ after, KeepsGuest (reloadStep env world) after →
      (fallThrough after ctx).world.rdram = world.rdram ∧ (fallThrough after ctx).ctx = ctx :=
    fun after kept => ⟨kept.rdram.trans (reloadStep_rdram env world), rfl⟩
  have rejected : ∀ after, KeepsGuest (reloadStep env world) after →
      xlateGeneral env glyph after ctx (parseFunPc env.longBits name) = fallThrough after ctx := by
    intro after kept
    unfold xlateGeneral
    rw [kept.textPcs, absent]
    rfl
  unfold textXlate
  dsimp only
  split
  · exact ⟨rfl, rfl⟩
  · split
    · exact stays _ keeps
    · unfold xlateArmed
      rw [if_neg notDesc, if_pos notStringDraw]
      split
      · have kept := keeps.trans (xlateDiscovery_keepsGuest _ ctx (parseFunPc env.longBits name))
        rw [rejected _ kept]
        exact stays _ kept
      · rw [rejected _ keeps]
        exact stays _ keeps

section Gate

variable {τ : Type} [DecidableEq τ] {run : PcRun τ} {longBits : Nat} {name : Option Bytes}

/-- A name whose address is not zero, or is looked for in a full set, is rejected. -/
theorem neverTranslated_of_nonzero
    (neverAdded : ∀ adder, .startAdd adder (parseFunPc longBits name) ∉ run.events)
    (notDesc : parseFunPc longBits name ≠ kDescDrawPC)
    (notStringDraw : parseFunPc longBits name ≠ kStringDrawPC)
    (gated : parseFunPc longBits name ≠ 0 ∨ ∀ slot, run.config.slots slot ≠ 0) :
    NeverTranslated longBits name run.config.slots := by
  rintro env glyph world ctx rfl slots notSeeded
  refine textXlate_of_not_contains glyph ctx notDesc notStringDraw ?_
  rw [← Bool.not_eq_true]
  intro found
  obtain ⟨slot, held⟩ := exists_slot_of_containsFrom found
  rcases reloadStep_slot held with same | seeded
  · rw [slots] at same
    have nonzero : run.config.slots slot ≠ 0 := by
      rcases gated with nonzero | full
      · rw [same]
        exact nonzero
      · exact full slot
    obtain ⟨adder, started⟩ := exists_startAdd_of_slot nonzero
    rw [same] at started
    exact neverAdded adder started
  · exact notSeeded seeded

end Gate

/-! ## A name without an address -/

/-- A Japanese string at `0x80001000`, in `r6`, and a stack below `0x80100000`. -/
def kanaMemory : Rdram := storeBytes (fun _ => 0) 0x1000 [0xA4, 0xA2, 0]

def kanaContext : Context :=
  Context.ofRegisters [(4, 0x80001000), (5, 0x80001000), (6, 0x80001000), (29, 0x80100000)]

/-- The translation of the string. -/
def kanaEnglish : XlateVal := ⟨CString.bytesOf "A", -1, -1⟩

def kanaTable : Table := [(pmsFnv1a [0xA4, 0xA2], kanaEnglish)]

/-- A format swap of `xlate_general`, from what it reads. -/
theorem xlateGeneral_swap (env : Env) (glyph : GlyphCode) (world : World) (ctx : Context)
    (pc : UInt32) {src : Bytes} {v : XlateVal} {rdram : Rdram}
    (inSet : textpcContains world.textPcs pc = true)
    (isText : readTextArg world.rdram (ctx.reg 6) = some src)
    (found : world.reload.table.get? (pmsFnv1a src) = some v)
    (headroom : ¬ ctx.sp < 0x80000C00) (short : ¬ v.en.length > 0x300)
    (swapped : ¬ ((ctx.reg 4 < 0x1000 ∧ ctx.reg 5 < 0x1000) ∧ (!hasPercent v.en) = true))
    (written : writeGuestStr world.rdram (swapScratch ctx.sp (hasPercent v.en)) v.en =
      some rdram) :
    (xlateGeneral env glyph world ctx pc).ctx =
        ctx.setReg 6 (swapScratch ctx.sp (hasPercent v.en)) ∧
      (xlateGeneral env glyph world ctx pc).world.rdram = rdram := by
  have looked : findXlate world (pmsFnv1a src) =
      ((world.lock .xlate).unlock .xlate, some v) := by
    unfold findXlate
    rw [found]
  have stays : ((world.lock .xlate).unlock .xlate).rdram = world.rdram := rfl
  unfold xlateGeneral
  rw [inSet, isText]
  simp only [Bool.not_true, Bool.false_eq_true, if_false]
  rw [looked]
  dsimp only
  rw [if_neg headroom, if_neg short, if_neg swapped]
  unfold swapFormat
  rw [stays, written]
  exact ⟨rfl, rfl⟩

/-- A call away from a reload check, for a routine of the general path. -/
theorem textXlate_general (env : Env) (glyph : GlyphCode) (world : World) (ctx : Context)
    (name : Option Bytes) (inactive : world.xlateActive = false) (notDue : world.calls &&& 0x3FF ≠ 0)
    (armed : world.reload.armed = true) (unprobed : env.textprobeArmed = false)
    (notDesc : parseFunPc env.longBits name ≠ kDescDrawPC)
    (notStringDraw : parseFunPc env.longBits name ≠ kStringDrawPC) :
    textXlate env glyph world ctx name = xlateGeneral env glyph
      { world.record (.enterXlate false) with calls := world.calls + 1 } ctx
        (parseFunPc env.longBits name) := by
  have counted : reloadStep env (world.record (.enterXlate false)) =
      { world.record (.enterXlate false) with calls := world.calls + 1 } := if_neg notDue
  unfold textXlate
  dsimp only
  rw [World.xlateActive_record, inactive, counted, World.reload_record, armed]
  unfold xlateArmed
  rw [unprobed, if_neg notDesc, if_pos notStringDraw]
  rfl

/-- A name without an address is translated as long as the set has room. -/
theorem reg_textXlate_zero {longBits : Nat} {name : Option Bytes} {slots : PcSlots}
    (glyph : GlyphCode) (zero : parseFunPc longBits name = 0)
    (room : textpcContains slots 0 = true) :
    (textXlate (.plain longBits) glyph (.loaded kanaMemory kanaTable slots) kanaContext
      name).ctx.reg 6 = 0x800FF400 := by
  have isText : readTextArg kanaMemory (kanaContext.reg 6) = some [0xA4, 0xA2] := by
    decide +kernel
  have found : kanaTable.get? (pmsFnv1a [0xA4, 0xA2]) = some kanaEnglish := by decide +kernel
  have headroom : ¬ kanaContext.sp < 0x80000C00 := by decide +kernel
  have short : ¬ kanaEnglish.en.length > 0x300 := by decide +kernel
  have swapped : ¬ ((kanaContext.reg 4 < 0x1000 ∧ kanaContext.reg 5 < 0x1000) ∧
      (!hasPercent kanaEnglish.en) = true) := by decide +kernel
  have scratch : swapScratch kanaContext.sp (hasPercent kanaEnglish.en) = 0x800FF400 := by
    decide +kernel
  have inRange : rdramRange 0x800FF400 (UInt32.ofNat kanaEnglish.en.length + 1) = true := by
    decide +kernel
  have written : writeGuestStr kanaMemory (swapScratch kanaContext.sp
      (hasPercent kanaEnglish.en)) kanaEnglish.en = some _ :=
    writeGuestStr_eq_some_iff.mpr ⟨by rw [scratch]; exact inRange, rfl⟩
  have notDue : (1 : UInt64) &&& 0x3FF ≠ 0 := by decide
  have address : parseFunPc (Env.plain longBits).longBits name = 0 := zero
  have general := textXlate_general (.plain longBits) glyph (.loaded kanaMemory kanaTable slots)
    kanaContext name rfl notDue rfl rfl (by rw [address]; decide) (by rw [address]; decide)
  rw [address] at general
  rw [general, (xlateGeneral_swap (.plain longBits) glyph _ kanaContext 0 room isText found headroom
    short swapped written).1, Context.reg_setReg, scratch]

/-- Outside the set and the two fixed addresses, a name is safe exactly when its address is
not the zero that stands for no address and for an empty slot, or when no slot is empty. -/
theorem neverTranslated_iff {τ : Type} [DecidableEq τ] (run : PcRun τ) (longBits : Nat)
    (name : Option Bytes)
    (neverAdded : ∀ adder, .startAdd adder (parseFunPc longBits name) ∉ run.events)
    (notDesc : parseFunPc longBits name ≠ kDescDrawPC)
    (notStringDraw : parseFunPc longBits name ≠ kStringDrawPC) :
    NeverTranslated longBits name run.config.slots ↔
      parseFunPc longBits name ≠ 0 ∨ ∀ slot, run.config.slots slot ≠ 0 := by
  constructor
  · intro safe
    by_contra neither
    rw [not_or, not_not, not_forall] at neither
    obtain ⟨zero, slot, occupied⟩ := neither
    have room : textpcContains run.config.slots 0 = true :=
      textpcContains_zero_iff.mpr ⟨slot, not_not.mp occupied⟩
    let glyph : GlyphCode := fun _ world ctx => (world, ctx)
    have swapped := reg_textXlate_zero glyph zero room
    have notSeeded : parseFunPc longBits name ∉
        seededBy (.plain longBits) (.loaded kanaMemory kanaTable run.config.slots) := by
      have notDue : ¬ (1 : UInt64) &&& 0x3FF = 0 := by decide
      unfold seededBy
      rw [if_neg (fun both => notDue both.1)]
      exact List.not_mem_nil
    obtain ⟨_, same⟩ := safe (.plain longBits) glyph
      (.loaded kanaMemory kanaTable run.config.slots) kanaContext rfl rfl notSeeded
    rw [same] at swapped
    exact absurd swapped (by decide +kernel)
  · exact neverTranslated_of_nonzero neverAdded notDesc notStringDraw

theorem neverTranslated_fun_8002c1b4 : NeverTranslated 32 (some (CString.bytesOf "FUN_8002c1b4"))
    racingRun.config.slots := by
  have neverAdded : ∀ adder, .startAdd adder (parseFunPc 32 (some (CString.bytesOf
      "FUN_8002c1b4"))) ∉ racingRun.events := by
    have other : parseFunPc 32 (some (CString.bytesOf "FUN_8002c1b4")) ≠ racedAddress := by
      decide +kernel
    intro adder member
    simp only [racingRun, List.mem_cons, Lib.ProbeSet.Event.startAdd.injEq, other, and_false,
      reduceCtorEq, List.not_mem_nil, or_self] at member
  exact (neverTranslated_iff racingRun 32 (some (CString.bytesOf "FUN_8002c1b4")) neverAdded
    (by decide +kernel) (by decide +kernel)).mpr (.inl (by decide +kernel))

/-- `osSpTaskYield` has no address in its name: the claim fails on the empty set. -/
theorem osSpTaskYield_translated :
    parseFunPc 32 (some (CString.bytesOf "osSpTaskYield")) = 0 ∧
      kanaContext.reg 6 = 0x80001000 ∧
      ∀ glyph : GlyphCode, (textXlate (.plain 32) glyph (.loaded kanaMemory kanaTable (fun _ => 0))
        kanaContext (some (CString.bytesOf "osSpTaskYield"))).ctx.reg 6 = 0x800FF400 :=
  ⟨by decide +kernel, by decide +kernel, fun glyph => reg_textXlate_zero glyph
    (by decide +kernel) (textpcContains_zero_iff.mpr ⟨pcSlot 0 0, rfl⟩)⟩

end StadiumRecomp.Hook
