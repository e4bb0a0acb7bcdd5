import StadiumRecomp.Hook.Writeproc

/-!
Contract: the format in its slot while one `_Printf` runs.

Owns: the writeproc's hooks inside a `_Printf`, and when their swaps leave the bytes of the
English format.

Does not own: guest writes, which are assumed to leave the slot.
-/

set_option autoImplicit false

namespace StadiumRecomp.Hook

open StadiumRecomp.Lib
open StadiumRecomp.Guest
open StadiumRecomp.Census
open StadiumRecomp.Translate

/-! ## Runs -/

/-- A string stands at an address, with its NUL. -/
def Stands (rdram : Rdram) (va : UInt32) (s : Bytes) : Prop :=
  segment rdram va (s ++ [0]).length = s ++ [0]

/-- A call of `xlate_desc`: the layer and the registers it finds. -/
structure DescCall where
  world : World
  ctx : Context

/-- The memory a call leaves. -/
def DescCall.after (call : DescCall) : Rdram := (xlateDesc call.world call.ctx).world.rdram

/-- The calls inside a `_Printf` with its format in a slot: the guest leaves the slot
alone, and the stack is at or below the one of the `_Printf`. -/
def InsidePrintf (sp slot : UInt32) (f : Bytes) : Rdram → List DescCall → Prop
  | _, [] => True
  | last, call :: rest =>
      (∀ paddr, Spans slot f paddr →
        call.world.rdram (hostIndex paddr) = last (hostIndex paddr)) ∧
        call.ctx.sp ≤ sp ∧ InsidePrintf sp slot f call.after rest

/-- Two strings in two slots put the same bytes where the slots meet. -/
def SlotsAgree (slot : UInt32) (f : Bytes) (other : UInt32) (s : Bytes) : Prop :=
  ∀ paddr, Spans slot f paddr → Spans other s paddr →
    (s ++ [0]).getD (paddr - (physical other).toNat) 0 =
      (f ++ [0]).getD (paddr - (physical slot).toNat) 0

/-- The English a call swaps in, if any, agrees with the format where their slots meet. -/
def LeavesFormat (slot : UInt32) (f : Bytes) (call : DescCall) : Prop :=
  ∀ register v, descMatch call.world.reload.table call.world.rdram call.ctx = some (register, v) →
    SlotsAgree slot f (swapScratch call.ctx.sp (hasPercent v.en)) v.en

/-! ## One call -/

section Call

variable {slot : UInt32} {f : Bytes}

theorem stands_iff {rdram : Rdram} (inRange : rdramRange slot (UInt32.ofNat f.length + 1) = true)
    (short : f.length ≤ 0x300) :
    Stands rdram slot f ↔ ∀ paddr, Spans slot f paddr →
      rdram (hostIndex paddr) = (f ++ [0]).getD (paddr - (physical slot).toNat) 0 := by
  have length := toNat_length_add_one short
  unfold Stands
  rw [segment_eq_iff, List.length_append, List.length_singleton]
  constructor
  · intro bytes paddr ⟨low, high⟩
    have byte := bytes (paddr - (physical slot).toNat) (by omega)
    rw [guestRb_of_range rdram inRange (by omega), Nat.add_sub_cancel' low] at byte
    exact byte
  · intro bytes i inside
    have byte := bytes ((physical slot).toNat + i) ⟨Nat.le_add_right .., by omega⟩
    rw [guestRb_of_range rdram inRange (by omega), byte, Nat.add_sub_cancel_left]

/-- A format that stands before a call stands behind it exactly if the swap leaves it. -/
theorem stands_after_iff {call : DescCall}
    (inRange : rdramRange slot (UInt32.ofNat f.length + 1) = true) (short : f.length ≤ 0x300)
    (stands : Stands call.world.rdram slot f) :
    Stands call.after slot f ↔ LeavesFormat slot f call := by
  have swaps := xlateDesc_swaps call.world call.ctx
  unfold LeavesFormat
  cases found : descMatch call.world.reload.table call.world.rdram call.ctx with
  | none =>
      rw [found] at swaps
      unfold DescCall.after
      rw [swaps.1]
      exact iff_of_true stands (fun _ _ impossible => by cases impossible)
  | some swap =>
      obtain ⟨register, v⟩ := swap
      rw [found] at swaps
      have written := swaps.1
      rw [stands_iff inRange short] at stands ⊢
      constructor
      · intro standsAfter _ _ same paddr here there
        cases same
        have byte := standsAfter paddr here
        unfold DescCall.after at byte
        rw [writeGuestStr_hostIndex written, if_pos there] at byte
        exact byte
      · intro agrees paddr here
        unfold DescCall.after
        rw [writeGuestStr_hostIndex written]
        by_cases there : Spans (swapScratch call.ctx.sp (hasPercent v.en)) v.en paddr
        · rw [if_pos there]
          exact agrees register v rfl paddr here there
        · rw [if_neg there]
          exact stands paddr here

/-- Every call of a run leaves the format exactly if every swap does. -/
theorem run_stands_iff {sp : UInt32} {last : Rdram} {calls : List DescCall}
    (inRange : rdramRange slot (UInt32.ofNat f.length + 1) = true) (short : f.length ≤ 0x300)
    (stands : Stands last slot f) (inside : InsidePrintf sp slot f last calls) :
    (∀ call ∈ calls, Stands call.after slot f) ↔ ∀ call ∈ calls, LeavesFormat slot f call := by
  induction calls generalizing last with
  | nil => exact iff_of_true (fun _ member => by cases member) (fun _ member => by cases member)
  | cons call rest inductionHypothesis =>
      obtain ⟨untouched, _, insideRest⟩ := inside
      have standsBefore : Stands call.world.rdram slot f := by
        rw [stands_iff inRange short] at stands ⊢
        intro paddr here
        rw [untouched paddr here]
        exact stands paddr here
      have step := stands_after_iff inRange short standsBefore
      rw [List.forall_mem_cons, List.forall_mem_cons]
      constructor
      · intro ⟨now, later⟩
        exact ⟨step.mp now, (inductionHypothesis now insideRest).mp later⟩
      · intro ⟨now, later⟩
        have standsNow := step.mpr now
        exact ⟨standsNow, (inductionHypothesis standsNow insideRest).mpr later⟩

end Call

/-! ## A `_Printf` with a translated format -/

/-- A format swap puts the format at the address in `r6`, below the stack pointer. -/
theorem xlateGeneral_swapped {env : Env} {glyph : GlyphCode} {world : World} {ctx : Context}
    {pc : UInt32} {f : Bytes}
    (swapped : (xlateGeneral env glyph world ctx pc).exit = .swap 6 f) :
    (xlateGeneral env glyph world ctx pc).ctx.reg 6 = swapScratch ctx.sp (hasPercent f) ∧
      ¬ ctx.sp < 0x80000C00 ∧ f.length ≤ 0x300 ∧
        writeGuestStr world.rdram (swapScratch ctx.sp (hasPercent f)) f =
          some (xlateGeneral env glyph world ctx pc).world.rdram := by
  have leaves : Leaves glyph world ctx _ _ _ (fun _ => False)
      (xlateGeneral env glyph world ctx pc) := xlateGeneral_leaves (.refl world) pc
  generalize xlateGeneral env glyph world ctx pc = result at leaves swapped ⊢
  cases leaves with
  | fell => cases swapped
  | rendered => cases swapped
  | swapped isCandidate isLookedUp isShown found headroom short written =>
      cases swapped
      exact ⟨Context.reg_setReg ctx 6 _, headroom, Nat.not_lt.mp short, written⟩

/-- The format stands at the address in `r6` from the swap through every call. -/
def FormatStands (swap : Result) (f : Bytes) (calls : List DescCall) : Prop :=
  Stands swap.world.rdram (swap.ctx.reg 6) f ∧
    ∀ call ∈ calls, Stands call.after (swap.ctx.reg 6) f

/-- Inside a `_Printf` whose format was swapped, the format stands throughout exactly if
every argument swap agrees with it where their slots meet. -/
theorem formatStands_iff (env : Env) (glyph : GlyphCode) (world : World) (ctx : Context)
    (f : Bytes) (calls : List DescCall)
    (swapped : (xlateGeneral env glyph world ctx kPrintfPC).exit = .swap 6 f)
    (inside : InsidePrintf ctx.sp (swapScratch ctx.sp (hasPercent f)) f
      (xlateGeneral env glyph world ctx kPrintfPC).world.rdram calls) :
    FormatStands (xlateGeneral env glyph world ctx kPrintfPC) f calls ↔
      ∀ call ∈ calls, LeavesFormat (swapScratch ctx.sp (hasPercent f)) f call := by
  obtain ⟨points, _, short, written⟩ := xlateGeneral_swapped swapped
  obtain ⟨inRange, _⟩ := writeGuestStr_eq_some_iff.mp written
  have stands := segment_writeGuestStr written short
  unfold FormatStands
  rw [points, ← run_stands_iff inRange short stands inside]
  exact and_iff_right stands

/-- One kana at `0x80001000`, which is the format of a `_Printf` and then an argument. -/
def printfMemory : Rdram := storeBytes (fun _ => 0) 0x1000 [0xA4, 0xA2, 0]

def printfWorld (rdram : Rdram) (english : Bytes) : World :=
  .loaded rdram [(pmsFnv1a [0xA4, 0xA2], ⟨english, -1, -1⟩)] (textpcAdd (fun _ => 0) kPrintfPC)

def printfContext : Context :=
  Context.ofRegisters [(4, 0x80055000), (6, 0x80001000), (29, 0x80100000)]

/-- The swap of the format for some English. -/
def formatSwap (english : Bytes) : Result :=
  xlateGeneral (.plain 32) (fun _ world ctx => (world, ctx)) (printfWorld printfMemory english)
    printfContext kPrintfPC

/-- The call for the argument, `0x40` further down the stack. -/
def argumentCall (english argument : Bytes) : DescCall where
  world := printfWorld (formatSwap english).world.rdram argument
  ctx := Context.ofRegisters [(7, 0x80001000), (29, 0x800FFFC0)]

/-- A template and an argument without a percent: their slots do not meet. -/
theorem slotsAgree_of_template {sp sp' : UInt32} {f s : Bytes} (headroom : ¬ sp < 0x80000C00)
    (headroom' : ¬ sp' < 0x80000C00) (below : sp' ≤ sp) (template : hasPercent f = true)
    (plain : hasPercent s = false) (short : s.length ≤ 0x300)
    (inRange : rdramRange (swapScratch sp (hasPercent f)) (UInt32.ofNat f.length + 1) = true)
    (inRange' : rdramRange (swapScratch sp' (hasPercent s)) (UInt32.ofNat s.length + 1) = true) :
    SlotsAgree (swapScratch sp (hasPercent f)) f (swapScratch sp' (hasPercent s)) s := by
  intro paddr ⟨low, _⟩ ⟨_, high⟩
  exfalso
  rw [physical_of_range inRange, toNat_swapScratch headroom] at low
  rw [physical_of_range inRange', toNat_swapScratch headroom'] at high
  rw [template] at low
  rw [plain] at high
  rw [UInt32.le_iff_toNat_le] at below
  rw [UInt32.lt_iff_toNat_lt] at headroom'
  have floor : (0x80000C00 : UInt32).toNat = 0x80000C00 := rfl
  unfold slotDistance at low high
  simp only [if_true, Bool.false_eq_true, if_false] at low high
  omega

/-- A template stays while a name is swapped in. -/
theorem formatStands_template : FormatStands (formatSwap (CString.bytesOf "A%d"))
    (CString.bytesOf "A%d") [argumentCall (CString.bytesOf "A%d") (CString.bytesOf "Flame")] := by
  refine (formatStands_iff (.plain 32) (fun _ world ctx => (world, ctx))
    (printfWorld printfMemory (CString.bytesOf "A%d")) printfContext (CString.bytesOf "A%d")
    [argumentCall (CString.bytesOf "A%d") (CString.bytesOf "Flame")] (by decide +kernel)
    ⟨fun _ _ => rfl, by decide +kernel, trivial⟩).mpr ?_
  intro call member register v found
  have swap : descMatch
      (argumentCall (CString.bytesOf "A%d") (CString.bytesOf "Flame")).world.reload.table
      (argumentCall (CString.bytesOf "A%d") (CString.bytesOf "Flame")).world.rdram
      (argumentCall (CString.bytesOf "A%d") (CString.bytesOf "Flame")).ctx =
        some (7, ⟨CString.bytesOf "Flame", -1, -1⟩) := by decide +kernel
  cases List.mem_singleton.mp member
  rw [swap] at found
  cases found
  exact slotsAgree_of_template (by decide +kernel) (by decide +kernel) (by decide +kernel)
    (by decide +kernel) (by decide +kernel) (by decide +kernel) (by decide +kernel)
    (by decide +kernel)

/-- A format without a percent shares its kind of slot with the argument, which runs over
it from further down the stack. -/
theorem formatStands_overwritten :
    (formatSwap (CString.bytesOf "Take care")).exit = .swap 6 (CString.bytesOf "Take care") ∧
      InsidePrintf printfContext.sp (swapScratch printfContext.sp false)
        (CString.bytesOf "Take care") (formatSwap (CString.bytesOf "Take care")).world.rdram
        [argumentCall (CString.bytesOf "Take care") (List.replicate 80 0x41)] ∧
      ¬ FormatStands (formatSwap (CString.bytesOf "Take care")) (CString.bytesOf "Take care")
        [argumentCall (CString.bytesOf "Take care") (List.replicate 80 0x41)] := by
  refine ⟨by decide +kernel, ⟨fun _ _ => rfl, by decide +kernel, trivial⟩, ?_⟩
  intro ⟨_, stands⟩
  have overwritten : ¬ Stands
      (argumentCall (CString.bytesOf "Take care") (List.replicate 80 0x41)).after
      ((formatSwap (CString.bytesOf "Take care")).ctx.reg 6) (CString.bytesOf "Take care") := by
    unfold Stands
    decide +kernel
  exact overwritten (stands _ (List.mem_singleton_self _))

end StadiumRecomp.Hook
