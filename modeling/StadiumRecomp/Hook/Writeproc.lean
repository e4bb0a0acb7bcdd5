import StadiumRecomp.Hook.Frame

/-!
Contract: the argument swap of the writeproc, and the bytes the writeproc then copies.

Owns: which candidate is swapped, as a function of table, memory and registers, and when
the copy is the original segment or its translation.

Does not own: the copy itself, and what the copied bytes are used for.
-/

set_option autoImplicit false

namespace StadiumRecomp.Hook

open StadiumRecomp.Lib
open StadiumRecomp.Guest
open StadiumRecomp.Translate

/-! ## The candidate that is swapped -/

/-- The entry for the string behind a register, if its English can be written. -/
def usableEntry (table : Table) (rdram : Rdram) (ctx : Context) (register : Fin 32) :
    Option XlateVal :=
  ((readTextArg rdram (ctx.reg register)).bind fun src => table.get? (pmsFnv1a src)).filter
    fun v => v.en.length ≤ 0x300 &&
      rdramRange (swapScratch ctx.sp (hasPercent v.en)) (UInt32.ofNat v.en.length + 1)

/-- The first candidate with a usable entry. -/
def firstUsable (table : Table) (rdram : Rdram) (ctx : Context) :
    List (Fin 32) → Option (Fin 32 × XlateVal)
  | [] => none
  | register :: rest =>
      match usableEntry table rdram ctx register with
      | some v => some (register, v)
      | none => firstUsable table rdram ctx rest

/-- The candidate `xlate_desc` swaps. -/
def descMatch (table : Table) (rdram : Rdram) (ctx : Context) : Option (Fin 32 × XlateVal) :=
  if ctx.sp < 0x80000C00 then none else firstUsable table rdram ctx candidates

/-- A swap of a register, or none. -/
def Swaps (rdram : Rdram) (ctx : Context) (result : Result) : Option (Fin 32 × XlateVal) → Prop
  | none => result.world.rdram = rdram ∧ result.ctx = ctx
  | some (register, v) =>
      writeGuestStr rdram (swapScratch ctx.sp (hasPercent v.en)) v.en = some result.world.rdram ∧
        result.ctx = swapArgument ctx register (swapScratch ctx.sp (hasPercent v.en)) v.en

theorem usableEntry_eq_some_iff {table : Table} {rdram : Rdram} {ctx : Context}
    {register : Fin 32} {v : XlateVal} :
    usableEntry table rdram ctx register = some v ↔
      (∃ src, readTextArg rdram (ctx.reg register) = some src ∧
        table.get? (pmsFnv1a src) = some v) ∧ v.en.length ≤ 0x300 ∧
          rdramRange (swapScratch ctx.sp (hasPercent v.en)) (UInt32.ofNat v.en.length + 1) =
            true := by
  unfold usableEntry
  rw [Option.filter_eq_some_iff, Option.bind_eq_some_iff, Bool.and_eq_true, decide_eq_true_eq]

theorem usableEntry_of_text {table : Table} {rdram : Rdram} {ctx : Context} {register : Fin 32}
    {src : Bytes} (isText : readTextArg rdram (ctx.reg register) = some src) :
    usableEntry table rdram ctx register = (table.get? (pmsFnv1a src)).filter
      fun v => v.en.length ≤ 0x300 &&
        rdramRange (swapScratch ctx.sp (hasPercent v.en)) (UInt32.ofNat v.en.length + 1) := by
  unfold usableEntry
  rw [isText]
  rfl

theorem usableEntry_of_not_text {table : Table} {rdram : Rdram} {ctx : Context}
    {register : Fin 32} (notText : readTextArg rdram (ctx.reg register) = none) :
    usableEntry table rdram ctx register = none := by
  unfold usableEntry
  rw [notText]
  rfl

/-- The loop swaps the first candidate with a usable entry. -/
theorem xlateCandidates_swaps {before world : World} {ctx : Context}
    (keeps : KeepsGuest before world) (left : List (Fin 32)) :
    Swaps before.rdram ctx (xlateCandidates ctx left world)
      (firstUsable before.reload.table before.rdram ctx left) := by
  induction left generalizing world with
  | nil => exact ⟨keeps.rdram, rfl⟩
  | cons register rest inductionHypothesis =>
      rw [xlateCandidates, firstUsable, keeps.rdram]
      split
      next noText =>
        rw [usableEntry_of_not_text noText]
        exact inductionHypothesis keeps
      next src isText =>
        rw [usableEntry_of_text isText]
        split
        next after looked =>
          obtain ⟨taken, missing⟩ := findXlate_eq looked
          rw [keeps.reload] at missing
          rw [missing]
          exact inductionHypothesis (keeps.trans taken)
        next after v looked =>
          obtain ⟨taken, found⟩ := findXlate_eq looked
          have kept := keeps.trans taken
          rw [keeps.reload] at found
          rw [found, Option.filter_some]
          by_cases long : v.en.length > 0x300
          · rw [if_pos long, decide_eq_false (Nat.not_le.mpr long)]
            exact inductionHypothesis kept
          · rw [if_neg long, decide_eq_true (Nat.not_lt.mp long), Bool.true_and]
            dsimp only
            split
            next outside =>
              rw [rdramRange_of_writeGuestStr_none outside]
              exact inductionHypothesis kept
            next rdram written =>
              obtain ⟨inRange, _⟩ := writeGuestStr_eq_some_iff.mp written
              rw [inRange]
              rw [kept.rdram] at written
              exact ⟨written, rfl⟩

theorem xlateDesc_swaps (world : World) (ctx : Context) :
    Swaps world.rdram ctx (xlateDesc world ctx) (descMatch world.reload.table world.rdram ctx) := by
  unfold xlateDesc descMatch
  split
  · exact ⟨rfl, rfl⟩
  · exact xlateCandidates_swaps (.refl world) candidates

/-! ## The copied bytes -/

/-- The `r6` bytes at `r5`, which the writeproc copies. -/
def copied (rdram : Rdram) (ctx : Context) : Bytes :=
  segment rdram (ctx.reg 5) (ctx.reg 6).toNat

/-- Bytes that are a segment itself or the English of the entry for exactly the segment. -/
def IsExact (table : Table) (original bytes : Bytes) : Prop :=
  bytes = original ∨ ∃ v, table.get? (pmsFnv1a original) = some v ∧ bytes = v.en

instance (table : Table) (original bytes : Bytes) : Decidable (IsExact table original bytes) :=
  decidable_of_iff (bytes = original ∨
    (table.get? (pmsFnv1a original)).map XlateVal.en = some bytes) (by
      unfold IsExact
      rw [Option.map_eq_some_iff]
      exact or_congr_right (exists_congr fun v => and_congr_right fun _ => eq_comm))

/-- The copy after a call is the original segment or its translation. -/
def CopiesExactly (world : World) (ctx : Context) (result : Result) : Prop :=
  IsExact world.reload.table (copied world.rdram ctx) (copied result.world.rdram result.ctx)

instance (world : World) (ctx : Context) (result : Result) :
    Decidable (CopiesExactly world ctx result) := inferInstanceAs (Decidable (IsExact _ _ _))

/-- The byte at an address once a string and its NUL stand in a slot. -/
def byteUnder (rdram : Rdram) (slot : UInt32) (s : Bytes) (va : UInt32) : UInt8 :=
  if rdramRange va 1 ∧ Spans slot s (physical va).toNat then
    (s ++ [0]).getD ((physical va).toNat - (physical slot).toNat) 0
  else guestRb rdram va

/-- The `r6` bytes at `r5` once a string and its NUL stand in a slot. -/
def copiedUnder (rdram : Rdram) (ctx : Context) (slot : UInt32) (s : Bytes) : Bytes :=
  (List.range (ctx.reg 6).toNat).map fun i =>
    byteUnder rdram slot s (ctx.reg 5 + UInt32.ofNat i)

/-- No candidate has a usable entry; or the first that has is `r5`, and the English is
exact for the `r6` bytes and not only for the string up to its NUL; or it is `r7` or `r4`,
and its slot leaves the `r6` bytes exact. -/
def SwapsExactly (table : Table) (rdram : Rdram) (ctx : Context) : Prop :=
  match descMatch table rdram ctx with
  | none => True
  | some (register, v) =>
      if register = 5 then IsExact table (copied rdram ctx) v.en
      else IsExact table (copied rdram ctx)
        (copiedUnder rdram ctx (swapScratch ctx.sp (hasPercent v.en)) v.en)

/-- A read after a write. -/
theorem guestRb_writeGuestStr {rdram after : Rdram} {slot : UInt32} {s : Bytes}
    (written : writeGuestStr rdram slot s = some after) (va : UInt32) :
    guestRb after va = byteUnder rdram slot s va := by
  unfold guestRb byteUnder
  by_cases inRange : rdramRange va 1 = true
  · rw [if_pos inRange, writeGuestStr_hostIndex written]
    by_cases inside : Spans slot s (physical va).toNat
    · rw [if_pos inside, if_pos ⟨inRange, inside⟩]
    · rw [if_neg inside, if_neg (fun both => inside both.2)]
      unfold guestRb
      rw [if_pos inRange]
  · rw [if_neg inRange, if_neg (fun both => inRange both.1)]
    unfold guestRb
    rw [if_neg inRange]

theorem firstUsable_spec {table : Table} {rdram : Rdram} {ctx : Context}
    {left : List (Fin 32)} {register : Fin 32} {v : XlateVal}
    (found : firstUsable table rdram ctx left = some (register, v)) :
    register ∈ left ∧ usableEntry table rdram ctx register = some v := by
  induction left with
  | nil => cases found
  | cons head rest inductionHypothesis =>
      rw [firstUsable] at found
      split at found
      next usable =>
        cases found
        exact ⟨List.mem_cons_self .., usable⟩
      next =>
        obtain ⟨member, usable⟩ := inductionHypothesis found
        exact ⟨List.mem_cons_of_mem head member, usable⟩

theorem descMatch_spec {table : Table} {rdram : Rdram} {ctx : Context} {register : Fin 32}
    {v : XlateVal} (found : descMatch table rdram ctx = some (register, v)) :
    register ∈ candidates ∧ usableEntry table rdram ctx register = some v := by
  unfold descMatch at found
  split at found
  · cases found
  · exact firstUsable_spec found

/-- Behind a swap of `r5` the copy is the English. -/
theorem copied_swap_source {rdram after : Rdram} {ctx : Context} {slot : UInt32} {s : Bytes}
    (written : writeGuestStr rdram slot s = some after) (short : s.length ≤ 0x300) :
    copied after (swapArgument ctx 5 slot s) = s := by
  have count : (UInt32.ofNat s.length).toNat = s.length := by
    rw [UInt32.toNat_ofNat']
    omega
  have source : (swapArgument ctx 5 slot s).reg 5 = slot := by
    unfold swapArgument
    rw [if_pos rfl]
    unfold Context.reg
    rw [Context.gpr_setReg_of_ne _ _ (by decide)]
    exact Context.reg_setReg ctx 5 slot
  have length : (swapArgument ctx 5 slot s).reg 6 = UInt32.ofNat s.length := by
    unfold swapArgument
    rw [if_pos rfl]
    exact Context.reg_setReg _ 6 _
  have front := take_segment after slot s.length (s ++ [0]).length
    (by rw [List.length_append]; omega)
  unfold copied
  rw [source, length, count, ← front, segment_writeGuestStr written short, List.take_left]

/-- Behind a swap of another register the copy has the same source and count. -/
theorem copied_swap_other {rdram after : Rdram} {ctx : Context} {register : Fin 32}
    {slot : UInt32} {s : Bytes} (written : writeGuestStr rdram slot s = some after)
    (isCandidate : register ∈ candidates) (other : register ≠ 5) :
    copied after (swapArgument ctx register slot s) = copiedUnder rdram ctx slot s := by
  have notCount : (6 : Fin 32) ≠ register := by
    rintro rfl
    exact absurd isCandidate (by decide)
  have registers : swapArgument ctx register slot s = ctx.setReg register slot := if_neg other
  unfold copied copiedUnder Guest.segment Context.reg
  rw [registers, Context.gpr_setReg_of_ne ctx slot (Ne.symm other),
    Context.gpr_setReg_of_ne ctx slot notCount]
  exact List.map_congr_left fun i _ => guestRb_writeGuestStr written _

/-- The writeproc copies the original segment or its translation exactly when the swap is
exact for the bytes it counts. -/
theorem xlateDesc_copiesExactly_iff (world : World) (ctx : Context) :
    CopiesExactly world ctx (xlateDesc world ctx) ↔
      SwapsExactly world.reload.table world.rdram ctx := by
  have swaps := xlateDesc_swaps world ctx
  unfold CopiesExactly SwapsExactly
  cases found : descMatch world.reload.table world.rdram ctx with
  | none =>
      rw [found] at swaps
      obtain ⟨memory, registers⟩ := swaps
      rw [memory, registers]
      exact iff_of_true (.inl rfl) trivial
  | some swap =>
      obtain ⟨register, v⟩ := swap
      rw [found] at swaps
      obtain ⟨written, registers⟩ := swaps
      obtain ⟨isCandidate, usable⟩ := descMatch_spec found
      obtain ⟨_, short, _⟩ := usableEntry_eq_some_iff.mp usable
      rw [registers]
      dsimp only
      by_cases source : register = 5
      · subst source
        rw [if_pos rfl, copied_swap_source written short]
      · rw [if_neg source, copied_swap_other written isCandidate source]

/-- A count of the whole string is enough behind a swap of `r5`. -/
theorem swapsExactly_of_whole {table : Table} {rdram : Rdram} {ctx : Context} {v : XlateVal}
    {src : Bytes} (found : descMatch table rdram ctx = some (5, v))
    (isText : readTextArg rdram (ctx.reg 5) = some src)
    (whole : (ctx.reg 6).toNat = src.length) : SwapsExactly table rdram ctx := by
  obtain ⟨⟨text, isText', entry⟩, _⟩ := usableEntry_eq_some_iff.mp (descMatch_spec found).2
  rw [isText'] at isText
  cases isText
  have original : copied rdram ctx = src := by
    unfold copied
    rw [whole]
    exact segment_of_readTextArg isText'
  unfold SwapsExactly
  rw [found, original]
  exact .inr ⟨v, entry, rfl⟩

/-- A slot away from the copied bytes is enough behind a swap of another register. -/
theorem swapsExactly_of_disjoint {table : Table} {rdram : Rdram} {ctx : Context}
    {register : Fin 32} {v : XlateVal} (found : descMatch table rdram ctx = some (register, v))
    (other : register ≠ 5)
    (away : ∀ i < (ctx.reg 6).toNat, ¬ Spans (swapScratch ctx.sp (hasPercent v.en)) v.en
      (physical (ctx.reg 5 + UInt32.ofNat i)).toNat) : SwapsExactly table rdram ctx := by
  have same : copiedUnder rdram ctx (swapScratch ctx.sp (hasPercent v.en)) v.en =
      copied rdram ctx := by
    unfold copiedUnder copied Guest.segment
    apply List.map_congr_left
    intro i member
    unfold byteUnder
    rw [if_neg (fun both => away i (List.mem_range.mp member) both.2)]
  unfold SwapsExactly
  rw [found]
  dsimp only
  rw [if_neg other, same]
  exact .inl rfl

/-- Two kana at `0x80001000`, of which the writeproc counts one. -/
def partMemory : Rdram := storeBytes (fun _ => 0) 0x1000 [0xA4, 0xA2, 0xA4, 0xA4, 0]

def partContext : Context := Context.ofRegisters [(5, 0x80001000), (6, 2), (29, 0x80100000)]

def partTable : Table := [(pmsFnv1a [0xA4, 0xA2, 0xA4, 0xA4], ⟨CString.bytesOf "Ai", -1, -1⟩)]

/-- The English of both kana is copied in the place of the first. -/
theorem xlateDesc_copies_more :
    copied partMemory partContext = [0xA4, 0xA2] ∧
      copied (xlateDesc (.loaded partMemory partTable (fun _ => 0)) partContext).world.rdram
        (xlateDesc (.loaded partMemory partTable (fun _ => 0)) partContext).ctx =
          CString.bytesOf "Ai" ∧
      ¬ CopiesExactly (.loaded partMemory partTable (fun _ => 0)) partContext
        (xlateDesc (.loaded partMemory partTable (fun _ => 0)) partContext) := by
  decide +kernel

end StadiumRecomp.Hook
