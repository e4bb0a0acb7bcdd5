import StadiumRecomp.Guest.Memory
import StadiumRecomp.Lib.Goto

/-!
Contract: the recompiled audio microcode as blocks between its labels.

Owns: the RSP memories, the registers that the embedded blocks use, the blocks of the
command loop and of the commands without vector arithmetic, the indirect jumps, and the hook
that runs before a task.

Does not own: `librecomp`, whose loads, stores, sign, DMA and vector moves are parameters, and
the blocks with vector arithmetic, which are one too. The casts `S32` and `U32` and the sum
`RSP_ADD32` are the operations of `UInt32`.
-/

set_option autoImplicit false

namespace StadiumRecomp.Rsp

open StadiumRecomp.Lib
open StadiumRecomp.Guest

/-! ## Memories -/

/-- `dmem` and `rdram`, both by host index. -/
structure Memory where
  dmem : Nat → UInt8
  rdram : Rdram

namespace Memory

/-- The byte at an address of DMEM. -/
def dmemByte (memory : Memory) (addr : Nat) : UInt8 := memory.dmem (hostIndex addr)

/-- The byte at a physical address of RDRAM. -/
def rdramByte (memory : Memory) (addr : Nat) : UInt8 := memory.rdram (hostIndex addr)

end Memory

/-- `load_dmem_word`. -/
def loadDmemWord (memory : Memory) (off : UInt32) : UInt32 :=
  (List.range 4).foldl (fun out i =>
    out <<< 8 ||| (memory.dmem (hostIndex (off + UInt32.ofNat i).toNat)).toUInt32) 0

/-! ## Registers -/

/-- `RspContext`: the registers of the embedded blocks. -/
structure Context (Vec : Type) where
  r1 : UInt32
  r2 : UInt32
  r3 : UInt32
  r4 : UInt32
  r5 : UInt32
  r8 : UInt32
  r24 : UInt32
  r25 : UInt32
  r26 : UInt32
  r27 : UInt32
  r28 : UInt32
  r29 : UInt32
  r30 : UInt32
  r31 : UInt32
  dmaMemAddress : UInt32
  dmaDramAddress : UInt32
  jumpTarget : UInt32
  v1 : Vec
  v2 : Vec
  memory : Memory

/-- `RspExitReason`. -/
inductive Exit where
  | broke
  | imemOverrun
  | unhandledJumpTarget
  | watchdog
deriving DecidableEq, Repr

/-- The labels of the embedded blocks. The others are named by their address, and
`passing` stands for labels that such a block passes inside. -/
inductive Label where
  | l103C | l104C | l1050 | l1064 | l107C | l108C | l10A0 | l10AC | l10B8 | l10BC
  | l10C8 | l10EC | l1104 | l110C | l1120 | l1134 | l1138 | l1144 | l114C | l1150
  | l115C | l1174 | l1178 | l1184 | l119C | l11AC | l11C8 | l11F4 | l11F8 | l1208
  | l1234 | l1238 | l1248 | l1264 | l1268 | l127C | l12A8 | l12B0 | l12BC | l1348
  | l135C | l1384
  | outside (address : UInt32)
  | passing (labels : Nat) (next : Label)
deriving DecidableEq, Repr

/-- What the blocks take from elsewhere: `RSP_SIGNED`, the scalar loads and stores
`RSP_MEM_W_LOAD` to `RSP_MEM_W_STORE`, the DMA of `librecomp`, its vector moves of eight
bytes, and the blocks with vector arithmetic, with the labels they pass. -/
structure Runtime (Vec : Type) where
  signed : UInt32 → Int
  memWLoad : (offset addr : UInt32) → Memory → UInt32
  memHLoad : (offset addr : UInt32) → Memory → UInt32
  memHStore : (offset addr value : UInt32) → Memory → Memory
  memWStore : (offset addr value : UInt32) → Memory → Memory
  dmaRead : (mem dram len : UInt32) → Memory → Memory
  dmaReadExternal : (mem dram len : UInt32) → Memory → Memory
  dmaWrite : (mem dram len : UInt32) → Memory → Memory
  vxor : Vec → Vec → Vec
  ldv : (addr : UInt32) → Memory → Vec → Vec
  sdv : Vec → (addr : UInt32) → Memory → Memory
  outside : (address : UInt32) → Context Vec → Nat × Goto.Next Label (Context Vec) Exit

/-- The labels of `do_indirect_jump`. -/
def jumpLabel (target : UInt32) : Option Label :=
  match ((target ||| 0x1000) &&& 0x1FFF).toNat with
  | 0x107C => some .l107C
  | 0x1034 => some (.outside 0x1034)
  | 0x1C6C => some (.outside 0x1C6C)
  | 0x10B8 => some .l10B8
  | 0x1D30 => some (.outside 0x1D30)
  | 0x11F4 => some .l11F4
  | 0x1DC0 => some (.outside 0x1DC0)
  | 0x1104 => some .l1104
  | 0x1144 => some .l1144
  | 0x1264 => some .l1264
  | 0x1A4C => some (.outside 0x1A4C)
  | 0x1234 => some .l1234
  | 0x1640 => some (.outside 0x1640)
  | 0x17D4 => some (.outside 0x17D4)
  | 0x12B0 => some .l12B0
  | 0x1A98 => some (.outside 0x1A98)
  | 0x1D38 => some (.outside 0x1D38)
  | 0x1D44 => some (.outside 0x1D44)
  | 0x1D4C => some (.outside 0x1D4C)
  | 0x1DD4 => some (.outside 0x1DD4)
  | 0x1D54 => some (.outside 0x1D54)
  | 0x1D5C => some (.outside 0x1D5C)
  | 0x1D64 => some (.outside 0x1D64)
  | 0x1D6C => some (.outside 0x1D6C)
  | 0x119C => some .l119C
  | 0x1DA8 => some (.outside 0x1DA8)
  | 0x2038 => some (.outside 0x2038)
  | 0x204C => some (.outside 0x204C)
  | 0x10EC => some .l10EC
  | 0x139C => some (.outside 0x139C)
  | 0x127C => some .l127C
  | 0x1A64 => some (.outside 0x1A64)
  | 0x11C8 => some .l11C8
  | 0x17EC => some (.outside 0x17EC)
  | 0x1248 => some .l1248
  | 0x1208 => some .l1208
  | 0x1348 => some .l1348
  | 0x1C84 => some (.outside 0x1C84)
  | 0x12D4 => some (.outside 0x12D4)
  | 0x1384 => some .l1384
  | 0x10A0 => some .l10A0
  | _ => none

variable {Vec : Type}

/-- `goto do_indirect_jump`. -/
def indirectJump (ctx : Context Vec) : Goto.Next Label (Context Vec) Exit :=
  match jumpLabel ctx.jumpTarget with
  | some label => .goto label ctx
  | none => .exit .unhandledJumpTarget ctx

/-! ## Blocks -/

/-- The embedded blocks, each to the next label or jump. -/
def block (rt : Runtime Vec) : Label → Context Vec → Goto.Next Label (Context Vec) Exit
  | .l103C, ctx =>
      let ctx : Context Vec := { ctx with r8 := 0 &&& 0x80 }
      if ctx.r8 ≠ 0 then .goto .l1050 ctx else .goto .l104C ctx
  | .l104C, ctx => indirectJump { ctx with jumpTarget := ctx.r31 }
  | .l1050, ctx => .exit .broke { ctx with r8 := 0x5200 }
  | .l1064, ctx =>
      let ctx : Context Vec := { ctx with r2 := rt.memWLoad 0x4 ctx.r1 ctx.memory &&& 0x2 }
      if ctx.r2 = 0 then .goto .l108C ctx else .goto .l103C { ctx with r31 := 0x107C }
  | .l107C, ctx =>
      .goto .l108C { ctx with
        r2 := 0
        r5 := 0
        r28 := rt.memWLoad 0x30 ctx.r1 ctx.memory
        r27 := rt.memWLoad 0x34 ctx.r1 ctx.memory }
  | .l108C, ctx =>
      if ctx.r5 &&& 0x1 = 0 then .goto .l10AC { ctx with r4 := ctx.r5 &&& 0x100 }
      else if ctx.r5 &&& 0x100 = 0 then .goto .l10AC { ctx with r4 := 0 }
      else .goto .l10A0 { ctx with r4 := 0 }
  | .l10A0, ctx =>
      if 0 < rt.signed (ctx.r4 &&& 0x100) then .goto .l10A0 { ctx with r4 := 0 }
      else .goto .l10AC { ctx with r4 := 0 }
  | .l10AC, ctx => .goto .l1120 { ctx with r24 := 0xFA0, r31 := 0x10B8, r2 := ctx.r28 }
  | .l10B8, ctx => .goto .l10BC { ctx with r2 := 0 }
  | .l10BC, ctx =>
      if ctx.r2 ≠ 0 then .goto .l10BC { ctx with r2 := 0 } else .goto .l10C8 { ctx with r2 := 0 }
  | .l10C8, ctx =>
      let ctx : Context Vec := { ctx with
        r26 := rt.memWLoad 0x0 ctx.r29 ctx.memory
        r25 := rt.memWLoad 0x4 ctx.r29 ctx.memory
        r28 := ctx.r28 + 0x8 }
      let ctx : Context Vec := { ctx with
        r1 := rt.memHLoad 0x0 (ctx.r26 >>> 23 &&& 0xFE) ctx.memory }
      indirectJump { ctx with jumpTarget := ctx.r1, r27 := ctx.r27 - 0x8 }
  | .l10EC, ctx =>
      if 0 < rt.signed ctx.r30 then .goto .l10C8 { ctx with r29 := ctx.r29 + 0x8 }
      else
        let ctx : Context Vec := { ctx with r29 := ctx.r29 + 0x8, r1 := 0x4000 }
        if rt.signed ctx.r27 ≤ 0 then .goto .l110C ctx
        else .goto .l1120 { ctx with r31 := 0x1104, r2 := ctx.r28 }
  | .l1104, ctx => .goto .l10BC { ctx with r2 := 0 }
  | .l110C, ctx => .exit .broke ctx
  | .l1120, ctx =>
      let ctx : Context Vec := { ctx with r5 := ctx.r31, r3 := ctx.r27, r4 := ctx.r27 - 0x140, r1 := 0x2B0 }
      if rt.signed ctx.r4 ≤ 0 then .goto .l1138 ctx else .goto .l1134 ctx
  | .l1134, ctx => .goto .l1138 { ctx with r3 := 0x140 }
  | .l1138, ctx => .goto .l114C { ctx with r30 := ctx.r3, r31 := 0x1144, r3 := ctx.r3 - 0x1 }
  | .l1144, ctx => indirectJump { ctx with jumpTarget := ctx.r5, r29 := 0x2B0 }
  | .l114C, ctx => .goto .l1150 { ctx with r4 := 0 }
  | .l1150, ctx =>
      if ctx.r4 ≠ 0 then .goto .l1150 { ctx with r4 := 0 } else .goto .l115C { ctx with r4 := 0 }
  | .l115C, ctx =>
      if ctx.r4 ≠ 0 then .goto .l115C { ctx with r4 := 0 }
      else
        indirectJump { ctx with
          r4 := 0
          dmaMemAddress := ctx.r1
          dmaDramAddress := ctx.r2
          jumpTarget := ctx.r31
          memory := rt.dmaRead ctx.r1 ctx.r2 ctx.r3 ctx.memory }
  | .l1174, ctx => .goto .l1178 { ctx with r4 := 0 }
  | .l1178, ctx =>
      if ctx.r4 ≠ 0 then .goto .l1178 { ctx with r4 := 0 } else .goto .l1184 { ctx with r4 := 0 }
  | .l1184, ctx =>
      if ctx.r4 ≠ 0 then .goto .l1184 { ctx with r4 := 0 }
      else
        indirectJump { ctx with
          r4 := 0
          dmaMemAddress := ctx.r1
          dmaDramAddress := ctx.r2
          jumpTarget := ctx.r31
          memory := rt.dmaWrite ctx.r1 ctx.r2 ctx.r3 ctx.memory }
  | .l119C, ctx =>
      .goto .l11AC { ctx with
        r2 := ctx.r25 &&& 0xFFFF
        v1 := rt.vxor ctx.v1 ctx.v1
        r1 := (ctx.r26 &&& 0xFFFF) + 0x4F0 }
  | .l11AC, ctx =>
      let ctx : Context Vec := { ctx with
        memory := rt.sdv ctx.v1 (ctx.r1 + 0x8) (rt.sdv ctx.v1 ctx.r1 ctx.memory)
        r2 := ctx.r2 - 0x10 }
      if 0 < rt.signed ctx.r2 then .goto .l11AC { ctx with r1 := ctx.r1 + 0x10 }
      else .goto .l10EC { ctx with r1 := ctx.r1 + 0x10, r30 := ctx.r30 - 0x8 }
  | .l11C8, ctx =>
      let ctx : Context Vec := { ctx with r3 := ctx.r26 <<< 8 >>> 20, r30 := ctx.r30 - 0x8 }
      if ctx.r3 = 0 then .goto .l10EC ctx
      else
        .goto .l114C { ctx with
          r1 := (ctx.r26 &&& 0xFFF) + 0x4F0
          r2 := (ctx.r25 <<< 8 >>> 8) + 0x0
          r3 := ctx.r3 - 0x1
          r31 := 0x11F4 }
  | .l11F4, ctx => .goto .l11F8 { ctx with r1 := 0 }
  | .l11F8, ctx =>
      if ctx.r1 ≠ 0 then .goto .l11F8 { ctx with r1 := 0 } else .goto .l10EC { ctx with r1 := 0 }
  | .l1208, ctx =>
      let ctx : Context Vec := { ctx with r3 := ctx.r26 <<< 8 >>> 20, r30 := ctx.r30 - 0x8 }
      if ctx.r3 = 0 then .goto .l10EC ctx
      else
        .goto .l1174 { ctx with
          r1 := (ctx.r26 &&& 0xFFF) + 0x4F0
          r2 := (ctx.r25 <<< 8 >>> 8) + 0x0
          r3 := ctx.r3 - 0x1
          r31 := 0x1234 }
  | .l1234, ctx => .goto .l1238 { ctx with r1 := 0 }
  | .l1238, ctx =>
      if ctx.r1 ≠ 0 then .goto .l1238 { ctx with r1 := 0 } else .goto .l10EC { ctx with r1 := 0 }
  | .l1248, ctx =>
      .goto .l114C { ctx with
        r2 := (ctx.r25 <<< 8 >>> 8) + 0x0
        r1 := 0x3F0
        r3 := (ctx.r26 &&& 0xFFFF) - 0x1
        r31 := 0x1264 }
  | .l1264, ctx => .goto .l1268 { ctx with r1 := 0 }
  | .l1268, ctx =>
      if ctx.r1 ≠ 0 then .goto .l1268 { ctx with r1 := 0 }
      else .goto .l10EC { ctx with r1 := 0, r30 := ctx.r30 - 0x8 }
  | .l127C, ctx =>
      let ctx : Context Vec := { ctx with r3 := ctx.r26 >>> 16 }
      if ctx.r3 &&& 0x4 = 0 then .goto .l12BC { ctx with r1 := ctx.r3 &&& 0x2 }
      else
        let ctx : Context Vec := { ctx with r1 := ctx.r3 &&& 0x2, r2 := ctx.r25 >>> 16 }
        if ctx.r1 = 0 then .goto .l12A8 ctx
        else
          .goto .l10EC { ctx with
            memory := rt.memHStore 0x4E ctx.r24 ctx.r25 (rt.memHStore 0x4C ctx.r24 ctx.r2
              (rt.memHStore 0x50 ctx.r24 ctx.r26 ctx.memory))
            r30 := ctx.r30 - 0x8 }
  | .l12A8, ctx =>
      .goto .l12B0 { ctx with
        memory := rt.memHStore 0x48 ctx.r24 ctx.r2
          (rt.memHStore 0x46 ctx.r24 ctx.r26 ctx.memory) }
  | .l12B0, ctx =>
      .goto .l10EC { ctx with
        memory := rt.memHStore 0x4A ctx.r24 ctx.r25 ctx.memory, r30 := ctx.r30 - 0x8 }
  | .l12BC, ctx =>
      let ctx : Context Vec := { ctx with r2 := ctx.r25 >>> 16 }
      .goto .l10EC { ctx with
        memory := rt.memHStore 0x44 ctx.r24 ctx.r25 (rt.memHStore 0x42 ctx.r24 ctx.r2
          (rt.memHStore 0x40 ctx.r24 ctx.r26 ctx.memory))
        r30 := ctx.r30 - 0x8 }
  | .l1348, ctx =>
      .goto .l135C { ctx with
        r1 := ctx.r25 &&& 0xFFFF
        r2 := (ctx.r26 &&& 0xFFFF) + 0x4F0
        r3 := (ctx.r25 >>> 16) + 0x4F0 }
  | .l135C, ctx =>
      let ctx : Context Vec := { ctx with
        v1 := rt.ldv ctx.r2 ctx.memory ctx.v1
        v2 := rt.ldv (ctx.r2 + 0x8) ctx.memory ctx.v2
        r1 := ctx.r1 - 0x10
        r2 := ctx.r2 + 0x10 }
      let ctx : Context Vec := { ctx with
        memory := rt.sdv ctx.v2 (ctx.r3 + 0x8) (rt.sdv ctx.v1 ctx.r3 ctx.memory) }
      if 0 < rt.signed ctx.r1 then .goto .l135C { ctx with r3 := ctx.r3 + 0x10 }
      else .goto .l10EC { ctx with r3 := ctx.r3 + 0x10, r30 := ctx.r30 - 0x8 }
  | .l1384, ctx =>
      let ctx : Context Vec := { ctx with r1 := (ctx.r25 <<< 8 >>> 8) + 0x0 }
      .goto .l10EC { ctx with
        memory := rt.memWStore 0xE 0 ctx.r1 ctx.memory, r30 := ctx.r30 - 0x8 }
  | .outside address, ctx =>
      match rt.outside address ctx with
      | (labels, .goto next after) => .goto (.passing labels next) after
      | (_, .exit reason after) => .exit reason after
  | .passing 0 next, ctx => .goto next ctx
  | .passing (labels + 1) next, ctx => .goto (.passing labels next) ctx

/-! ## A task -/

/-- The transitions after which the watchdog gives up. -/
def watchdogLimit : Nat := 100000000

/-- `aspMain_impl`. -/
def aspMainImpl (rt : Runtime Vec) (ctx : Context Vec) : Exit × Context Vec :=
  Goto.run (block rt) .watchdog watchdogLimit .l1064 { ctx with r1 := 0xFC0 }

/-- `kAudioChunkSize`. -/
def audioChunkSize : UInt32 := 0x140

/-- `kAudioCommandsDmemOffset`. -/
def audioCommandsDmemOffset : UInt32 := 0x2B0

/-- `aspmain_pre_task`. -/
def aspmainPreTask (rt : Runtime Vec) (ctx : Context Vec) : Context Vec :=
  let dataPtr := loadDmemWord ctx.memory (0xFC0 + 0x30)
  let dataSize := loadDmemWord ctx.memory (0xFC0 + 0x34)
  if dataPtr = 0 ∨ dataSize = 0 then ctx
  else
    let chunk := if dataSize > audioChunkSize then audioChunkSize else dataSize
    { ctx with
      memory := rt.dmaReadExternal audioCommandsDmemOffset dataPtr (chunk - 1) ctx.memory
      r29 := audioCommandsDmemOffset
      r30 := chunk
      r27 := dataSize
      r28 := dataPtr
      dmaMemAddress := audioCommandsDmemOffset
      dmaDramAddress := dataPtr + chunk
      r3 := chunk - 1
      r31 := 0x1144 }

/-- `aspMain`, on the registers that the last task of the thread has left. -/
def aspMain (rt : Runtime Vec) (persistentCtx : Context Vec) : Exit × Context Vec :=
  aspMainImpl rt (aspmainPreTask rt persistentCtx)

end StadiumRecomp.Rsp
