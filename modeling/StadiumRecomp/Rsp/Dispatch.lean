import Mathlib.Algebra.GroupWithZero.Nat
import StadiumRecomp.Rsp.Machine

/-!
Contract: how the audio microcode walks the command list of a task.

Owns: command lists in memory, what the loads, the sign and the DMA of `librecomp` are
documented to do, the loading of a chunk of commands, one command's dispatch, and that a task
performs the commands of its list in order, each of them once, and breaks.

Does not own: what a command does, which is a parameter here.
-/

set_option autoImplicit false

namespace StadiumRecomp.Rsp

open StadiumRecomp.Lib
open StadiumRecomp.Guest

variable {Vec : Type}

/-! ## Words -/

/-- A big-endian word of some bytes. -/
def wordAt (bytes : Nat → UInt8) (addr : Nat) : UInt32 :=
  (List.range 4).foldl (fun value i => value <<< 8 ||| (bytes (addr + i)).toUInt32) 0

/-- A big-endian half word of some bytes, with its sign. -/
def halfAt (bytes : Nat → UInt8) (addr : Nat) : UInt32 :=
  ((bytes addr).toUInt16 <<< 8 ||| (bytes (addr + 1)).toUInt16).toInt16.toInt32.toUInt32

theorem toNat_add_of_lt {left right : UInt32} (small : left.toNat + right.toNat < 2 ^ 32) :
    (left + right).toNat = left.toNat + right.toNat := by
  rw [UInt32.toNat_add, Nat.mod_eq_of_lt small]

theorem toNat_sub_of_le {left right : UInt32} (le : right.toNat ≤ left.toNat) :
    (left - right).toNat = left.toNat - right.toNat :=
  UInt32.toNat_sub_of_le _ _ (UInt32.le_iff_toNat_le.mpr le)

theorem wordAt_congr {left right : Nat → UInt8} {addr addr' : Nat}
    (same : ∀ i, i < 4 → left (addr + i) = right (addr' + i)) :
    wordAt left addr = wordAt right addr' := by
  unfold wordAt
  refine List.foldl_ext _ _ _ fun value i member => ?_
  rw [same i (List.mem_range.mp member)]

theorem halfAt_congr {left right : Nat → UInt8} {addr : Nat} (first : left addr = right addr)
    (second : left (addr + 1) = right (addr + 1)) : halfAt left addr = halfAt right addr := by
  unfold halfAt
  rw [first, second]

/-- The bytes of a value that is `width` bytes wide, the highest first. -/
def bigEndian (width : Nat) (value : UInt32) (i : Nat) : UInt8 :=
  (value >>> UInt32.ofNat (8 * (width - 1 - i))).toUInt8

/-- Inside DMEM the bytes of a value are stored, and nothing else changes. -/
def Stores (width : Nat) (store : (offset addr value : UInt32) → Memory → Memory) : Prop :=
  ∀ (offset addr value : UInt32) (memory : Memory), (offset + addr).toNat + width ≤ 0x1000 →
    (∀ other, other < 0x1000 → (store offset addr value memory).dmemByte other =
      if (offset + addr).toNat ≤ other ∧ other < (offset + addr).toNat + width
      then bigEndian width value (other - (offset + addr).toNat) else memory.dmemByte other) ∧
    ∀ other, (store offset addr value memory).rdramByte other = memory.rdramByte other

/-- What the scalar instructions do: a sign is that of two's complement, and inside DMEM
loads and stores are big-endian. -/
structure Scalars (rt : Runtime Vec) : Prop where
  signed : ∀ value, rt.signed value = value.toInt32.toInt
  word : ∀ offset addr memory, (offset + addr).toNat + 3 < 0x1000 →
    rt.memWLoad offset addr memory = wordAt memory.dmemByte (offset + addr).toNat
  half : ∀ offset addr memory, (offset + addr).toNat + 1 < 0x1000 →
    rt.memHLoad offset addr memory = halfAt memory.dmemByte (offset + addr).toNat
  storesHalf : Stores 2 rt.memHStore
  storesWord : Stores 4 rt.memWStore

namespace Scalars

variable {rt : Runtime Vec}

theorem pos (scalars : Scalars rt) {value : UInt32} :
    0 < rt.signed value ↔ 0 < value.toNat ∧ value.toNat < 0x80000000 := by
  have bound := value.toNat_lt
  have shown : rt.signed value =
      if 2 * value.toNat < 2 ^ 32 then (value.toNat : Int) else (value.toNat : Int) - 2 ^ 32 := by
    rw [scalars.signed]
    show value.toBitVec.toInt = _
    rw [BitVec.toInt_eq_toNat_cond]
    rfl
  rw [shown]
  split <;> omega

theorem nonpos (scalars : Scalars rt) {value : UInt32} :
    rt.signed value ≤ 0 ↔ value.toNat = 0 ∨ 0x80000000 ≤ value.toNat := by
  rw [← Int.not_lt, scalars.pos]
  omega

/-- The dispatch's load of a label. -/
theorem slot (scalars : Scalars rt) {memory : Memory} {slot : UInt32}
    (inside : slot.toNat + 1 < 0x1000) :
    rt.memHLoad 0x0 slot memory = halfAt memory.dmemByte slot.toNat := by
  rw [scalars.half _ _ _ (by rwa [UInt32.zero_add]), UInt32.zero_add]

end Scalars

/-! ## Command lists -/

/-- An audio command, two words. -/
structure Command where
  w0 : UInt32
  w1 : UInt32
deriving DecidableEq, Repr

/-- Where the dispatch finds the label of a command. -/
def Command.slot (command : Command) : UInt32 := command.w0 >>> 23 &&& 0xFE

/-- The commands that stand from an address on. -/
def Lists (bytes : Nat → UInt8) : Nat → List Command → Prop
  | _, [] => True
  | addr, command :: rest =>
      wordAt bytes addr = command.w0 ∧ wordAt bytes (addr + 4) = command.w1 ∧
        Lists bytes (addr + 8) rest

theorem Lists.congr {left right : Nat → UInt8} {commands : List Command} {addr addr' : Nat}
    (same : ∀ i, i < 8 * commands.length → left (addr + i) = right (addr' + i))
    (listed : Lists right addr' commands) : Lists left addr commands := by
  induction commands generalizing addr addr' with
  | nil => trivial
  | cons command rest inductionHypothesis =>
      have long : 8 * (command :: rest).length = 8 * rest.length + 8 := by
        rw [List.length_cons, Nat.mul_succ]
      obtain ⟨first, second, others⟩ := listed
      refine ⟨?_, ?_, ?_⟩
      · rw [wordAt_congr fun i below => same i (by omega), first]
      · refine (wordAt_congr fun i below => ?_).trans second
        rw [Nat.add_assoc, Nat.add_assoc]
        exact same (4 + i) (by omega)
      · refine inductionHypothesis (fun i below => ?_) others
        rw [Nat.add_assoc, Nat.add_assoc]
        exact same (8 + i) (by omega)

theorem Lists.take {bytes : Nat → UInt8} {commands : List Command} {addr : Nat}
    (listed : Lists bytes addr commands) (count : Nat) :
    Lists bytes addr (commands.take count) := by
  induction commands generalizing addr count with
  | nil =>
      rw [List.take_nil]
      trivial
  | cons command rest inductionHypothesis =>
      cases count with
      | zero => trivial
      | succ count => exact ⟨listed.1, listed.2.1, inductionHypothesis listed.2.2 count⟩

/-! ## What a DMA moves -/

/-- Whole doublewords come from RDRAM, in order, and nothing else changes. -/
def ReadsRdram (dma : (mem dram len : UInt32) → Memory → Memory) : Prop :=
  ∀ (mem dram len : UInt32) (memory : Memory),
    mem.toNat % 8 = 0 → dram.toNat % 8 = 0 → (len.toNat + 1) % 8 = 0 →
    mem.toNat + len.toNat < 0x1000 → dram.toNat + len.toNat < 0x800000 →
    (∀ addr, addr < 0x1000 → (dma mem dram len memory).dmemByte addr =
      if mem.toNat ≤ addr ∧ addr ≤ mem.toNat + len.toNat
      then memory.rdramByte (dram.toNat + (addr - mem.toNat)) else memory.dmemByte addr) ∧
    ∀ addr, (dma mem dram len memory).rdramByte addr = memory.rdramByte addr

/-- Whole doublewords go to RDRAM, in order, and nothing else changes. -/
def WritesRdram (dma : (mem dram len : UInt32) → Memory → Memory) : Prop :=
  ∀ (mem dram len : UInt32) (memory : Memory),
    mem.toNat % 8 = 0 → dram.toNat % 8 = 0 → (len.toNat + 1) % 8 = 0 →
    mem.toNat + len.toNat < 0x1000 → dram.toNat + len.toNat < 0x800000 →
    (∀ addr, addr < 0x1000 → (dma mem dram len memory).dmemByte addr = memory.dmemByte addr) ∧
    ∀ addr, (dma mem dram len memory).rdramByte addr =
      if dram.toNat ≤ addr ∧ addr ≤ dram.toNat + len.toNat
      then memory.dmemByte (mem.toNat + (addr - dram.toNat)) else memory.rdramByte addr

/-! ## The command buffer -/

/-- The bytes of DMEM that hold the current chunk of commands. -/
def InBuffer (addr : Nat) : Prop := 0x2B0 ≤ addr ∧ addr < 0x3F0

instance (addr : Nat) : Decidable (InBuffer addr) := by
  unfold InBuffer
  infer_instance

/-- Memories that differ in the command buffer only. -/
structure Agree (left right : Memory) : Prop where
  rdram : ∀ addr, left.rdramByte addr = right.rdramByte addr
  dmem : ∀ addr, addr < 0x1000 → ¬ InBuffer addr → left.dmemByte addr = right.dmemByte addr

namespace Agree

theorem refl (memory : Memory) : Agree memory memory := ⟨fun _ => rfl, fun _ _ _ => rfl⟩

theorem trans {left middle right : Memory} (front : Agree left middle)
    (back : Agree middle right) : Agree left right where
  rdram addr := (front.rdram addr).trans (back.rdram addr)
  dmem addr inside apart := (front.dmem addr inside apart).trans (back.dmem addr inside apart)

theorem word {left right : Memory} {addr : Nat} (agree : Agree left right)
    (inside : addr + 3 < 0x1000) (apart : 0x3F0 ≤ addr) :
    wordAt left.dmemByte addr = wordAt right.dmemByte addr := by
  refine wordAt_congr fun i below => agree.dmem _ (by omega) ?_
  unfold InBuffer
  omega

end Agree

/-- The part of a task's list that the next chunk holds. -/
def chunkOf (size : UInt32) : UInt32 := if size.toNat ≤ 0x140 then size else 0x140

theorem chunkOf_toNat (size : UInt32) : (chunkOf size).toNat = min size.toNat 0x140 := by
  have whole : (0x140 : UInt32).toNat = 0x140 := rfl
  unfold chunkOf
  split <;> omega

/-- A read of a chunk leaves its commands in the buffer, and the rest of the memory. -/
theorem ReadsRdram.chunk {dma : (mem dram len : UInt32) → Memory → Memory} (reads : ReadsRdram dma)
    (memory : Memory) {pointer size : UInt32} {commands : List Command}
    (whole : size.toNat = 8 * commands.length) (nonempty : commands ≠ [])
    (aligned : pointer.toNat % 8 = 0) (inside : pointer.toNat + size.toNat ≤ 0x800000)
    (listed : Lists memory.rdramByte pointer.toNat commands) :
    Agree (dma 0x2B0 pointer (chunkOf size - 1) memory) memory ∧
      Lists (dma 0x2B0 pointer (chunkOf size - 1) memory).dmemByte 0x2B0
        (commands.take ((chunkOf size).toNat / 8)) := by
  have long : 0 < commands.length := List.length_pos_of_ne_nil nonempty
  have chunk : (chunkOf size).toNat = min size.toNat 0x140 := chunkOf_toNat size
  have len : (chunkOf size - 1).toNat = (chunkOf size).toNat - 1 :=
    toNat_sub_of_le (by rw [show (1 : UInt32).toNat = 1 from rfl]; omega)
  have start : (0x2B0 : UInt32).toNat = 0x2B0 := rfl
  obtain ⟨dmem, rdram⟩ := reads 0x2B0 pointer (chunkOf size - 1) memory (by decide) aligned
    (by omega) (by omega) (by omega)
  refine ⟨⟨rdram, fun addr below apart => ?_⟩, ?_⟩
  · rw [dmem addr below, if_neg]
    unfold InBuffer at apart
    omega
  · refine (listed.take _).congr fun i below => ?_
    have short : i < (chunkOf size).toNat := by
      rw [List.length_take] at below
      omega
    have moved := dmem (0x2B0 + i) (by omega)
    rw [if_pos ⟨by omega, by omega⟩, start, Nat.add_sub_cancel_left] at moved
    exact moved

/-- The hook's chunk is the microcode's. -/
theorem chunk_eq_chunkOf (size : UInt32) :
    (if size > audioChunkSize then audioChunkSize else size) = chunkOf size := by
  have full : audioChunkSize.toNat = 0x140 := rfl
  unfold chunkOf
  by_cases short : size.toNat ≤ 0x140
  · rw [if_neg (by rw [gt_iff_lt, UInt32.lt_iff_toNat_lt]; omega), if_pos short]
  · rw [if_pos (by rw [gt_iff_lt, UInt32.lt_iff_toNat_lt]; omega), if_neg short]
    rfl

/-! ## Transfers -/

theorem indirectJump_of {ctx : Context Vec} {label : Label}
    (target : jumpLabel ctx.jumpTarget = some label) : indirectJump ctx = .goto label ctx := by
  simp only [indirectJump, target]

/-- `L_114C` reads from RDRAM and returns. -/
theorem goes_dmaRead (rt : Runtime Vec) (ctx : Context Vec) {label : Label}
    (returns : jumpLabel ctx.r31 = some label) :
    Goto.Goes (block rt) 3 .l114C ctx label { ctx with
      r4 := 0
      dmaMemAddress := ctx.r1
      dmaDramAddress := ctx.r2
      jumpTarget := ctx.r31
      memory := rt.dmaRead ctx.r1 ctx.r2 ctx.r3 ctx.memory } :=
  .block rfl (.block rfl (.single (indirectJump_of returns)))

/-- `L_1174` writes to RDRAM and returns. -/
theorem goes_dmaWrite (rt : Runtime Vec) (ctx : Context Vec) {label : Label}
    (returns : jumpLabel ctx.r31 = some label) :
    Goto.Goes (block rt) 3 .l1174 ctx label { ctx with
      r4 := 0
      dmaMemAddress := ctx.r1
      dmaDramAddress := ctx.r2
      jumpTarget := ctx.r31
      memory := rt.dmaWrite ctx.r1 ctx.r2 ctx.r3 ctx.memory } :=
  .block rfl (.block rfl (.single (indirectJump_of returns)))

/-- The return addresses with which the command loop calls `L_1120`. -/
def LoopReturn (address : UInt32) : Prop := address = 0x10B8 ∨ address = 0x1104

theorem jumpLabel_1144 : jumpLabel 0x1144 = some .l1144 := by decide

/-- `L_1144` returns to the dispatch. -/
theorem goes_return {rt : Runtime Vec} {ctx : Context Vec} (returns : LoopReturn ctx.r5) :
    Goto.Goes (block rt) 3 .l1144 ctx .l10C8
      { ctx with jumpTarget := ctx.r5, r29 := 0x2B0, r2 := 0 } := by
  rcases returns with back | back
  · have target : jumpLabel ctx.r5 = some .l10B8 := back ▸ by decide
    exact .block (indirectJump_of target) (.block rfl (.single rfl))
  · have target : jumpLabel ctx.r5 = some .l1104 := back ▸ by decide
    exact .block (indirectJump_of target) (.block rfl (.single rfl))

/-- What the dispatch goes on with after a chunk of `size` bytes is loaded. -/
structure Fetched (rt : Runtime Vec) (before : Context Vec) (size : UInt32)
    (after : Context Vec) : Prop where
  memory : after.memory = rt.dmaRead 0x2B0 before.r2 (size - 1) before.memory
  r24 : after.r24 = before.r24
  r27 : after.r27 = before.r27
  r28 : after.r28 = before.r28
  r29 : after.r29 = 0x2B0
  r30 : after.r30 = size

theorem goes_fetch (rt : Runtime Vec) (ctx : Context Vec) (buffer : ctx.r1 = 0x2B0)
    (returns : LoopReturn ctx.r5) :
    ∃ after, Goto.Goes (block rt) 7 .l1138 ctx .l10C8 after ∧ Fetched rt ctx ctx.r3 after := by
  have transfer := goes_dmaRead rt
    { ctx with r30 := ctx.r3, r31 := 0x1144, r3 := ctx.r3 - 0x1 } jumpLabel_1144
  refine ⟨_, .block rfl (transfer.trans (goes_return returns)), ?_⟩
  exact ⟨buffer ▸ rfl, rfl, rfl, rfl, rfl, rfl⟩

/-- `L_1120` loads the next chunk and returns to the dispatch. -/
theorem goes_chunk {rt : Runtime Vec} (scalars : Scalars rt) (ctx : Context Vec)
    (bound : ctx.r27.toNat < 0x80000000) (returns : LoopReturn ctx.r31) :
    ∃ passes after, passes ≤ 9 ∧ Goto.Goes (block rt) passes .l1120 ctx .l10C8 after ∧
      Fetched rt ctx (chunkOf ctx.r27) after := by
  have limit : (0x140 : UInt32).toNat = 0x140 := rfl
  have signed : rt.signed (ctx.r27 - 0x140) ≤ 0 ↔ ctx.r27.toNat ≤ 0x140 := by
    rw [scalars.nonpos, UInt32.toNat_sub]
    omega
  by_cases short : ctx.r27.toNat ≤ 0x140
  · obtain ⟨after, goes, fetched⟩ := goes_fetch rt { ctx with
      r5 := ctx.r31, r3 := ctx.r27, r4 := ctx.r27 - 0x140, r1 := 0x2B0 } rfl returns
    refine ⟨8, after, by decide, .block (if_pos (signed.mpr short)) goes, ?_⟩
    rw [chunkOf, if_pos short]
    exact ⟨fetched.memory, fetched.r24, fetched.r27, fetched.r28, fetched.r29, fetched.r30⟩
  · obtain ⟨after, goes, fetched⟩ := goes_fetch rt { ctx with
      r5 := ctx.r31, r3 := 0x140, r4 := ctx.r27 - 0x140, r1 := 0x2B0 } rfl returns
    refine ⟨9, after, by decide, .block (if_neg (mt signed.mp short)) (.block rfl goes), ?_⟩
    rw [chunkOf, if_neg short]
    exact ⟨fetched.memory, fetched.r24, fetched.r27, fetched.r28, fetched.r29, fetched.r30⟩

/-! ## One command -/

/-- From its label a command comes back to the command loop within a budget of labels; it
has done to the memory what its effect does, and nothing to the command buffer. -/
def Performs (rt : Runtime Vec) (budget : Nat) (command : Command) (label : Label)
    (effect : Memory → Memory) : Prop :=
  ∀ (ctx : Context Vec) (expected : Memory), ctx.r24 = 0xFA0 → ctx.r26 = command.w0 →
    ctx.r25 = command.w1 → Agree ctx.memory expected →
    ∃ passes after, passes ≤ budget ∧ Goto.Goes (block rt) passes label ctx .l10EC after ∧
      Agree after.memory (effect expected) ∧
      (∀ addr, InBuffer addr → after.memory.dmemByte addr = ctx.memory.dmemByte addr) ∧
      after.r24 = ctx.r24 ∧ after.r27 = ctx.r27 ∧ after.r28 = ctx.r28 ∧ after.r29 = ctx.r29 ∧
        after.r30 = ctx.r30 - 0x8

/-- The slots of the label table that no command overwrites. -/
def InTable (addr : Nat) : Prop := addr < 0x100 ∧ ¬ (0xE ≤ addr ∧ addr < 0x12)

/-- An effect that leaves the label table and the command list, which stands from `pointer`
to `stop`. -/
structure Lawful (pointer stop : Nat) (effect : Memory → Memory) : Prop where
  table : ∀ memory addr, InTable addr → (effect memory).dmemByte addr = memory.dmemByte addr
  list : ∀ memory addr, pointer ≤ addr → addr < stop →
    (effect memory).rdramByte addr = memory.rdramByte addr

/-- The label of a command, which no other command moves. -/
structure Entered (memory : Memory) (command : Command) (label : Label) : Prop where
  target : jumpLabel (halfAt memory.dmemByte command.slot.toNat) = some label
  slot : InTable command.slot.toNat ∧ InTable (command.slot.toNat + 1)

theorem Entered.congr {left right : Memory} {command : Command} {label : Label}
    (entered : Entered right command label)
    (same : ∀ addr, InTable addr → left.dmemByte addr = right.dmemByte addr) :
    Entered left command label where
  target := by
    obtain ⟨first, second⟩ := entered.slot
    rw [halfAt_congr (same _ first) (same _ second), entered.target]
  slot := entered.slot

theorem InTable.not_inBuffer {addr : Nat} (inTable : InTable addr) : ¬ InBuffer addr := by
  have small := inTable.1
  unfold InBuffer
  omega

/-- A pending part of the list: `count` commands of it are in the buffer, from `addr` on. -/
structure Pending (stop : Nat) (expected : Memory) (commands : List Command) (count addr : Nat)
    (ctx : Context Vec) : Prop where
  base : ctx.r24 = 0xFA0
  left : ctx.r27.toNat = 8 * commands.length
  next : ctx.r28.toNat + 8 * commands.length = stop
  listed : Lists expected.rdramByte ctx.r28.toNat commands
  chunk : ctx.r30.toNat = 8 * count
  some : count ≤ commands.length
  place : 0x2B0 ≤ addr ∧ addr + 8 * count ≤ 0x3F0
  fetched : Lists ctx.memory.dmemByte addr (commands.take count)
  agree : Agree ctx.memory expected

/-- What the dispatch of a command leaves. -/
def dispatched (rt : Runtime Vec) (ctx : Context Vec) : Context Vec :=
  let w0 := rt.memWLoad 0x0 ctx.r29 ctx.memory
  let target := rt.memHLoad 0x0 (w0 >>> 23 &&& 0xFE) ctx.memory
  { ctx with
    r26 := w0
    r25 := rt.memWLoad 0x4 ctx.r29 ctx.memory
    r28 := ctx.r28 + 0x8
    r1 := target
    jumpTarget := target
    r27 := ctx.r27 - 0x8 }

theorem block_dispatch {rt : Runtime Vec} {ctx : Context Vec} {label : Label}
    (target : jumpLabel (dispatched rt ctx).jumpTarget = some label) :
    block rt .l10C8 ctx = .goto label (dispatched rt ctx) :=
  indirectJump_of target

section List

variable {rt : Runtime Vec} {budget : Command → Nat} {pointer stop : Nat} {expected : Memory}
  {label : Command → Label} {effect : Command → Memory → Memory}

/-- The dispatch of the next command, and the command. -/
theorem Pending.dispatch {command : Command} {rest : List Command} {count : Nat}
    {ctx : Context Vec}
    (pending : Pending stop expected (command :: rest) (count + 1) ctx.r29.toNat ctx)
    (scalars : Scalars rt) (bound : stop ≤ 0x800000) (start : pointer ≤ ctx.r28.toNat)
    (entered : Entered expected command (label command))
    (performs : Performs rt (budget command) command (label command) (effect command))
    (lawful : Lawful pointer stop (effect command)) :
    ∃ passes after, passes ≤ budget command + 1 ∧
      Goto.Goes (block rt) passes .l10C8 ctx .l10EC after ∧
      after.r29 = ctx.r29 ∧ pointer ≤ after.r28.toNat ∧
        Pending stop (effect command expected) rest count (after.r29.toNat + 8) after := by
  have eight : (0x8 : UInt32).toNat = 8 := rfl
  obtain ⟨base, left, next, listed, chunk, some, ⟨low, high⟩, ⟨first, second, others⟩, agree⟩ :=
    pending
  rw [List.length_cons] at left next some
  have r29 : (0x0 + ctx.r29 : UInt32) = ctx.r29 := UInt32.zero_add ctx.r29
  have r29' : (0x4 + ctx.r29 : UInt32).toNat = ctx.r29.toNat + 4 := by
    rw [UInt32.add_comm]
    exact toNat_add_of_lt (by rw [show (0x4 : UInt32).toNat = 4 from rfl]; omega)
  have w0 : rt.memWLoad 0x0 ctx.r29 ctx.memory = command.w0 := by
    rw [scalars.word _ _ _ (by rw [r29]; omega), r29, first]
  have w1 : rt.memWLoad 0x4 ctx.r29 ctx.memory = command.w1 := by
    rw [scalars.word _ _ _ (by omega), r29', second]
  have half : jumpLabel (rt.memHLoad 0x0 command.slot ctx.memory) =
      Option.some (label command) := by
    rw [scalars.slot (Nat.lt_trans entered.slot.2.1 (by decide))]
    exact (entered.congr fun addr inTable =>
      agree.dmem addr (Nat.lt_trans inTable.1 (by decide)) inTable.not_inBuffer).target
  have target : jumpLabel (dispatched rt ctx).jumpTarget = Option.some (label command) := by
    show jumpLabel (rt.memHLoad 0x0 (rt.memWLoad 0x0 ctx.r29 ctx.memory >>> 23 &&& 0xFE)
      ctx.memory) = _
    rw [w0]
    exact half
  obtain ⟨passes, after, cost, goes, agrees, kept, r24, r27, r28, r29Same, r30⟩ :=
    performs (dispatched rt ctx) expected base w0 w1 agree
  refine ⟨passes + 1, after, Nat.succ_le_succ cost, .block (block_dispatch target) goes,
    r29Same, ?_, ?_⟩
  all_goals
    have ahead : after.r28.toNat = ctx.r28.toNat + 8 := by
      rw [r28]
      exact toNat_add_of_lt (by omega)
  · omega
  · refine ⟨r24.trans base, ?_, by omega, ?_, ?_, by omega, ?_, ?_, agrees⟩
    · have counted : after.r27.toNat = ctx.r27.toNat - 8 := by
        rw [r27]
        exact toNat_sub_of_le (by omega)
      omega
    · refine listed.2.2.congr fun i below => ?_
      rw [ahead, lawful.list _ _ (by omega) (by omega)]
    · have counted : after.r30.toNat = ctx.r30.toNat - 8 := by
        rw [r30]
        exact toNat_sub_of_le (by show 8 ≤ ctx.r30.toNat; omega)
      omega
    · have place : after.r29.toNat = ctx.r29.toNat := congrArg UInt32.toNat r29Same
      exact ⟨by omega, by omega⟩
    · have place : after.r29.toNat = ctx.r29.toNat := congrArg UInt32.toNat r29Same
      rw [place]
      refine others.congr fun i below => kept _ ?_
      rw [List.length_take] at below
      exact ⟨by omega, by omega⟩

/-- The command loop goes on in the buffer. -/
theorem Pending.next_inBuffer (scalars : Scalars rt) {rest : List Command} {count : Nat}
    {ctx : Context Vec}
    (pending : Pending stop expected rest (count + 1) (ctx.r29.toNat + 8) ctx) :
    ∃ after, Goto.Goes (block rt) 1 .l10EC ctx .l10C8 after ∧
      Pending stop expected rest (count + 1) after.r29.toNat after ∧ after.r28 = ctx.r28 := by
  obtain ⟨base, left, next, listed, chunk, some, place, fetched, agree⟩ := pending
  have more : 0 < rt.signed ctx.r30 := scalars.pos.mpr ⟨by omega, by omega⟩
  have ahead : (ctx.r29 + 0x8).toNat = ctx.r29.toNat + 8 :=
    toNat_add_of_lt (by rw [show (8 : UInt32).toNat = 8 from rfl]; omega)
  refine ⟨_, .single (if_pos more), ⟨base, left, next, listed, chunk, some, ?_, ?_, agree⟩, rfl⟩
  · exact ahead ▸ place
  · exact ahead ▸ fetched

/-- The command loop loads the next chunk. -/
theorem Pending.next_chunk {rest : List Command} {ctx : Context Vec} (scalars : Scalars rt)
    (reads : ReadsRdram rt.dmaRead) (bound : stop ≤ 0x800000) (nonempty : rest ≠ [])
    (aligned : ctx.r28.toNat % 8 = 0)
    (pending : Pending stop expected rest 0 (ctx.r29.toNat + 8) ctx) :
    ∃ passes after count, passes ≤ 10 ∧ Goto.Goes (block rt) passes .l10EC ctx .l10C8 after ∧
      Pending stop expected rest (count + 1) after.r29.toNat after ∧ after.r28 = ctx.r28 := by
  obtain ⟨base, left, next, listed, chunk, -, -, -, agree⟩ := pending
  have long : 0 < rest.length := List.length_pos_of_ne_nil nonempty
  have spent : ¬ 0 < rt.signed ctx.r30 := fun more => by
    have counted := (scalars.pos.mp more).1
    omega
  have more : ¬ rt.signed ctx.r27 ≤ 0 := fun none => by
    have counted := scalars.nonpos.mp none
    omega
  let calling : Context Vec := { ctx with
    r29 := ctx.r29 + 0x8, r1 := 0x4000, r31 := 0x1104, r2 := ctx.r28 }
  have leaves : block rt .l10EC ctx = .goto .l1120 calling := by
    show (if _ then _ else _) = _
    rw [if_neg spent]
    exact if_neg more
  obtain ⟨passes, after, cost, goes, loaded⟩ := goes_chunk scalars calling
    (show ctx.r27.toNat < 0x80000000 by omega) (Or.inr rfl)
  obtain ⟨agrees, fetched⟩ := reads.chunk ctx.memory left nonempty aligned
    (by omega) (listed.congr fun i _ => agree.rdram _)
  have size : (chunkOf ctx.r27).toNat = min ctx.r27.toNat 0x140 := chunkOf_toNat ctx.r27
  refine ⟨passes + 1, after, (chunkOf ctx.r27).toNat / 8 - 1, Nat.succ_le_succ cost,
    .block leaves goes, ?_, loaded.r28⟩
  have count : (chunkOf ctx.r27).toNat / 8 - 1 + 1 = (chunkOf ctx.r27).toNat / 8 := by omega
  have start : after.r29.toNat = 0x2B0 := congrArg UInt32.toNat loaded.r29
  have memory : after.memory = rt.dmaRead 0x2B0 ctx.r28 (chunkOf ctx.r27 - 1) ctx.memory :=
    loaded.memory
  rw [count, start]
  refine ⟨loaded.r24.trans base, ?_, ?_, ?_, ?_, by omega, ⟨by omega, by omega⟩, ?_, ?_⟩
  · exact (congrArg UInt32.toNat loaded.r27).trans left
  · rw [loaded.r28]
    exact next
  · rw [loaded.r28]
    exact listed
  · have held : after.r30.toNat = (chunkOf ctx.r27).toNat := congrArg UInt32.toNat loaded.r30
    omega
  · exact memory ▸ fetched
  · exact memory ▸ agrees.trans agree

/-- What the commands of a list do, one after another. -/
def performed (effect : Command → Memory → Memory) (commands : List Command)
    (memory : Memory) : Memory :=
  commands.foldl (fun reached command => effect command reached) memory

/-- A list that the microcode can walk: every command has its label, comes back from it, and
leaves what the walk needs. -/
structure Walkable (rt : Runtime Vec) (budget : Command → Nat) (pointer stop : Nat)
    (memory : Memory) (label : Command → Label) (effect : Command → Memory → Memory)
    (commands : List Command) : Prop where
  entered : ∀ command ∈ commands, Entered memory command (label command)
  performs : ∀ command ∈ commands,
    Performs rt (budget command) command (label command) (effect command)
  lawful : ∀ command ∈ commands, Lawful pointer stop (effect command)

theorem Walkable.tail {command : Command} {rest : List Command}
    (walkable : Walkable rt budget pointer stop expected label effect (command :: rest)) :
    Walkable rt budget pointer stop (effect command expected) label effect rest where
  entered other member :=
    (walkable.entered other (.tail command member)).congr
      ((walkable.lawful command (.head rest)).table expected)
  performs other member := walkable.performs other (.tail command member)
  lawful other member := walkable.lawful other (.tail command member)

theorem Walkable.append_left {front back : List Command}
    (walkable : Walkable rt budget pointer stop expected label effect (front ++ back)) :
    Walkable rt budget pointer stop expected label effect front where
  entered command member := walkable.entered command (List.mem_append_left back member)
  performs command member := walkable.performs command (List.mem_append_left back member)
  lawful command member := walkable.lawful command (List.mem_append_left back member)

theorem Walkable.append_right {front back : List Command}
    (walkable : Walkable rt budget pointer stop expected label effect (front ++ back)) :
    Walkable rt budget pointer stop (performed effect front expected) label effect back := by
  induction front generalizing expected with
  | nil => exact walkable
  | cons command front inductionHypothesis => exact inductionHypothesis walkable.tail

/-- The labels that the walk of a list may pass. -/
def patience (budget : Command → Nat) (commands : List Command) : Nat :=
  (commands.map fun command => budget command + 11).sum

theorem patience_append (front back : List Command) :
    patience budget (front ++ back) = patience budget front + patience budget back := by
  unfold patience
  rw [List.map_append, List.sum_append]

/-- The command loop goes on, in the buffer or with the next chunk. -/
theorem Pending.onward {rest : List Command} {count : Nat} {ctx : Context Vec}
    (scalars : Scalars rt) (reads : ReadsRdram rt.dmaRead) (bound : stop ≤ 0x800000)
    (aligned : stop % 8 = 0) (nonempty : rest ≠ [])
    (pending : Pending stop expected rest count (ctx.r29.toNat + 8) ctx) :
    ∃ passes after count, passes ≤ 10 ∧ Goto.Goes (block rt) passes .l10EC ctx .l10C8 after ∧
      Pending stop expected rest (count + 1) after.r29.toNat after ∧ after.r28 = ctx.r28 := by
  have place := pending.next
  cases count with
  | zero => exact pending.next_chunk scalars reads bound nonempty (by omega)
  | succ count =>
      obtain ⟨after, goes, pending, same⟩ := pending.next_inBuffer scalars
      exact ⟨1, after, count, by decide, goes, pending, same⟩

/-- The walk comes to any command of the list, with the commands before it performed. -/
theorem Pending.reaches {front rest : List Command} {count : Nat} {ctx : Context Vec}
    (scalars : Scalars rt) (reads : ReadsRdram rt.dmaRead) (bound : stop ≤ 0x800000)
    (aligned : stop % 8 = 0) (nonempty : rest ≠ []) (start : pointer ≤ ctx.r28.toNat)
    (walkable : Walkable rt budget pointer stop expected label effect front)
    (pending : Pending stop expected (front ++ rest) (count + 1) ctx.r29.toNat ctx) :
    ∃ passes after count, passes ≤ patience budget front ∧
      Goto.Goes (block rt) passes .l10C8 ctx .l10C8 after ∧ pointer ≤ after.r28.toNat ∧
        Pending stop (performed effect front expected) rest (count + 1) after.r29.toNat after := by
  induction front generalizing expected count ctx with
  | nil => exact ⟨0, ctx, count, Nat.zero_le _, .stay _ ctx, start, pending⟩
  | cons command front inductionHypothesis =>
      obtain ⟨passes, back, cost, goes, _, start, pending⟩ := pending.dispatch scalars bound start
        (walkable.entered command (.head front)) (walkable.performs command (.head front))
        (walkable.lawful command (.head front))
      obtain ⟨more, between, count, few, further, pending, same⟩ := pending.onward scalars reads
        bound aligned (List.append_ne_nil_of_right_ne_nil front nonempty)
      obtain ⟨left, after, count, bounded, finish, later, pending⟩ := inductionHypothesis
        (same ▸ start) walkable.tail pending
      have long : patience budget (command :: front) = budget command + 11 +
          patience budget front := List.sum_cons
      exact ⟨passes + more + left, after, count, by omega, (goes.trans further).trans finish,
        later, pending⟩

/-- The rest of a list, from the dispatch of its first command on. -/
theorem Pending.goes {commands : List Command} {count : Nat} {ctx : Context Vec}
    (scalars : Scalars rt) (reads : ReadsRdram rt.dmaRead) (bound : stop ≤ 0x800000)
    (aligned : stop % 8 = 0) (nonempty : commands ≠ []) (start : pointer ≤ ctx.r28.toNat)
    (walkable : Walkable rt budget pointer stop expected label effect commands)
    (pending : Pending stop expected commands (count + 1) ctx.r29.toNat ctx) :
    ∃ passes after, passes ≤ patience budget commands ∧
      Goto.Goes (block rt) passes .l10C8 ctx .l110C after ∧
        Agree after.memory (performed effect commands expected) := by
  obtain ⟨front, last, rfl⟩ := List.eq_nil_or_concat commands |>.resolve_left nonempty
  rw [List.concat_eq_append] at walkable pending ⊢
  obtain ⟨passes, before, count, few, goes, start, pending⟩ := pending.reaches scalars reads bound
    aligned (List.cons_ne_nil last []) start walkable.append_left
  have ending := walkable.append_right
  obtain ⟨more, back, cost, further, _, _, pending⟩ := pending.dispatch scalars bound start
    (ending.entered last (.head [])) (ending.performs last (.head []))
    (ending.lawful last (.head []))
  -- the list and its last chunk end together
  have none : count = 0 := Nat.le_zero.mp pending.some
  have spent : ¬ 0 < rt.signed back.r30 := fun more => by
    have counted := (scalars.pos.mp more).1
    have held := pending.chunk
    omega
  have ended : rt.signed back.r27 ≤ 0 := scalars.nonpos.mpr (Or.inl pending.left)
  have leaves : block rt .l10EC back =
      .goto .l110C { back with r29 := back.r29 + 0x8, r1 := 0x4000 } := by
    show (if _ then _ else _) = _
    rw [if_neg spent]
    exact if_pos ended
  have long : patience budget (front ++ [last]) = patience budget front + (budget last + 11) :=
    patience_append front [last]
  refine ⟨passes + (more + 1), _, by omega, goes.trans (further.trans (.single leaves)), ?_⟩
  unfold performed
  rw [List.foldl_append]
  exact pending.agree

/-- A command without a label stops the walk. -/
theorem Pending.stops (scalars : Scalars rt) {command : Command} {rest : List Command}
    {count : Nat} {ctx : Context Vec}
    (pending : Pending stop expected (command :: rest) (count + 1) ctx.r29.toNat ctx)
    (unknown : jumpLabel (halfAt expected.dmemByte command.slot.toNat) = none) :
    block rt .l10C8 ctx = .exit .unhandledJumpTarget (dispatched rt ctx) := by
  obtain ⟨_, _, _, _, _, _, ⟨low, high⟩, ⟨first, _, _⟩, agree⟩ := pending
  have small : command.slot.toNat ≤ 0xFE := by
    show (command.w0 >>> 23 &&& 0xFE).toNat ≤ 0xFE
    rw [UInt32.toNat_and]
    exact Nat.and_le_right
  have apart : ∀ addr, addr ≤ 0xFF → ctx.memory.dmemByte addr = expected.dmemByte addr := by
    intro addr below
    refine agree.dmem addr (by omega) ?_
    unfold InBuffer
    omega
  have r29 : (0x0 + ctx.r29 : UInt32) = ctx.r29 := UInt32.zero_add ctx.r29
  have w0 : rt.memWLoad 0x0 ctx.r29 ctx.memory = command.w0 := by
    rw [scalars.word _ _ _ (by rw [r29]; omega), r29, first]
  have half : rt.memHLoad 0x0 command.slot ctx.memory =
      halfAt expected.dmemByte command.slot.toNat := by
    rw [scalars.slot (by omega)]
    exact halfAt_congr (apart _ (by omega)) (apart _ (by omega))
  have target : jumpLabel (dispatched rt ctx).jumpTarget = none := by
    show jumpLabel (rt.memHLoad 0x0 (rt.memWLoad 0x0 ctx.r29 ctx.memory >>> 23 &&& 0xFE)
      ctx.memory) = _
    rw [w0]
    exact (congrArg jumpLabel half).trans unknown
  show indirectJump (dispatched rt ctx) = _
  rw [indirectJump, target]

end List

/-! ## A task -/

/-- `L_1064` to `L_10AC`: whatever the last task has left in `$5`, the list is the one
of the hook or the same of the task. -/
theorem goes_entry {rt : Runtime Vec} (scalars : Scalars rt) (ctx : Context Vec)
    (task : ctx.r1 = 0xFC0) (pointer : wordAt ctx.memory.dmemByte 0xFF0 = ctx.r28)
    (size : wordAt ctx.memory.dmemByte 0xFF4 = ctx.r27) :
    ∃ passes after, passes ≤ 6 ∧ Goto.Goes (block rt) passes .l1064 ctx .l10AC after ∧
      after.r27 = ctx.r27 ∧ after.r28 = ctx.r28 ∧ after.memory = ctx.memory := by
  have cleared : ∀ before : Context Vec, ∃ passes after, passes ≤ 2 ∧
      Goto.Goes (block rt) passes .l108C before .l10AC after ∧
        after.r27 = before.r27 ∧ after.r28 = before.r28 ∧ after.memory = before.memory := by
    intro before
    have still : ¬ 0 < rt.signed (0 &&& 0x100) := fun more =>
      absurd (scalars.pos.mp more).1 (by decide)
    by_cases even : before.r5 &&& 0x1 = 0
    · exact ⟨1, _, by decide, .single (if_pos even), rfl, rfl, rfl⟩
    · have odd : block rt .l108C before = if before.r5 &&& 0x100 = 0
          then .goto .l10AC { before with r4 := 0 } else .goto .l10A0 { before with r4 := 0 } :=
        if_neg even
      by_cases free : before.r5 &&& 0x100 = 0
      · exact ⟨1, _, by decide, .single (odd.trans (if_pos free)), rfl, rfl, rfl⟩
      · exact ⟨2, _, by decide, .block (odd.trans (if_neg free)) (.single (if_neg still)),
          rfl, rfl, rfl⟩
  by_cases fresh : rt.memWLoad 0x4 ctx.r1 ctx.memory &&& 0x2 = 0
  · obtain ⟨passes, after, few, goes, r27, r28, memory⟩ := cleared { ctx with
      r2 := rt.memWLoad 0x4 ctx.r1 ctx.memory &&& 0x2 }
    exact ⟨passes + 1, after, by omega, .block (if_pos fresh) goes, r27, r28, memory⟩
  · -- a task that yielded before has its registers set again
    obtain ⟨passes, after, few, goes, r27, r28, memory⟩ := cleared { ctx with
      r8 := 0, r31 := 0x107C, jumpTarget := 0x107C, r2 := 0, r5 := 0
      r28 := rt.memWLoad 0x30 ctx.r1 ctx.memory, r27 := rt.memWLoad 0x34 ctx.r1 ctx.memory }
    have target : jumpLabel 0x107C = some .l107C := by decide
    refine ⟨passes + 4, after, by omega,
      .block (if_neg fresh) (.block rfl (.block (indirectJump_of target) (.block rfl goes))),
      ?_, ?_, memory⟩
    · rw [r27, ← size, task]
      exact scalars.word _ _ _ (by decide)
    · rw [r28, ← pointer, task]
      exact scalars.word _ _ _ (by decide)

/-- A task with its command list, in the DMEM header and in RDRAM. -/
structure Task (memory : Memory) (pointer size : UInt32) (commands : List Command) : Prop where
  dataPtr : wordAt memory.dmemByte 0xFF0 = pointer
  dataSize : wordAt memory.dmemByte 0xFF4 = size
  whole : size.toNat = 8 * commands.length
  nonempty : commands ≠ []
  present : pointer ≠ 0
  aligned : pointer.toNat % 8 = 0
  inside : pointer.toNat + size.toNat ≤ 0x800000
  listed : Lists memory.rdramByte pointer.toNat commands

/-- The hook seeds the registers of the list and its first chunk. -/
theorem aspmainPreTask_task (rt : Runtime Vec) {ctx : Context Vec} {pointer size : UInt32}
    {commands : List Command} (task : Task ctx.memory pointer size commands) :
    ((aspmainPreTask rt ctx).r27 = size ∧ (aspmainPreTask rt ctx).r28 = pointer) ∧
      (aspmainPreTask rt ctx).memory =
        rt.dmaReadExternal 0x2B0 pointer (chunkOf size - 1) ctx.memory := by
  have long : 0 < commands.length := List.length_pos_of_ne_nil task.nonempty
  have some : size ≠ 0 := fun none => by
    have whole := task.whole
    rw [none] at whole
    exact absurd whole (by rw [show (0 : UInt32).toNat = 0 from rfl]; omega)
  have dataPtr : loadDmemWord ctx.memory (0xFC0 + 0x30) = pointer := task.dataPtr
  have dataSize : loadDmemWord ctx.memory (0xFC0 + 0x34) = size := task.dataSize
  unfold aspmainPreTask
  simp only [dataPtr, dataSize, task.present, some, or_self, if_false, chunk_eq_chunkOf]
  exact ⟨⟨trivial, trivial⟩, rfl⟩

/-- A task comes to the dispatch of its first command, whatever registers the last task has
left. -/
theorem Task.starts {rt : Runtime Vec} {ctx : Context Vec} {pointer size : UInt32}
    {commands : List Command} (scalars : Scalars rt) (reads : ReadsRdram rt.dmaRead)
    (seeds : ReadsRdram rt.dmaReadExternal) (task : Task ctx.memory pointer size commands) :
    ∃ passes first count, passes ≤ 16 ∧
      Goto.Goes (block rt) passes .l1064 { aspmainPreTask rt ctx with r1 := 0xFC0 } .l10C8 first ∧
        first.r28 = pointer ∧ Pending (pointer.toNat + size.toNat) ctx.memory commands (count + 1)
          first.r29.toNat first := by
  have long : 0 < commands.length := List.length_pos_of_ne_nil task.nonempty
  have whole := task.whole
  have inside := task.inside
  have bytes : (chunkOf size).toNat = min size.toNat 0x140 := chunkOf_toNat size
  -- the hook
  obtain ⟨seeded, hooked⟩ := aspmainPreTask_task rt task
  have kept : Agree (aspmainPreTask rt ctx).memory ctx.memory :=
    hooked ▸ (seeds.chunk ctx.memory whole task.nonempty task.aligned inside task.listed).1
  -- the entry
  obtain ⟨entry, ready, few, enters, r27, r28, memory⟩ := goes_entry scalars
    { aspmainPreTask rt ctx with r1 := 0xFC0 } rfl
    ((kept.word (by decide) (by decide)).trans (task.dataPtr.trans seeded.2.symm))
    ((kept.word (by decide) (by decide)).trans (task.dataSize.trans seeded.1.symm))
  -- the first chunk, again
  have size27 : ready.r27 = size := r27.trans seeded.1
  have pointer28 : ready.r28 = pointer := r28.trans seeded.2
  obtain ⟨passes, first, cost, goes, loaded⟩ := goes_chunk scalars
    { ready with r24 := 0xFA0, r31 := 0x10B8, r2 := ready.r28 }
    (show ready.r27.toNat < 0x80000000 by rw [size27]; omega) (Or.inl rfl)
  have agree : Agree ready.memory ctx.memory := memory ▸ kept
  obtain ⟨again, fetched⟩ := reads.chunk ready.memory whole task.nonempty
    task.aligned inside (task.listed.congr fun i _ => agree.rdram _)
  have loads : first.memory = rt.dmaRead 0x2B0 pointer (chunkOf size - 1) ready.memory := by
    rw [loaded.memory]
    show rt.dmaRead 0x2B0 ready.r28 (chunkOf ready.r27 - 1) ready.memory = _
    rw [size27, pointer28]
  have count : (chunkOf size).toNat / 8 - 1 + 1 = (chunkOf size).toNat / 8 := by omega
  have start : first.r29.toNat = 0x2B0 := congrArg UInt32.toNat loaded.r29
  have place : first.r28 = pointer := loaded.r28.trans pointer28
  have left : first.r27 = size := loaded.r27.trans size27
  have held : first.r30 = chunkOf size := loaded.r30.trans (congrArg chunkOf size27)
  refine ⟨entry + (passes + 1), first, (chunkOf size).toNat / 8 - 1, by omega,
    enters.trans (.block rfl goes), place, ?_⟩
  rw [count, start]
  refine ⟨loaded.r24, left ▸ whole, ?_, place ▸ task.listed, ?_, by omega,
    ⟨by omega, by omega⟩, loads ▸ fetched, loads ▸ again.trans agree⟩
  · rw [place, whole]
  · rw [held]
    omega

section Run

variable {rt : Runtime Vec} {budget : Command → Nat} {ctx : Context Vec} {pointer size : UInt32}
  {label : Command → Label} {effect : Command → Memory → Memory}

/-- A task walks its whole list in chunks, performs every command once and in order, and
breaks; the memory is as the commands leave it, but for the buffer of the chunks. -/
theorem Task.performs {commands : List Command} (scalars : Scalars rt)
    (reads : ReadsRdram rt.dmaRead) (seeds : ReadsRdram rt.dmaReadExternal)
    (task : Task ctx.memory pointer size commands)
    (walkable : Walkable rt budget pointer.toNat (pointer.toNat + size.toNat) ctx.memory label
      effect commands)
    (within : patience budget commands + 16 < watchdogLimit) :
    ∃ after, aspMain rt ctx = (.broke, after) ∧
      Agree after.memory (performed effect commands ctx.memory) := by
  have whole := task.whole
  have aligned := task.aligned
  obtain ⟨passes, first, count, few, goes, place, pending⟩ := task.starts scalars reads seeds
  obtain ⟨walked, last, bounded, walk, agrees⟩ := pending.goes scalars reads task.inside (by omega)
    task.nonempty (Nat.le_of_eq (congrArg _ place.symm)) walkable
  exact ⟨last, (goes.trans walk).run_exit rfl (by omega), agrees⟩

/-- A task stops at the first command without a label, the commands before it performed. -/
theorem Task.stops {front rest : List Command} {command : Command} (scalars : Scalars rt)
    (reads : ReadsRdram rt.dmaRead) (seeds : ReadsRdram rt.dmaReadExternal)
    (task : Task ctx.memory pointer size (front ++ command :: rest))
    (walkable : Walkable rt budget pointer.toNat (pointer.toNat + size.toNat) ctx.memory label
      effect front)
    (unknown : jumpLabel (halfAt (performed effect front ctx.memory).dmemByte command.slot.toNat) =
      none)
    (within : patience budget front + 16 < watchdogLimit) :
    ∃ after, aspMain rt ctx = (.unhandledJumpTarget, after) ∧
      Agree after.memory (performed effect front ctx.memory) := by
  have whole := task.whole
  have aligned := task.aligned
  obtain ⟨passes, first, count, few, goes, place, pending⟩ := task.starts scalars reads seeds
  obtain ⟨walked, last, count, bounded, walk, _, pending⟩ := pending.reaches scalars reads
    task.inside (by omega) (List.cons_ne_nil command rest) (Nat.le_of_eq (congrArg _ place.symm)) walkable
  exact ⟨dispatched rt last, (goes.trans walk).run_exit (pending.stops scalars unknown) (by omega),
    pending.agree⟩

end Run

end StadiumRecomp.Rsp
