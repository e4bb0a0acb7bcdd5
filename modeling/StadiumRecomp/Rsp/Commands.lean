import StadiumRecomp.Rsp.Dispatch

/-!
Contract: what the audio commands without vector arithmetic do to memory.

Owns: the fields of a command, the dispatch table of the microcode's data, the effect of each
operation on bytes, when an operation stays within the memories and off the command list, that
its blocks perform that effect, and so what a task of such commands does as a whole.

Does not own: the commands with vector arithmetic.
-/

set_option autoImplicit false

namespace StadiumRecomp.Rsp

open StadiumRecomp.Lib
open StadiumRecomp.Guest

variable {Vec : Type}

/-! ## Ranges of a memory -/

theorem hostIndex_hostIndex (addr : Nat) : hostIndex (hostIndex addr) = addr := by
  unfold hostIndex
  rw [Nat.xor_assoc, Nat.xor_self, Nat.xor_zero]

namespace Memory

/-- Other bytes from an address of DMEM on. -/
def withDmem (memory : Memory) (start len : Nat) (value : Nat → UInt8) : Memory :=
  { memory with dmem := fun index =>
      if start ≤ hostIndex index ∧ hostIndex index < start + len
      then value (hostIndex index - start) else memory.dmem index }

/-- Other bytes from an address of RDRAM on. -/
def withRdram (memory : Memory) (start len : Nat) (value : Nat → UInt8) : Memory :=
  { memory with rdram := fun index =>
      if start ≤ hostIndex index ∧ hostIndex index < start + len
      then value (hostIndex index - start) else memory.rdram index }

variable {memory : Memory} {start len : Nat} {value : Nat → UInt8}

theorem dmemByte_withDmem (addr : Nat) : (memory.withDmem start len value).dmemByte addr =
    if start ≤ addr ∧ addr < start + len then value (addr - start) else memory.dmemByte addr := by
  simp only [dmemByte, withDmem, hostIndex_hostIndex]

@[simp] theorem rdramByte_withDmem (addr : Nat) :
    (memory.withDmem start len value).rdramByte addr = memory.rdramByte addr := rfl

theorem rdramByte_withRdram (addr : Nat) : (memory.withRdram start len value).rdramByte addr =
    if start ≤ addr ∧ addr < start + len then value (addr - start) else memory.rdramByte addr := by
  simp only [rdramByte, withRdram, hostIndex_hostIndex]

end Memory

/-! ## Commands -/

namespace Command

def opcode (command : Command) : Nat := (command.w0 >>> 24 &&& 0x7F).toNat

/-- The low half of the first word: an offset from 0x4F0, or a length. -/
def low (command : Command) : Nat := (command.w0 &&& 0xFFFF).toNat

/-- The offset of a transfer. -/
def offset (command : Command) : Nat := (command.w0 &&& 0xFFF).toNat

/-- The length of a transfer. -/
def len (command : Command) : Nat := (command.w0 <<< 8 >>> 20).toNat

/-- The RDRAM address of a transfer. -/
def dram (command : Command) : Nat := (command.w1 <<< 8 >>> 8).toNat

/-- The length of a fill or a move. -/
def count (command : Command) : Nat := (command.w1 &&& 0xFFFF).toNat

/-- The offset a move goes to. -/
def target (command : Command) : Nat := (command.w1 >>> 16).toNat

/-- The flags of a volume command. -/
def flags (command : Command) : UInt32 := command.w0 >>> 16

end Command

/-- The blocks of 16 bytes that a loop over a length goes through. -/
def rounds (count : Nat) : Nat := max 1 ((count + 15) / 16)

/-- The commands whose blocks are embedded. -/
inductive Operation where
  | clearBuff
  | loadBuff
  | saveBuff
  | setVol
  | dmemMove
  | loadAdpcm
  | setLoop
deriving DecidableEq, Repr

namespace Operation

def opcode : Operation → Nat
  | .clearBuff => 2
  | .loadBuff => 4
  | .saveBuff => 6
  | .setVol => 9
  | .dmemMove => 10
  | .loadAdpcm => 11
  | .setLoop => 15

def label : Operation → Label
  | .clearBuff => .l119C
  | .loadBuff => .l11C8
  | .saveBuff => .l1208
  | .setVol => .l127C
  | .dmemMove => .l1348
  | .loadAdpcm => .l1248
  | .setLoop => .l1384

end Operation

/-- The dispatch table at the start of the microcode's data. -/
def dispatchTable : List UInt32 :=
  [0x10EC, 0x139C, 0x119C, 0x1A64, 0x11C8, 0x17EC, 0x1208, 0x0000,
   0x0000, 0x127C, 0x1348, 0x1248, 0x1C84, 0x12D4, 0x02B0, 0x1384]

/-- The table is in DMEM, but for the two slots that `L_1384` writes to. -/
def TableLoaded (memory : Memory) : Prop :=
  ∀ opcode, opcode < 16 → opcode ≠ 7 → opcode ≠ 8 →
    halfAt memory.dmemByte (2 * opcode) = dispatchTable.getD opcode 0

theorem even_and (value : Nat) : value &&& 0xFE = 2 * (value / 2 &&& 0x7F) := by
  refine Nat.eq_of_testBit_eq fun i => ?_
  cases i with
  | zero =>
      rw [Nat.testBit_and, Nat.testBit_zero (2 * _), Nat.mul_mod_right]
      exact Bool.and_false _
  | succ i =>
      rw [Nat.testBit_and, Nat.testBit_succ, Nat.testBit_succ, Nat.testBit_succ,
        Nat.mul_div_cancel_left _ (by decide), Nat.testBit_and]

theorem Command.slot_toNat (command : Command) : command.slot.toNat = 2 * command.opcode := by
  show (command.w0 >>> 23 &&& 0xFE).toNat = 2 * (command.w0 >>> 24 &&& 0x7F).toNat
  rw [UInt32.toNat_and, UInt32.toNat_and, UInt32.toNat_shiftRight, UInt32.toNat_shiftRight,
    Nat.shiftRight_eq_div_pow, Nat.shiftRight_eq_div_pow]
  show command.w0.toNat / 2 ^ 23 &&& 0xFE = 2 * (command.w0.toNat / 2 ^ 24 &&& 0x7F)
  rw [even_and, Nat.div_div_eq_div_mul]

/-- The table sends a command to the blocks of its operation. -/
theorem Operation.entered {memory : Memory} {command : Command} (operation : Operation)
    (table : TableLoaded memory) (same : command.opcode = operation.opcode) :
    Entered memory command operation.label := by
  have place : command.slot.toNat = 2 * operation.opcode := by
    rw [command.slot_toNat, same]
  constructor
  · rw [place, table _ (by cases operation <;> decide) (by cases operation <;> decide)
      (by cases operation <;> decide)]
    cases operation <;> decide
  · rw [place]
    unfold InTable
    cases operation <;> decide

/-! ## Effects -/

/-- A move in blocks of 16 bytes, each read after the blocks before it are written. -/
def moved (memory : Memory) (source target : Nat) : Nat → Memory
  | 0 => memory
  | rounds + 1 =>
      moved (memory.withDmem target 16 fun i => memory.dmemByte (source + i))
        (source + 16) (target + 16) rounds

/-- A half word and a word, in DMEM. -/
def withVolumes (half word : Nat) (command : Command) (memory : Memory) : Memory :=
  (memory.withDmem half 2 (bigEndian 2 command.w0)).withDmem word 4 (bigEndian 4 command.w1)

/-- The volume of a channel, or the target and the rate of its envelope. -/
def volumeSet (command : Command) : Memory → Memory :=
  if command.flags &&& 0x4 = 0 then withVolumes 0xFE0 0xFE2 command
  else if command.flags &&& 0x2 = 0 then withVolumes 0xFE6 0xFE8 command
  else withVolumes 0xFF0 0xFEC command

/-- What an operation does to the memories. -/
def meaning : Operation → Command → Memory → Memory
  | .clearBuff, command, memory =>
      memory.withDmem (command.low + 0x4F0) (16 * rounds command.count) fun _ => 0
  | .loadBuff, command, memory =>
      memory.withDmem (command.offset + 0x4F0) command.len fun i =>
        memory.rdramByte (command.dram + i)
  | .saveBuff, command, memory =>
      memory.withRdram command.dram command.len fun i =>
        memory.dmemByte (command.offset + 0x4F0 + i)
  | .setVol, command, memory => volumeSet command memory
  | .dmemMove, command, memory =>
      moved memory (command.low + 0x4F0) (command.target + 0x4F0) (rounds command.count)
  | .loadAdpcm, command, memory =>
      memory.withDmem 0x3F0 command.low fun i => memory.rdramByte (command.dram + i)
  | .setLoop, command, memory =>
      memory.withDmem 0xE 4 (bigEndian 4 (command.w1 <<< 8 >>> 8))

/-- An operation that stays in the memories, moves whole doublewords and does not write the
command list, which stands from `pointer` to `stop`. -/
def Fits (pointer stop : Nat) : Operation → Command → Prop
  | .clearBuff, command => command.low + 0x4F0 + 16 * rounds command.count ≤ 0x1000
  | .loadBuff, command =>
      command.offset % 8 = 0 ∧ command.dram % 8 = 0 ∧ command.len % 8 = 0 ∧
        command.offset + 0x4F0 + command.len ≤ 0x1000 ∧ command.dram + command.len ≤ 0x800000
  | .saveBuff, command =>
      command.offset % 8 = 0 ∧ command.dram % 8 = 0 ∧ command.len % 8 = 0 ∧
        command.offset + 0x4F0 + command.len ≤ 0x1000 ∧
        command.dram + command.len ≤ 0x800000 ∧
        (command.dram + command.len ≤ pointer ∨ stop ≤ command.dram)
  | .setVol, _ => True
  | .dmemMove, command =>
      command.low + 0x4F0 + 16 * rounds command.count ≤ 0x1000 ∧
        command.target + 0x4F0 + 16 * rounds command.count ≤ 0x1000
  | .loadAdpcm, command =>
      0 < command.low ∧ command.low % 8 = 0 ∧ command.dram % 8 = 0 ∧
        0x3F0 + command.low ≤ 0x1000 ∧ command.dram + command.low ≤ 0x800000
  | .setLoop, _ => True

instance (pointer stop : Nat) (operation : Operation) (command : Command) :
    Decidable (Fits pointer stop operation command) := by
  cases operation <;> unfold Fits <;> infer_instance

theorem dmemByte_moved {rounds : Nat} {memory : Memory} {source target addr : Nat}
    (apart : addr < target ∨ target + 16 * rounds ≤ addr) :
    (moved memory source target rounds).dmemByte addr = memory.dmemByte addr := by
  induction rounds generalizing memory source target with
  | zero => rfl
  | succ rounds inductionHypothesis =>
      rw [moved, inductionHypothesis (by omega), Memory.dmemByte_withDmem, if_neg (by omega)]

theorem rdramByte_moved {rounds : Nat} {memory : Memory} {source target addr : Nat} :
    (moved memory source target rounds).rdramByte addr = memory.rdramByte addr := by
  induction rounds generalizing memory source target with
  | zero => rfl
  | succ rounds inductionHypothesis => rw [moved, inductionHypothesis, Memory.rdramByte_withDmem]

theorem rdramByte_volumeSet (command : Command) (memory : Memory) (addr : Nat) :
    (volumeSet command memory).rdramByte addr = memory.rdramByte addr := by
  unfold volumeSet
  split
  · rfl
  · split <;> rfl

theorem dmemByte_withVolumes {half word addr : Nat} {command : Command} {memory : Memory}
    (belowHalf : addr < half) (belowWord : addr < word) :
    (withVolumes half word command memory).dmemByte addr = memory.dmemByte addr := by
  rw [withVolumes, Memory.dmemByte_withDmem, if_neg (by omega), Memory.dmemByte_withDmem,
    if_neg (by omega)]

/-- The volumes stand at the end of DMEM. -/
theorem dmemByte_volumeSet {command : Command} {memory : Memory} {addr : Nat}
    (apart : addr < 0xFE0) :
    (volumeSet command memory).dmemByte addr = memory.dmemByte addr := by
  unfold volumeSet
  split
  · exact dmemByte_withVolumes (by omega) (by omega)
  · split <;> exact dmemByte_withVolumes (by omega) (by omega)

/-- No operation touches the label table or, where it fits, the command list. -/
theorem Fits.lawful {pointer stop : Nat} {operation : Operation} {command : Command}
    (fits : Fits pointer stop operation command) :
    Lawful pointer stop (meaning operation command) := by
  constructor
  · intro memory addr inTable
    obtain ⟨small, apart⟩ := inTable
    cases operation with
    | clearBuff | loadBuff | loadAdpcm | setLoop =>
        rw [meaning, Memory.dmemByte_withDmem, if_neg (by omega)]
    | saveBuff => rfl
    | setVol => exact dmemByte_volumeSet (by omega)
    | dmemMove => exact dmemByte_moved (by omega)
  · intro memory addr low high
    cases operation with
    | saveBuff =>
        obtain ⟨-, -, -, -, -, apart⟩ := fits
        rw [meaning, Memory.rdramByte_withRdram, if_neg (by omega)]
    | setVol => exact rdramByte_volumeSet command memory addr
    | dmemMove => exact rdramByte_moved
    | clearBuff | loadBuff | loadAdpcm | setLoop => rfl

/-! ## Moves between the memories -/

/-- What a read from RDRAM to an address past the command buffer does. -/
theorem ReadsRdram.agree {dma : (mem dram len : UInt32) → Memory → Memory} (reads : ReadsRdram dma)
    (mem dram len : UInt32) {memory expected : Memory} (agree : Agree memory expected)
    (alignedMem : mem.toNat % 8 = 0) (alignedDram : dram.toNat % 8 = 0)
    (whole : (len.toNat + 1) % 8 = 0) (insideMem : mem.toNat + len.toNat < 0x1000)
    (insideDram : dram.toNat + len.toNat < 0x800000) (past : 0x3F0 ≤ mem.toNat) :
    Agree (dma mem dram len memory) (expected.withDmem mem.toNat (len.toNat + 1) fun i =>
        expected.rdramByte (dram.toNat + i)) ∧
      ∀ addr, InBuffer addr → (dma mem dram len memory).dmemByte addr = memory.dmemByte addr := by
  obtain ⟨dmem, rdram⟩ := reads mem dram len memory alignedMem alignedDram whole insideMem insideDram
  refine ⟨⟨fun addr => (rdram addr).trans (agree.rdram addr), fun addr inside apart => ?_⟩,
    fun addr buffer => ?_⟩
  · rw [dmem addr inside, Memory.dmemByte_withDmem]
    by_cases here : mem.toNat ≤ addr ∧ addr ≤ mem.toNat + len.toNat
    · rw [if_pos here, if_pos (by omega), agree.rdram]
    · rw [if_neg here, if_neg (by omega), agree.dmem addr inside apart]
  · obtain ⟨low, high⟩ := buffer
    rw [dmem addr (by omega), if_neg (by omega)]

/-- What a write to RDRAM from an address past the command buffer does. -/
theorem WritesRdram.agree {dma : (mem dram len : UInt32) → Memory → Memory}
    (writes : WritesRdram dma) (mem dram len : UInt32) {memory expected : Memory}
    (agree : Agree memory expected) (alignedMem : mem.toNat % 8 = 0)
    (alignedDram : dram.toNat % 8 = 0) (whole : (len.toNat + 1) % 8 = 0)
    (insideMem : mem.toNat + len.toNat < 0x1000) (insideDram : dram.toNat + len.toNat < 0x800000)
    (past : 0x3F0 ≤ mem.toNat) :
    Agree (dma mem dram len memory) (expected.withRdram dram.toNat (len.toNat + 1) fun i =>
        expected.dmemByte (mem.toNat + i)) ∧
      ∀ addr, InBuffer addr → (dma mem dram len memory).dmemByte addr = memory.dmemByte addr := by
  obtain ⟨dmem, rdram⟩ :=
    writes mem dram len memory alignedMem alignedDram whole insideMem insideDram
  refine ⟨⟨fun addr => ?_, fun addr inside apart =>
    (dmem addr inside).trans (agree.dmem addr inside apart)⟩, fun addr buffer => ?_⟩
  · rw [rdram addr, Memory.rdramByte_withRdram]
    by_cases here : dram.toNat ≤ addr ∧ addr ≤ dram.toNat + len.toNat
    · rw [if_pos here, if_pos (by omega)]
      refine agree.dmem _ (by omega) ?_
      unfold InBuffer
      omega
    · rw [if_neg here, if_neg (by omega), agree.rdram]
  · exact dmem addr (Nat.lt_trans buffer.2 (by decide))

/-! ## Stores -/

/-- What a store off the command buffer does. -/
theorem Stores.agree {store : (offset addr value : UInt32) → Memory → Memory} {width : Nat}
    (stores : Stores width store) (start : Nat) (offset addr value : UInt32)
    {memory expected : Memory} (agree : Agree memory expected)
    (place : (offset + addr).toNat = start)
    (inside : start + width ≤ 0x1000) (off : start + width ≤ 0x2B0 ∨ 0x3F0 ≤ start) :
    Agree (store offset addr value memory)
        (expected.withDmem start width (bigEndian width value)) ∧
      ∀ other, InBuffer other →
        (store offset addr value memory).dmemByte other = memory.dmemByte other := by
  obtain ⟨dmem, rdram⟩ := stores offset addr value memory (by omega)
  rw [place] at dmem
  refine ⟨⟨fun other => (rdram other).trans (agree.rdram other), fun other below apart => ?_⟩,
    fun other buffer => ?_⟩
  · rw [dmem other below, Memory.dmemByte_withDmem, agree.dmem other below apart]
  · obtain ⟨low, high⟩ := buffer
    rw [dmem other (by omega), if_neg (by omega)]

theorem bigEndian_high {value : UInt32} {i : Nat} (below : i < 2) :
    bigEndian 2 (value >>> 16) i = bigEndian 4 value i := by
  have shifted : value >>> 16 >>> 8 = value >>> 24 := by
    apply UInt32.toNat.inj
    simp only [UInt32.toNat_shiftRight]
    exact (Nat.shiftRight_add value.toNat 16 8).symm
  have kept : value >>> 16 >>> 0 = value >>> 16 := by
    apply UInt32.toNat.inj
    rw [UInt32.toNat_shiftRight]
    rfl
  have small : i = 0 ∨ i = 1 := by omega
  rcases small with rfl | rfl
  · exact congrArg UInt32.toUInt8 shifted
  · exact congrArg UInt32.toUInt8 kept

theorem bigEndian_low {value : UInt32} {i : Nat} (below : i < 2) :
    bigEndian 2 value i = bigEndian 4 value (2 + i) := by
  have small : i = 0 ∨ i = 1 := by omega
  rcases small with rfl | rfl <;> rfl

/-- The halves of a word, one after the other, are the word. -/
theorem withDmem_halves (memory : Memory) (start : Nat) (value : UInt32) :
    Agree ((memory.withDmem start 2 (bigEndian 2 (value >>> 16))).withDmem (start + 2) 2
      (bigEndian 2 value)) (memory.withDmem start 4 (bigEndian 4 value)) := by
  refine ⟨fun addr => rfl, fun addr _ _ => ?_⟩
  rw [Memory.dmemByte_withDmem, Memory.dmemByte_withDmem, Memory.dmemByte_withDmem]
  by_cases upper : start + 2 ≤ addr ∧ addr < start + 2 + 2
  · have place : 2 + (addr - (start + 2)) = addr - start := by omega
    rw [if_pos upper, if_pos (by omega), bigEndian_low (by omega), place]
  · rw [if_neg upper]
    by_cases lower : start ≤ addr ∧ addr < start + 2
    · rw [if_pos lower, if_pos (by omega), bigEndian_high (by omega)]
    · rw [if_neg lower, if_neg (by omega)]

/-- The three stores of a volume command. -/
theorem Scalars.volumes {rt : Runtime Vec} (scalars : Scalars rt) (half word : Nat)
    (first second third : UInt32) {command : Command} {ctx : Context Vec} {expected : Memory}
    (base : ctx.r24 = 0xFA0) (w0 : ctx.r26 = command.w0) (w1 : ctx.r25 = command.w1)
    (agree : Agree ctx.memory expected) (atHalf : (first + 0xFA0).toNat = half)
    (atHigh : (second + 0xFA0).toNat = word) (atLow : (third + 0xFA0).toNat = word + 2)
    (past : 0x3F0 ≤ half ∧ 0x3F0 ≤ word) (inside : half + 2 ≤ 0x1000 ∧ word + 4 ≤ 0x1000) :
    Agree (rt.memHStore third ctx.r24 ctx.r25 (rt.memHStore second ctx.r24 (ctx.r25 >>> 16)
        (rt.memHStore first ctx.r24 ctx.r26 ctx.memory)))
        (withVolumes half word command expected) ∧
      ∀ other, InBuffer other →
        (rt.memHStore third ctx.r24 ctx.r25 (rt.memHStore second ctx.r24 (ctx.r25 >>> 16)
          (rt.memHStore first ctx.r24 ctx.r26 ctx.memory))).dmemByte other =
            ctx.memory.dmemByte other := by
  rw [base, w0, w1]
  obtain ⟨agree, kept⟩ := scalars.storesHalf.agree half first 0xFA0 command.w0 agree atHalf inside.1
    (Or.inr past.1)
  obtain ⟨agree, kept'⟩ := scalars.storesHalf.agree word second 0xFA0 (command.w1 >>> 16) agree
    atHigh (by omega) (Or.inr past.2)
  obtain ⟨agree, kept''⟩ := scalars.storesHalf.agree (word + 2) third 0xFA0 command.w1 agree atLow
    (by omega) (by omega)
  refine ⟨agree.trans (withDmem_halves _ word command.w1), fun other buffer => ?_⟩
  rw [kept'' other buffer, kept' other buffer, kept other buffer]

/-! ## Vector moves -/

/-- What the vector instructions do: a vector is cleared by itself, and its first eight
bytes are stored to an address or loaded from one. -/
structure Vectors (rt : Runtime Vec) (bytes : Vec → Nat → UInt8) : Prop where
  cleared : ∀ (v : Vec) (i : Nat), i < 8 → bytes (rt.vxor v v) i = 0
  loaded : ∀ (addr : UInt32) (memory : Memory) (v : Vec) (i : Nat), addr.toNat + 7 < 0x1000 →
    i < 8 → bytes (rt.ldv addr memory v) i = memory.dmemByte (addr.toNat + i)
  stored : ∀ (v : Vec) (addr : UInt32) (memory : Memory), addr.toNat + 7 < 0x1000 →
    (∀ other, other < 0x1000 → (rt.sdv v addr memory).dmemByte other =
      if addr.toNat ≤ other ∧ other < addr.toNat + 8 then bytes v (other - addr.toNat)
      else memory.dmemByte other) ∧
    ∀ other, (rt.sdv v addr memory).rdramByte other = memory.rdramByte other

section Vectors

variable {rt : Runtime Vec} {bytes : Vec → Nat → UInt8}

/-- Two stores of eight bytes, past the command buffer. -/
theorem Vectors.agree (vectors : Vectors rt bytes) {first second : Vec} {addr : UInt32}
    {memory expected : Memory} (value : Nat → UInt8) (agree : Agree memory expected)
    (past : 0x3F0 ≤ addr.toNat) (inside : addr.toNat + 16 ≤ 0x1000)
    (low : ∀ i, i < 8 → bytes first i = value i)
    (high : ∀ i, i < 8 → bytes second i = value (8 + i)) :
    Agree (rt.sdv second (addr + 0x8) (rt.sdv first addr memory))
        (expected.withDmem addr.toNat 16 value) ∧
      ∀ other, InBuffer other →
        (rt.sdv second (addr + 0x8) (rt.sdv first addr memory)).dmemByte other =
          memory.dmemByte other := by
  have next : (addr + 0x8).toNat = addr.toNat + 8 :=
    toNat_add_of_lt (by rw [show (0x8 : UInt32).toNat = 8 from rfl]; omega)
  obtain ⟨dmem, rdram⟩ := vectors.stored first addr memory (by omega)
  obtain ⟨dmem', rdram'⟩ :=
    vectors.stored second (addr + 0x8) (rt.sdv first addr memory) (by omega)
  rw [next] at dmem'
  refine ⟨⟨fun other => ?_, fun other below apart => ?_⟩, fun other buffer => ?_⟩
  · rw [rdram', rdram, agree.rdram, Memory.rdramByte_withDmem]
  · rw [dmem' other below, dmem other below, Memory.dmemByte_withDmem]
    by_cases upper : addr.toNat + 8 ≤ other ∧ other < addr.toNat + 8 + 8
    · rw [if_pos upper, if_pos (by omega), high _ (by omega)]
      congr 1
      omega
    · rw [if_neg upper]
      by_cases lower : addr.toNat ≤ other ∧ other < addr.toNat + 8
      · rw [if_pos lower, if_pos (by omega), low _ (by omega)]
      · rw [if_neg lower, if_neg (by omega), agree.dmem other below apart]
  · obtain ⟨bottom, top⟩ := buffer
    rw [dmem' other (by omega), if_neg (by omega), dmem other (by omega), if_neg (by omega)]

/-- Whether a loop over a length goes on after a block. -/
theorem rounds_step (scalars : Scalars rt) {count : UInt32} {more : Nat}
    (short : count.toNat < 0x10000) (left : rounds count.toNat = more + 1) :
    (0 < rt.signed (count - 0x10) ↔ 0 < more) ∧
      (0 < more → (count - 0x10).toNat < 0x10000 ∧ rounds (count - 0x10).toNat = more) := by
  have sixteen : (0x10 : UInt32).toNat = 16 := rfl
  unfold rounds at left ⊢
  rw [scalars.pos, UInt32.toNat_sub]
  omega

/-- A filled block and a filled range after it are a filled range. -/
theorem filled_append (memory : Memory) (start first second : Nat) :
    Agree ((memory.withDmem start first fun _ => 0).withDmem (start + first) second fun _ => 0)
      (memory.withDmem start (first + second) fun _ => 0) := by
  refine ⟨fun addr => rfl, fun addr _ _ => ?_⟩
  rw [Memory.dmemByte_withDmem, Memory.dmemByte_withDmem, Memory.dmemByte_withDmem]
  by_cases upper : start + first ≤ addr ∧ addr < start + first + second
  · rw [if_pos upper, if_pos (by omega)]
  · rw [if_neg upper]
    by_cases lower : start ≤ addr ∧ addr < start + first
    · rw [if_pos lower, if_pos (by omega)]
    · rw [if_neg lower, if_neg (by omega)]

/-- What an operation's blocks leave when they come back to the command loop. -/
structure Returned (ctx : Context Vec) (expected : Memory) (after : Context Vec) : Prop where
  agree : Agree after.memory expected
  buffer : ∀ addr, InBuffer addr → after.memory.dmemByte addr = ctx.memory.dmemByte addr
  r24 : after.r24 = ctx.r24
  r27 : after.r27 = ctx.r27
  r28 : after.r28 = ctx.r28
  r29 : after.r29 = ctx.r29
  r30 : after.r30 = ctx.r30 - 0x8

/-- `L_11AC`: one block of 16 bytes a round. -/
theorem goes_clear (scalars : Scalars rt) (vectors : Vectors rt bytes) {more : Nat}
    (ctx : Context Vec) {expected : Memory} (agree : Agree ctx.memory expected)
    (zero : ∀ i, i < 8 → bytes ctx.v1 i = 0) (short : ctx.r2.toNat < 0x10000)
    (left : rounds ctx.r2.toNat = more + 1) (past : 0x3F0 ≤ ctx.r1.toNat)
    (inside : ctx.r1.toNat + 16 * (more + 1) ≤ 0x1000) :
    ∃ after, Goto.Goes (block rt) (more + 1) .l11AC ctx .l10EC after ∧
      Returned ctx (expected.withDmem ctx.r1.toNat (16 * (more + 1)) fun _ => 0) after := by
  induction more generalizing ctx expected with
  | zero =>
      obtain ⟨stored, buffer⟩ := vectors.agree (fun _ => 0) agree past inside zero zero
      have ended : ¬ 0 < rt.signed (ctx.r2 - 0x10) := by
        rw [(rounds_step scalars short left).1]
        exact Nat.lt_irrefl 0
      exact ⟨_, .single (if_neg ended), stored, buffer, rfl, rfl, rfl, rfl, rfl⟩
  | succ more inductionHypothesis =>
      obtain ⟨stored, buffer⟩ :=
        vectors.agree (fun _ => 0) agree past (by omega) zero zero
      obtain ⟨goesOn, remaining⟩ := rounds_step scalars short left
      obtain ⟨short', left'⟩ := remaining (Nat.succ_pos more)
      have next : (ctx.r1 + 0x10).toNat = ctx.r1.toNat + 16 :=
        toNat_add_of_lt (by rw [show (0x10 : UInt32).toNat = 16 from rfl]; omega)
      let ctx' : Context Vec := { ctx with
        memory := rt.sdv ctx.v1 (ctx.r1 + 0x8) (rt.sdv ctx.v1 ctx.r1 ctx.memory)
        r2 := ctx.r2 - 0x10
        r1 := ctx.r1 + 0x10 }
      have leaves : block rt .l11AC ctx = .goto .l11AC ctx' :=
        if_pos (goesOn.mpr (Nat.succ_pos more))
      obtain ⟨after, goes, returned⟩ := inductionHypothesis ctx' stored zero short' left'
        (show 0x3F0 ≤ (ctx.r1 + 0x10).toNat by omega)
        (show (ctx.r1 + 0x10).toNat + 16 * (more + 1) ≤ 0x1000 by omega)
      refine ⟨after, .block leaves goes, ?_, fun addr inBuffer =>
        (returned.buffer addr inBuffer).trans (buffer addr inBuffer), returned.r24, returned.r27,
        returned.r28, returned.r29, returned.r30⟩
      have appended := filled_append expected ctx.r1.toNat 16 (16 * (more + 1))
      have place : ctx'.r1.toNat = ctx.r1.toNat + 16 := next
      have long : 16 * (more + 1 + 1) = 16 + 16 * (more + 1) := by omega
      rw [long]
      exact returned.agree.trans (place ▸ appended)

/-- One block of 16 bytes, read before it is written. -/
theorem Vectors.moves (vectors : Vectors rt bytes) {source target : UInt32} (v1 v2 : Vec)
    {memory expected : Memory} (agree : Agree memory expected) (pastSource : 0x3F0 ≤ source.toNat)
    (insideSource : source.toNat + 16 ≤ 0x1000) (pastTarget : 0x3F0 ≤ target.toNat)
    (insideTarget : target.toNat + 16 ≤ 0x1000) :
    Agree (rt.sdv (rt.ldv (source + 0x8) memory v2) (target + 0x8)
        (rt.sdv (rt.ldv source memory v1) target memory))
        (expected.withDmem target.toNat 16 fun i => expected.dmemByte (source.toNat + i)) ∧
      ∀ other, InBuffer other →
        (rt.sdv (rt.ldv (source + 0x8) memory v2) (target + 0x8)
          (rt.sdv (rt.ldv source memory v1) target memory)).dmemByte other =
            memory.dmemByte other := by
  have second : (source + 0x8).toNat = source.toNat + 8 :=
    toNat_add_of_lt (by rw [show (0x8 : UInt32).toNat = 8 from rfl]; omega)
  have read : ∀ i, i < 16 → memory.dmemByte (source.toNat + i) =
      expected.dmemByte (source.toNat + i) := by
    intro i below
    refine agree.dmem _ (by omega) ?_
    unfold InBuffer
    omega
  refine vectors.agree _ agree pastTarget insideTarget (fun i below => ?_) (fun i below => ?_)
  · rw [vectors.loaded _ _ _ _ (by omega) below, read i (by omega)]
  · rw [vectors.loaded _ _ _ _ (by omega) below, second, Nat.add_assoc, read _ (by omega)]

/-- `L_135C`: one block of 16 bytes a round. -/
theorem goes_move (scalars : Scalars rt) (vectors : Vectors rt bytes) {more : Nat}
    (ctx : Context Vec) {expected : Memory} (agree : Agree ctx.memory expected)
    (short : ctx.r1.toNat < 0x10000)
    (left : rounds ctx.r1.toNat = more + 1) (pastSource : 0x3F0 ≤ ctx.r2.toNat)
    (insideSource : ctx.r2.toNat + 16 * (more + 1) ≤ 0x1000) (pastTarget : 0x3F0 ≤ ctx.r3.toNat)
    (insideTarget : ctx.r3.toNat + 16 * (more + 1) ≤ 0x1000) :
    ∃ after, Goto.Goes (block rt) (more + 1) .l135C ctx .l10EC after ∧
      Returned ctx (moved expected ctx.r2.toNat ctx.r3.toNat (more + 1)) after := by
  induction more generalizing ctx expected with
  | zero =>
      obtain ⟨stored, buffer⟩ := vectors.moves ctx.v1 ctx.v2 agree pastSource
        insideSource pastTarget insideTarget
      have ended : ¬ 0 < rt.signed (ctx.r1 - 0x10) := by
        rw [(rounds_step scalars short left).1]
        exact Nat.lt_irrefl 0
      exact ⟨_, .single (if_neg ended), stored, buffer, rfl, rfl, rfl, rfl, rfl⟩
  | succ more inductionHypothesis =>
      have sixteen : (0x10 : UInt32).toNat = 16 := rfl
      obtain ⟨stored, buffer⟩ := vectors.moves ctx.v1 ctx.v2 agree pastSource
        (by omega) pastTarget (by omega)
      obtain ⟨goesOn, remaining⟩ := rounds_step scalars short left
      obtain ⟨short', left'⟩ := remaining (Nat.succ_pos more)
      have source : (ctx.r2 + 0x10).toNat = ctx.r2.toNat + 16 := toNat_add_of_lt (by omega)
      have target : (ctx.r3 + 0x10).toNat = ctx.r3.toNat + 16 := toNat_add_of_lt (by omega)
      let ctx' : Context Vec := { ctx with
        v1 := rt.ldv ctx.r2 ctx.memory ctx.v1
        v2 := rt.ldv (ctx.r2 + 0x8) ctx.memory ctx.v2
        r1 := ctx.r1 - 0x10
        r2 := ctx.r2 + 0x10
        memory := rt.sdv (rt.ldv (ctx.r2 + 0x8) ctx.memory ctx.v2) (ctx.r3 + 0x8)
          (rt.sdv (rt.ldv ctx.r2 ctx.memory ctx.v1) ctx.r3 ctx.memory)
        r3 := ctx.r3 + 0x10 }
      have leaves : block rt .l135C ctx = .goto .l135C ctx' :=
        if_pos (goesOn.mpr (Nat.succ_pos more))
      obtain ⟨after, goes, returned⟩ := inductionHypothesis ctx' stored short' left'
        (show 0x3F0 ≤ (ctx.r2 + 0x10).toNat by omega)
        (show (ctx.r2 + 0x10).toNat + 16 * (more + 1) ≤ 0x1000 by omega)
        (show 0x3F0 ≤ (ctx.r3 + 0x10).toNat by omega)
        (show (ctx.r3 + 0x10).toNat + 16 * (more + 1) ≤ 0x1000 by omega)
      have agrees : Agree after.memory (moved (expected.withDmem ctx.r3.toNat 16 fun i =>
          expected.dmemByte (ctx.r2.toNat + i)) (ctx.r2 + 0x10).toNat (ctx.r3 + 0x10).toNat
            (more + 1)) := returned.agree
      rw [source, target] at agrees
      exact ⟨after, .block leaves goes, agrees, fun addr inBuffer =>
        (returned.buffer addr inBuffer).trans (buffer addr inBuffer), returned.r24, returned.r27,
        returned.r28, returned.r29, returned.r30⟩

end Vectors

/-! ## The blocks of an operation -/

theorem Command.low_lt (command : Command) : command.low < 0x10000 := by
  unfold Command.low
  rw [UInt32.toNat_and]
  exact Nat.and_lt_two_pow _ (n := 16) (by decide)

theorem Command.offset_lt (command : Command) : command.offset < 0x1000 := by
  unfold Command.offset
  rw [UInt32.toNat_and]
  exact Nat.and_lt_two_pow _ (n := 12) (by decide)

theorem Command.count_lt (command : Command) : command.count < 0x10000 := by
  unfold Command.count
  rw [UInt32.toNat_and]
  exact Nat.and_lt_two_pow _ (n := 16) (by decide)

theorem Command.target_lt (command : Command) : command.target < 0x10000 := by
  unfold Command.target
  rw [UInt32.toNat_shiftRight, Nat.shiftRight_eq_div_pow]
  exact Nat.div_lt_of_lt_mul command.w1.toNat_lt

/-- The labels an operation passes. -/
def Operation.budget : Operation → Command → Nat
  | .clearBuff, command => rounds command.count + 1
  | .dmemMove, command => rounds command.count + 1
  | _, _ => 7

/-- Where the base offset of the audio buffers is added. -/
theorem toNat_add_base {value : UInt32} (small : value.toNat < 0x10000) :
    (value + 0x4F0).toNat = value.toNat + 0x4F0 :=
  toNat_add_of_lt (by rw [show (0x4F0 : UInt32).toNat = 0x4F0 from rfl]; omega)

section Blocks

variable {rt : Runtime Vec} {bytes : Vec → Nat → UInt8} {pointer stop : Nat} {command : Command}

theorem performs_clearBuff (scalars : Scalars rt) (vectors : Vectors rt bytes)
    (fits : Fits pointer stop .clearBuff command) :
    Performs rt (Operation.clearBuff.budget command) command .l119C
      (meaning .clearBuff command) := by
  intro ctx expected base w0 w1 agree
  obtain ⟨more, some⟩ : ∃ more, rounds command.count = more + 1 :=
    Nat.exists_eq_succ_of_ne_zero (by unfold rounds; omega)
  have inside : command.low + 0x4F0 + 16 * rounds command.count ≤ 0x1000 := fits
  have low : ((command.w0 &&& 0xFFFF) + 0x4F0).toNat = command.low + 0x4F0 :=
    toNat_add_base command.low_lt
  obtain ⟨after, goes, returned⟩ := goes_clear scalars vectors
    { ctx with
      r2 := command.w1 &&& 0xFFFF
      v1 := rt.vxor ctx.v1 ctx.v1
      r1 := (command.w0 &&& 0xFFFF) + 0x4F0 } agree (vectors.cleared ctx.v1) command.count_lt some
    (by show 0x3F0 ≤ ((command.w0 &&& 0xFFFF) + 0x4F0).toNat; omega)
    (by show ((command.w0 &&& 0xFFFF) + 0x4F0).toNat + _ ≤ _; omega)
  have agrees : Agree after.memory (expected.withDmem
      ((command.w0 &&& 0xFFFF) + 0x4F0).toNat (16 * (more + 1)) fun _ => 0) := returned.agree
  rw [low, ← some] at agrees
  refine ⟨more + 1 + 1, after, Nat.le_of_eq (congrArg Nat.succ some.symm), .block ?_ goes, agrees,
    returned.buffer, returned.r24, returned.r27, returned.r28, returned.r29, returned.r30⟩
  rw [← w0, ← w1]
  rfl

/-- `L_1348` and a round of `L_135C` for each block. -/
theorem goes_dmemMove (scalars : Scalars rt) (vectors : Vectors rt bytes)
    (fits : Fits pointer stop .dmemMove command) (ctx : Context Vec) {expected : Memory}
    (w0 : ctx.r26 = command.w0) (w1 : ctx.r25 = command.w1) (agree : Agree ctx.memory expected) :
    ∃ after, Goto.Goes (block rt) (rounds command.count + 1) .l1348 ctx .l10EC after ∧
      Returned ctx (meaning .dmemMove command expected) after := by
  obtain ⟨more, some⟩ : ∃ more, rounds command.count = more + 1 :=
    Nat.exists_eq_succ_of_ne_zero (by unfold rounds; omega)
  have inside : command.low + 0x4F0 + 16 * rounds command.count ≤ 0x1000 ∧
      command.target + 0x4F0 + 16 * rounds command.count ≤ 0x1000 := fits
  have low : ((command.w0 &&& 0xFFFF) + 0x4F0).toNat = command.low + 0x4F0 :=
    toNat_add_base command.low_lt
  have high : ((command.w1 >>> 16) + 0x4F0).toNat = command.target + 0x4F0 :=
    toNat_add_base command.target_lt
  obtain ⟨after, goes, returned⟩ := goes_move scalars vectors
    { ctx with
      r1 := command.w1 &&& 0xFFFF
      r2 := (command.w0 &&& 0xFFFF) + 0x4F0
      r3 := (command.w1 >>> 16) + 0x4F0 } agree command.count_lt some
    (by show 0x3F0 ≤ ((command.w0 &&& 0xFFFF) + 0x4F0).toNat; omega)
    (by show ((command.w0 &&& 0xFFFF) + 0x4F0).toNat + _ ≤ _; omega)
    (by show 0x3F0 ≤ ((command.w1 >>> 16) + 0x4F0).toNat; omega)
    (by show ((command.w1 >>> 16) + 0x4F0).toNat + _ ≤ _; omega)
  have agrees : Agree after.memory (moved expected ((command.w0 &&& 0xFFFF) + 0x4F0).toNat
      ((command.w1 >>> 16) + 0x4F0).toNat (more + 1)) := returned.agree
  rw [low, high, ← some] at agrees
  rw [some]
  refine ⟨after, .block ?_ goes, agrees, returned.buffer, returned.r24, returned.r27,
    returned.r28, returned.r29, returned.r30⟩
  rw [← w0, ← w1]
  rfl

theorem performs_dmemMove (scalars : Scalars rt) (vectors : Vectors rt bytes)
    (fits : Fits pointer stop .dmemMove command) :
    Performs rt (Operation.dmemMove.budget command) command .l1348 (meaning .dmemMove command) := by
  intro ctx expected base w0 w1 agree
  obtain ⟨after, goes, returned⟩ := goes_dmemMove scalars vectors fits ctx w0 w1 agree
  exact ⟨_, after, Nat.le_refl _, goes, returned.agree, returned.buffer, returned.r24,
    returned.r27, returned.r28, returned.r29, returned.r30⟩

/-- The address of a transfer in RDRAM. -/
theorem dram_eq (command : Command) : ((command.w1 <<< 8 >>> 8) + 0x0).toNat = command.dram :=
  congrArg UInt32.toNat (UInt32.add_zero _)

/-- The length register of a transfer. -/
theorem len_eq {len : UInt32} (some : len ≠ 0) : (len - 0x1).toNat + 1 = len.toNat := by
  have one : (0x1 : UInt32).toNat = 1 := rfl
  have positive : 0 < len.toNat :=
    Nat.pos_of_ne_zero fun none => some (UInt32.toNat.inj none)
  rw [toNat_sub_of_le (by omega), one]
  omega

theorem performs_loadBuff (reads : ReadsRdram rt.dmaRead)
    (fits : Fits pointer stop .loadBuff command) :
    Performs rt (Operation.loadBuff.budget command) command .l11C8
      (meaning .loadBuff command) := by
  intro ctx expected base w0 w1 agree
  obtain ⟨alignedMem, alignedDram, whole, insideMem, insideDram⟩ := fits
  have len : (command.w0 <<< 8 >>> 20).toNat = command.len := rfl
  by_cases none : command.w0 <<< 8 >>> 20 = 0
  · -- an empty transfer leaves the memories
    have empty : command.len = 0 := congrArg UInt32.toNat none
    refine ⟨1, _, show 1 ≤ 7 by decide, .single (if_pos ?_), ?_, fun _ _ => rfl,
      rfl, rfl, rfl, rfl, rfl⟩
    · rw [w0]
      exact none
    · refine agree.trans ⟨fun _ => rfl, fun addr _ _ => ?_⟩
      rw [meaning, Memory.dmemByte_withDmem, if_neg (by omega)]
  · have mem : ((command.w0 &&& 0xFFF) + 0x4F0).toNat = command.offset + 0x4F0 :=
      toNat_add_base (Nat.lt_trans command.offset_lt (by decide))
    have short := len_eq none
    obtain ⟨moves, buffer⟩ := reads.agree ((command.w0 &&& 0xFFF) + 0x4F0)
      ((command.w1 <<< 8 >>> 8) + 0x0) ((command.w0 <<< 8 >>> 20) - 0x1) agree
      (by omega) (by rw [dram_eq]; exact alignedDram) (by omega) (by omega)
      (by rw [dram_eq]; omega) (by omega)
    rw [mem, short, dram_eq] at moves
    have transfer := goes_dmaRead rt { ctx with
      r1 := (command.w0 &&& 0xFFF) + 0x4F0
      r2 := (command.w1 <<< 8 >>> 8) + 0x0
      r3 := (command.w0 <<< 8 >>> 20) - 0x1
      r30 := ctx.r30 - 0x8
      r31 := 0x11F4 } (show jumpLabel 0x11F4 = some .l11F4 by decide)
    refine ⟨6, _, show 6 ≤ 7 by decide,
      .block ?_ (transfer.trans (.block rfl (.single rfl))), moves, buffer, rfl, rfl, rfl, rfl, rfl⟩
    rw [← w0, ← w1]
    exact if_neg (w0 ▸ none)

theorem performs_saveBuff (writes : WritesRdram rt.dmaWrite)
    (fits : Fits pointer stop .saveBuff command) :
    Performs rt (Operation.saveBuff.budget command) command .l1208
      (meaning .saveBuff command) := by
  intro ctx expected base w0 w1 agree
  obtain ⟨alignedMem, alignedDram, whole, insideMem, insideDram, -⟩ := fits
  have len : (command.w0 <<< 8 >>> 20).toNat = command.len := rfl
  by_cases none : command.w0 <<< 8 >>> 20 = 0
  · have empty : command.len = 0 := congrArg UInt32.toNat none
    refine ⟨1, _, show 1 ≤ 7 by decide, .single (if_pos ?_), ?_, fun _ _ => rfl,
      rfl, rfl, rfl, rfl, rfl⟩
    · rw [w0]
      exact none
    · refine agree.trans ⟨fun addr => ?_, fun addr _ _ => rfl⟩
      rw [meaning, Memory.rdramByte_withRdram, if_neg (by omega)]
  · have mem : ((command.w0 &&& 0xFFF) + 0x4F0).toNat = command.offset + 0x4F0 :=
      toNat_add_base (Nat.lt_trans command.offset_lt (by decide))
    have short := len_eq none
    obtain ⟨moves, buffer⟩ := writes.agree ((command.w0 &&& 0xFFF) + 0x4F0)
      ((command.w1 <<< 8 >>> 8) + 0x0) ((command.w0 <<< 8 >>> 20) - 0x1) agree
      (by omega) (by rw [dram_eq]; exact alignedDram) (by omega) (by omega)
      (by rw [dram_eq]; omega) (by omega)
    rw [mem, short, dram_eq] at moves
    have transfer := goes_dmaWrite rt { ctx with
      r1 := (command.w0 &&& 0xFFF) + 0x4F0
      r2 := (command.w1 <<< 8 >>> 8) + 0x0
      r3 := (command.w0 <<< 8 >>> 20) - 0x1
      r30 := ctx.r30 - 0x8
      r31 := 0x1234 } (show jumpLabel 0x1234 = some .l1234 by decide)
    refine ⟨6, _, show 6 ≤ 7 by decide,
      .block ?_ (transfer.trans (.block rfl (.single rfl))), moves, buffer, rfl, rfl, rfl, rfl, rfl⟩
    rw [← w0, ← w1]
    exact if_neg (w0 ▸ none)

theorem performs_loadAdpcm (reads : ReadsRdram rt.dmaRead)
    (fits : Fits pointer stop .loadAdpcm command) :
    Performs rt (Operation.loadAdpcm.budget command) command .l1248
      (meaning .loadAdpcm command) := by
  intro ctx expected base w0 w1 agree
  obtain ⟨positive, whole, alignedDram, insideMem, insideDram⟩ := fits
  have low : (command.w0 &&& 0xFFFF).toNat = command.low := rfl
  have table : (0x3F0 : UInt32).toNat = 0x3F0 := rfl
  have nonzero : command.w0 &&& 0xFFFF ≠ 0 := fun none => by
    have empty : command.low = 0 := congrArg UInt32.toNat none
    omega
  have short := len_eq nonzero
  obtain ⟨moves, buffer⟩ := reads.agree 0x3F0
    ((command.w1 <<< 8 >>> 8) + 0x0) ((command.w0 &&& 0xFFFF) - 0x1) agree
    (by decide) (by rw [dram_eq]; exact alignedDram) (by omega) (by omega)
    (by rw [dram_eq]; omega) (by decide)
  rw [table, short, dram_eq] at moves
  have transfer := goes_dmaRead rt { ctx with
    r1 := 0x3F0
    r2 := (command.w1 <<< 8 >>> 8) + 0x0
    r3 := (command.w0 &&& 0xFFFF) - 0x1
    r31 := 0x1264 } (show jumpLabel 0x1264 = some .l1264 by decide)
  refine ⟨6, _, show 6 ≤ 7 by decide,
    .block ?_ (transfer.trans (.block rfl (.single rfl))), moves, buffer, rfl, rfl, rfl, rfl, rfl⟩
  rw [← w0, ← w1]
  rfl

theorem performs_setVol (scalars : Scalars rt) :
    Performs rt (Operation.setVol.budget command) command .l127C (meaning .setVol command) := by
  intro ctx expected base w0 w1 agree
  have flags : ctx.r26 >>> 16 = command.flags := by
    rw [w0]
    rfl
  rw [show meaning .setVol command = volumeSet command from rfl, volumeSet]
  by_cases volume : command.flags &&& 0x4 = 0
  · obtain ⟨stored, buffer⟩ := scalars.volumes 0xFE0 0xFE2 0x40 0x42 0x44
      base w0 w1 agree rfl rfl rfl (by decide) (by decide)
    rw [if_pos volume]
    exact ⟨2, _, show 2 ≤ 7 by decide, .block (if_pos (flags ▸ volume)) (.single rfl), stored,
      buffer, rfl, rfl, rfl, rfl, rfl⟩
  · have leaves : block rt .l127C ctx =
        if ctx.r26 >>> 16 &&& 0x2 = 0 then .goto .l12A8 { ctx with
          r3 := ctx.r26 >>> 16, r1 := ctx.r26 >>> 16 &&& 0x2, r2 := ctx.r25 >>> 16 }
        else .goto .l10EC { ctx with
          r3 := ctx.r26 >>> 16, r1 := ctx.r26 >>> 16 &&& 0x2, r2 := ctx.r25 >>> 16
          memory := rt.memHStore 0x4E ctx.r24 ctx.r25 (rt.memHStore 0x4C ctx.r24 (ctx.r25 >>> 16)
            (rt.memHStore 0x50 ctx.r24 ctx.r26 ctx.memory))
          r30 := ctx.r30 - 0x8 } := if_neg (flags ▸ volume)
    rw [if_neg volume]
    by_cases target : command.flags &&& 0x2 = 0
    · obtain ⟨stored, buffer⟩ := scalars.volumes 0xFE6 0xFE8 0x46 0x48 0x4A
        base w0 w1 agree rfl rfl rfl (by decide) (by decide)
      rw [if_pos target]
      exact ⟨3, _, show 3 ≤ 7 by decide,
        .block (leaves.trans (if_pos (flags ▸ target))) (.block rfl (.single rfl)), stored, buffer,
        rfl, rfl, rfl, rfl, rfl⟩
    · obtain ⟨stored, buffer⟩ := scalars.volumes 0xFF0 0xFEC 0x50 0x4C 0x4E
        base w0 w1 agree rfl rfl rfl (by decide) (by decide)
      rw [if_neg target]
      exact ⟨1, _, show 1 ≤ 7 by decide, .single (leaves.trans (if_neg (flags ▸ target))), stored,
        buffer, rfl, rfl, rfl, rfl, rfl⟩

theorem performs_setLoop (scalars : Scalars rt) :
    Performs rt (Operation.setLoop.budget command) command .l1384 (meaning .setLoop command) := by
  intro ctx expected base w0 w1 agree
  have pointer : (ctx.r25 <<< 8 >>> 8) + (0x0 : UInt32) = command.w1 <<< 8 >>> 8 := by
    rw [w1, UInt32.add_zero]
  obtain ⟨stored, buffer⟩ := scalars.storesWord.agree 0xE 0xE 0
    ((ctx.r25 <<< 8 >>> 8) + 0x0) agree rfl (by decide) (by decide)
  exact ⟨1, _, show 1 ≤ 7 by decide, .single rfl, pointer ▸ stored, buffer,
    rfl, rfl, rfl, rfl, rfl⟩

/-- What the operations take from elsewhere. -/
structure Moves (rt : Runtime Vec) (bytes : Vec → Nat → UInt8) : Prop where
  scalars : Scalars rt
  reads : ReadsRdram rt.dmaRead
  seeds : ReadsRdram rt.dmaReadExternal
  writes : WritesRdram rt.dmaWrite
  vectors : Vectors rt bytes

/-- The blocks of an operation that fits do what it means. -/
theorem Operation.performs {operation : Operation} (moves : Moves rt bytes)
    (fits : Fits pointer stop operation command) :
    Performs rt (operation.budget command) command operation.label (meaning operation command) := by
  cases operation with
  | clearBuff => exact performs_clearBuff moves.scalars moves.vectors fits
  | loadBuff => exact performs_loadBuff moves.reads fits
  | saveBuff => exact performs_saveBuff moves.writes fits
  | setVol => exact performs_setVol moves.scalars
  | dmemMove => exact performs_dmemMove moves.scalars moves.vectors fits
  | loadAdpcm => exact performs_loadAdpcm moves.reads fits
  | setLoop => exact performs_setLoop moves.scalars

end Blocks

/-! ## A runtime -/

/-- A runtime whose loads, stores, DMA and vector moves work on bytes, without blocks of its
own. -/
def byteRuntime : Runtime (Nat → UInt8) where
  signed value := value.toInt32.toInt
  memWLoad offset addr memory := wordAt memory.dmemByte (offset + addr).toNat
  memHLoad offset addr memory := halfAt memory.dmemByte (offset + addr).toNat
  memHStore offset addr value memory :=
    memory.withDmem (offset + addr).toNat 2 (bigEndian 2 value)
  memWStore offset addr value memory :=
    memory.withDmem (offset + addr).toNat 4 (bigEndian 4 value)
  dmaRead mem dram len memory :=
    memory.withDmem mem.toNat (len.toNat + 1) fun i => memory.rdramByte (dram.toNat + i)
  dmaReadExternal mem dram len memory :=
    memory.withDmem mem.toNat (len.toNat + 1) fun i => memory.rdramByte (dram.toNat + i)
  dmaWrite mem dram len memory :=
    memory.withRdram dram.toNat (len.toNat + 1) fun i => memory.dmemByte (mem.toNat + i)
  vxor left right i := left i ^^^ right i
  ldv addr memory v i := if i < 8 then memory.dmemByte (addr.toNat + i) else v i
  sdv v addr memory := memory.withDmem addr.toNat 8 v
  outside _ ctx := (0, .exit .broke ctx)

theorem byteRuntime_reads : ReadsRdram byteRuntime.dmaRead := by
  intro mem dram len memory _ _ _ _ _
  refine ⟨fun addr _ => ?_, fun addr => rfl⟩
  simp only [byteRuntime, Memory.dmemByte_withDmem]
  by_cases here : mem.toNat ≤ addr ∧ addr ≤ mem.toNat + len.toNat
  · rw [if_pos here, if_pos (by omega)]
  · rw [if_neg here, if_neg (by omega)]

theorem byteRuntime_writes : WritesRdram byteRuntime.dmaWrite := by
  intro mem dram len memory _ _ _ _ _
  refine ⟨fun addr _ => rfl, fun addr => ?_⟩
  simp only [byteRuntime, Memory.rdramByte_withRdram]
  by_cases here : dram.toNat ≤ addr ∧ addr ≤ dram.toNat + len.toNat
  · rw [if_pos here, if_pos (by omega)]
  · rw [if_neg here, if_neg (by omega)]

/-- The hypotheses on a runtime hold of this one. -/
theorem byteRuntime_moves : Moves byteRuntime fun v i => v i where
  scalars :=
    { signed := fun _ => rfl
      word := fun _ _ _ _ => rfl
      half := fun _ _ _ _ => rfl
      storesHalf := fun _ _ _ _ _ =>
        ⟨fun other _ => Memory.dmemByte_withDmem other, fun _ => rfl⟩
      storesWord := fun _ _ _ _ _ =>
        ⟨fun other _ => Memory.dmemByte_withDmem other, fun _ => rfl⟩ }
  reads := byteRuntime_reads
  seeds := byteRuntime_reads
  writes := byteRuntime_writes
  vectors :=
    { cleared := fun _ _ _ => UInt8.xor_self
      loaded := fun _ _ _ _ _ below => if_pos below
      stored := fun _ _ _ _ =>
        ⟨fun other _ => Memory.dmemByte_withDmem other, fun _ => rfl⟩ }

/-! ## A task of embedded commands -/

section Tasks

variable {rt : Runtime Vec} {bytes : Vec → Nat → UInt8} {ctx : Context Vec} {pointer size : UInt32}
  {operation : Command → Operation}

/-- Commands that the table sends to blocks whose effect is known. -/
structure Plain (operation : Command → Operation) (pointer stop : Nat)
    (commands : List Command) : Prop where
  named : ∀ command ∈ commands, command.opcode = (operation command).opcode
  fits : ∀ command ∈ commands, Fits pointer stop (operation command) command

theorem Plain.walkable {memory : Memory} {stop start : Nat} {commands : List Command}
    (plain : Plain operation start stop commands) (moves : Moves rt bytes)
    (table : TableLoaded memory) :
    Walkable rt (fun command => (operation command).budget command) start stop memory
      (fun command => (operation command).label)
      (fun command => meaning (operation command) command) commands where
  entered command member := (operation command).entered table (plain.named command member)
  performs command member := Operation.performs moves (plain.fits command member)
  lawful command member := (plain.fits command member).lawful

/-- **What a task of buffer commands does**: each of its commands in turn, on whole memories,
however the list is cut into chunks and whatever registers the last task has left. -/
theorem aspMain_meaning (moves : Moves rt bytes) {commands : List Command}
    (task : Task ctx.memory pointer size commands) (table : TableLoaded ctx.memory)
    (plain : Plain operation pointer.toNat (pointer.toNat + size.toNat) commands)
    (within : patience (fun command => (operation command).budget command) commands + 16 <
      watchdogLimit) :
    ∃ after, aspMain rt ctx = (.broke, after) ∧
      Agree after.memory (performed (fun command => meaning (operation command) command) commands
        ctx.memory) :=
  task.performs moves.scalars moves.reads moves.seeds (plain.walkable moves table) within

/-- A task that saves, clears and moves a buffer. -/
def bufferTask : List Command := [⟨0x06010000, 0x00002000⟩, ⟨0x02000000, 0x00000020⟩,
  ⟨0x0A000000, 0x00200020⟩, ⟨0x0F000000, 0x00003000⟩]

/-- The operation of an opcode. -/
def operationOf (command : Command) : Operation :=
  match command.opcode with
  | 2 => .clearBuff
  | 4 => .loadBuff
  | 6 => .saveBuff
  | 10 => .dmemMove
  | 11 => .loadAdpcm
  | 15 => .setLoop
  | _ => .setVol

/-- The memories of a task with a list at 0x1000. -/
def taskMemory (commands : List Command) : Memory :=
  let word : UInt32 → Bytes := fun value =>
    [(value >>> 24).toUInt8, (value >>> 16).toUInt8, (value >>> 8).toUInt8, value.toUInt8]
  let list : Bytes := commands.flatMap fun command => word command.w0 ++ word command.w1
  let table : Bytes := dispatchTable.flatMap fun label => (word label).drop 2
  let header : Bytes := word 0x1000 ++ word (UInt32.ofNat list.length)
  (((⟨fun _ => 0, fun _ => 0⟩ : Memory).withRdram 0x1000 list.length fun i =>
    list.getD i 0).withDmem 0 32 fun i => table.getD i 0).withDmem 0xFF0 8 fun i => header.getD i 0

def taskContext (commands : List Command) : Context (Nat → UInt8) where
  r1 := 0
  r2 := 0
  r3 := 0
  r4 := 0
  r5 := 0
  r8 := 0
  r24 := 0
  r25 := 0
  r26 := 0
  r27 := 0
  r28 := 0
  r29 := 0
  r30 := 0
  r31 := 0
  dmaMemAddress := 0
  dmaDramAddress := 0
  jumpTarget := 0
  v1 := fun _ => 0
  v2 := fun _ => 0
  memory := taskMemory commands

theorem bufferTask_task : Task (taskMemory bufferTask) 0x1000 32 bufferTask := by
  refine ⟨by decide, by decide, by decide, by decide, by decide, by decide, by decide, ?_⟩
  exact ⟨by decide, by decide, by decide, by decide, by decide, by decide, by decide, by decide,
    trivial⟩

theorem bufferTask_table : TableLoaded (taskMemory bufferTask) := by
  unfold TableLoaded
  decide

theorem aspMain_meaning_bufferTask :
    ∃ after, aspMain byteRuntime (taskContext bufferTask) = (.broke, after) ∧
      Agree after.memory (performed (fun command => meaning (operationOf command) command)
        bufferTask (taskMemory bufferTask)) :=
  aspMain_meaning byteRuntime_moves bufferTask_task
    bufferTask_table ⟨by decide, by decide⟩ (by decide)

/-- **A command without a label** ends the task there: the commands before it have been
performed, the commands after it have not. -/
theorem aspMain_unhandled (moves : Moves rt bytes) {front rest : List Command} {command : Command}
    (task : Task ctx.memory pointer size (front ++ command :: rest))
    (table : TableLoaded ctx.memory)
    (plain : Plain operation pointer.toNat (pointer.toNat + size.toNat) front)
    (unknown : jumpLabel (halfAt (performed (fun command => meaning (operation command) command)
      front ctx.memory).dmemByte command.slot.toNat) = none)
    (within : patience (fun command => (operation command).budget command) front + 16 <
      watchdogLimit) :
    ∃ after, aspMain rt ctx = (.unhandledJumpTarget, after) ∧
      Agree after.memory (performed (fun command => meaning (operation command) command) front
        ctx.memory) :=
  task.stops moves.scalars moves.reads moves.seeds (plain.walkable moves table) unknown within

/-- A save, and a command with an empty slot of the table. -/
def segmentTask : List Command := [⟨0x06010000, 0x00002000⟩, ⟨0x07000000, 0x00000000⟩]

theorem aspMain_unhandled_segmentTask :
    ∃ after, aspMain byteRuntime (taskContext segmentTask) = (.unhandledJumpTarget, after) ∧
      Agree after.memory (performed (fun command => meaning (operationOf command) command)
        [⟨0x06010000, 0x00002000⟩] (taskMemory segmentTask)) :=
  aspMain_unhandled byteRuntime_moves
    (show Task (taskContext segmentTask).memory 0x1000 16
      ([⟨0x06010000, 0x00002000⟩] ++ ⟨0x07000000, 0x00000000⟩ :: []) from
    ⟨by decide, by decide, by decide, by decide, by decide, by decide, by decide,
      by decide, by decide, by decide, by decide, trivial⟩)
    (by unfold TableLoaded; decide) ⟨by decide, by decide⟩ (by decide) (by decide)

end Tasks

/-! ## Overlapping moves -/

/-- A copy of a range as it was before. -/
def copied (memory : Memory) (source target len : Nat) : Memory :=
  memory.withDmem target len fun i => memory.dmemByte (source + i)

theorem moved_eq_copied {rounds : Nat} {source target : Nat}
    (clear : target ≤ source ∨ source + 16 * rounds ≤ target) (memory : Memory) (addr : Nat) :
    (moved memory source target rounds).dmemByte addr =
      (copied memory source target (16 * rounds)).dmemByte addr := by
  unfold copied
  rw [Memory.dmemByte_withDmem]
  induction rounds generalizing memory source target with
  | zero => rw [if_neg (by omega), moved]
  | succ rounds inductionHypothesis =>
      rw [moved, inductionHypothesis (by omega)]
      by_cases later : target + 16 ≤ addr ∧ addr < target + 16 + 16 * rounds
      · -- what a later block reads the first has not written
        have unread : ¬ (target ≤ source + 16 + (addr - (target + 16)) ∧
            source + 16 + (addr - (target + 16)) < target + 16) := by omega
        have place : source + 16 + (addr - (target + 16)) = source + (addr - target) := by omega
        rw [if_pos later, if_pos (by omega), Memory.dmemByte_withDmem, if_neg unread, place]
      · rw [if_neg later, Memory.dmemByte_withDmem]
        by_cases first : target ≤ addr ∧ addr < target + 16
        · rw [if_pos first, if_pos (by omega)]
        · rw [if_neg first, if_neg (by omega)]

theorem moved_zero {rounds : Nat} {memory : Memory} {source target : Nat}
    (zero : ∀ addr, memory.dmemByte addr = 0) (addr : Nat) :
    (moved memory source target rounds).dmemByte addr = 0 := by
  induction rounds generalizing memory source target with
  | zero => exact zero addr
  | succ rounds inductionHypothesis =>
      refine inductionHypothesis fun other => ?_
      rw [Memory.dmemByte_withDmem]
      split
      · exact zero _
      · exact zero other

/-- A move in blocks is a copy for one block, down, or between ranges apart. -/
theorem moved_copies_iff {source target rounds : Nat} (some : 0 < rounds)
    (inside : target + 16 * rounds ≤ 0x1000) :
    (∀ memory addr, addr < 0x1000 → (moved memory source target rounds).dmemByte addr =
        (copied memory source target (16 * rounds)).dmemByte addr) ↔
      rounds = 1 ∨ target ≤ source ∨ source + 16 * rounds ≤ target := by
  constructor
  · intro copies
    by_contra overlap
    obtain ⟨several, up, short⟩ : rounds ≠ 1 ∧ source < target ∧
        target < source + 16 * rounds := by omega
    obtain ⟨more, rfl⟩ : ∃ more, rounds = more + 1 := Nat.exists_eq_succ_of_ne_zero (by omega)
    -- the first byte that a later block reads after the first has written it
    let i := max (target - source) 16
    let memory : Memory := (⟨fun _ => 0, fun _ => 0⟩ : Memory).withDmem (source + i) 1 fun _ => 1
    have bytes : ∀ addr, memory.dmemByte addr = if addr = source + i then 1 else 0 := by
      intro addr
      rw [Memory.dmemByte_withDmem]
      by_cases here : addr = source + i
      · rw [if_pos here, if_pos (by omega)]
      · rw [if_neg here, if_neg (by omega)]
        rfl
    have meant := copies memory (target + i) (by omega)
    have copy : (copied memory source target (16 * (more + 1))).dmemByte (target + i) = 1 := by
      unfold copied
      rw [Memory.dmemByte_withDmem, if_pos (by omega), bytes, if_pos (by omega)]
    have move : (moved memory source target (more + 1)).dmemByte (target + i) = 0 := by
      rw [moved]
      refine moved_zero (fun addr => ?_) _
      rw [Memory.dmemByte_withDmem]
      split
      · rw [bytes, if_neg (by omega)]
      · rw [bytes, if_neg (by omega)]
    rw [move, copy] at meant
    exact absurd meant (by decide)
  · intro clear memory addr _
    rcases clear with rfl | apart
    · unfold copied
      rw [moved, moved]
    · exact moved_eq_copied (by omega) memory addr

section Moves

variable {rt : Runtime Vec} {bytes : Vec → Nat → UInt8} {pointer stop : Nat} {command : Command}

/-- The registers with which the command loop comes to a command. -/
def issued (ctx : Context Vec) (command : Command) (memory : Memory) : Context Vec :=
  { ctx with r26 := command.w0, r25 := command.w1, memory := memory }

/-- The blocks of DMEMMOVE leave what a move in blocks leaves, in the whole of DMEM. -/
theorem dmemMove_moves (moves : Moves rt bytes) (fits : Fits pointer stop .dmemMove command)
    (ctx : Context Vec) (memory : Memory) :
    ∃ after, Goto.Goes (block rt) (rounds command.count + 1) .l1348 (issued ctx command memory)
      .l10EC after ∧ ∀ addr, addr < 0x1000 → after.memory.dmemByte addr =
        (moved memory (command.low + 0x4F0) (command.target + 0x4F0)
          (rounds command.count)).dmemByte addr := by
  obtain ⟨after, goes, returned⟩ := goes_dmemMove moves.scalars moves.vectors fits
    (issued ctx command memory) rfl rfl (Agree.refl memory)
  refine ⟨after, goes, fun addr inside => ?_⟩
  by_cases buffer : InBuffer addr
  · have high := buffer.2
    rw [returned.buffer addr buffer, dmemByte_moved (by omega)]
    rfl
  · exact returned.agree.dmem addr inside buffer

/-- **When DMEMMOVE is a copy**: for one block, for a move down and for ranges apart. A move up
by less than its length repeats what the blocks before have written. -/
theorem dmemMove_copies_iff (moves : Moves rt bytes) (fits : Fits pointer stop .dmemMove command)
    (ctx : Context Vec) :
    (∀ memory, ∃ after,
      Goto.Goes (block rt) (rounds command.count + 1) .l1348 (issued ctx command memory) .l10EC
        after ∧
      ∀ addr, addr < 0x1000 → after.memory.dmemByte addr =
        (copied memory (command.low + 0x4F0) (command.target + 0x4F0)
          (16 * rounds command.count)).dmemByte addr) ↔
      rounds command.count = 1 ∨ command.target ≤ command.low ∨
        command.low + 16 * rounds command.count ≤ command.target := by
  have some : 0 < rounds command.count := by
    unfold rounds
    omega
  have shifted : rounds command.count = 1 ∨ command.target + 0x4F0 ≤ command.low + 0x4F0 ∨
        command.low + 0x4F0 + 16 * rounds command.count ≤ command.target + 0x4F0 ↔
      rounds command.count = 1 ∨ command.target ≤ command.low ∨
        command.low + 16 * rounds command.count ≤ command.target := by omega
  rw [← shifted, ← moved_copies_iff some fits.2]
  refine forall_congr' fun memory => ?_
  obtain ⟨reached, goes, moved⟩ := dmemMove_moves moves fits ctx memory
  constructor
  · rintro ⟨after, goes', copied⟩ addr inside
    obtain ⟨-, rfl⟩ := goes.deterministic goes'
    rw [← moved addr inside, copied addr inside]
  · intro copies
    exact ⟨reached, goes, fun addr inside => (moved addr inside).trans (copies addr inside)⟩

/-- Two blocks, to the range behind them. -/
theorem dmemMove_copies_iff_apart :
    ∃ after,
      Goto.Goes (block byteRuntime) 3 .l1348
        (issued (taskContext []) ⟨0x0A000000, 0x00200020⟩ (taskMemory bufferTask)) .l10EC after ∧
      ∀ addr, addr < 0x1000 → after.memory.dmemByte addr =
        (copied (taskMemory bufferTask) 0x4F0 0x510 32).dmemByte addr :=
  (dmemMove_copies_iff byteRuntime_moves
    (show Fits 0 0 .dmemMove ⟨0x0A000000, 0x00200020⟩ by decide) (taskContext [])).mpr (by decide)
    (taskMemory bufferTask)

end Moves

end StadiumRecomp.Rsp
