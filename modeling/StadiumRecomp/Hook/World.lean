import Mathlib.Algebra.GroupWithZero.Nat
import StadiumRecomp.Census.Inventory
import StadiumRecomp.Census.PcSet
import StadiumRecomp.Guest.TextArg
import StadiumRecomp.Translate.Reload

/-!
Contract: what the hooks of a traced function entry read and change.

Owns: the guest context, the host state of the translation layer with the record of its
locks, the names of traced functions, the scratch slots and the table lookup.

Does not own: the hooks themselves, and counters that only reports read.
-/

set_option autoImplicit false

namespace StadiumRecomp.Hook

open StadiumRecomp.Lib
open StadiumRecomp.Guest
open StadiumRecomp.Census
open StadiumRecomp.Translate

/-! ## Guest context -/

instance neZeroRegisters : NeZero 32 := ⟨by decide⟩

/-- `recomp_context`: the general registers, and the other fields, which no hook uses. -/
structure Context where
  gpr : Fin 32 → UInt64
  rest : List UInt64

namespace Context

/-- `(uint32_t)ctx->r<i>`. -/
def reg (ctx : Context) (i : Fin 32) : UInt32 := (ctx.gpr i).toUInt32

/-- `ctx->r<i> = value`, from 32 bits. -/
def setReg (ctx : Context) (i : Fin 32) (value : UInt32) : Context :=
  { ctx with gpr := Function.update ctx.gpr i value.toUInt64 }

/-- The stack pointer `r29`. -/
def sp (ctx : Context) : UInt32 := ctx.reg 29

/-- Some registers set, the others zero. -/
def ofRegisters (registers : List (Fin 32 × UInt32)) : Context :=
  registers.foldl (fun ctx register => ctx.setReg register.1 register.2) ⟨fun _ => 0, []⟩

end Context

/-! ## Host state -/

inductive Mutex where
  | slotm
  | xlate
  | strinv
  | textcand
  | disc
deriving DecidableEq, Repr

/-- What a thread does that others, or nested calls, can tell. -/
inductive Event where
  | lock (mutex : Mutex)
  | unlock (mutex : Mutex)
  | enterXlate (active : Bool)
  | beginRender
  | endRender
deriving DecidableEq, Repr

/-- `SlotMetrics`; the advances are by glyph code from `0x20`. -/
structure SlotMetrics where
  ready : Bool
  proportional : Bool
  adv : Nat → UInt8
  mono : UInt8

def SlotMetrics.initial : SlotMetrics := ⟨false, false, fun _ => 0, 8⟩

/-- A line of `xlate_discovery.log`. -/
inductive DiscoveryLine where
  | watch (watch : Nat) (pc : UInt32) (source : Nat) (registers : List UInt32)
  | longText (pc : UInt32) (source : Nat) (ra : UInt32) (text : Bytes)
  | pcLog (pc : UInt32) (source : Nat) (value ra : UInt32) (text : Bytes)
  | regDump (registers : List UInt32)
  | fontState (pointer : UInt32) (bytes : Bytes)
deriving DecidableEq, Repr

/-- `g_disc_seen`, the log behind it, and whether the registers were dumped. -/
structure Discovery where
  seen : List UInt64
  log : List DiscoveryLine
  dumped : Bool

/-- Guest memory and the state of the translation layer on one thread. -/
structure World where
  rdram : Rdram
  /-- `g_slotm`. -/
  slotm : Nat → SlotMetrics
  /-- `g_xlate_active`. -/
  xlateActive : Bool
  /-- `g_textpc_set`. -/
  textPcs : PcSlots
  /-- `g_xlate` with what the reload check keeps. -/
  reload : Reload
  /-- `g_xlate_calls`. -/
  calls : UInt64
  /-- `g_strinv`. -/
  inventory : StrInv
  discovery : Discovery
  /-- What the thread has done so far. -/
  trace : List Event

namespace World

def record (world : World) (event : Event) : World :=
  { world with trace := world.trace ++ [event] }

def lock (world : World) (mutex : Mutex) : World := world.record (.lock mutex)
def unlock (world : World) (mutex : Mutex) : World := world.record (.unlock mutex)

section Frames

variable (world : World) (event : Event) (mutex : Mutex)

@[simp] theorem xlateActive_record : (world.record event).xlateActive = world.xlateActive := rfl
@[simp] theorem reload_record : (world.record event).reload = world.reload := rfl
@[simp] theorem trace_record : (world.record event).trace = world.trace ++ [event] := rfl
@[simp] theorem rdram_unlock : (world.unlock mutex).rdram = world.rdram := rfl

end Frames

end World

/-- The environment variables the layer reads once, the width of `unsigned long`, and
`translations.json` at the check after so many calls. -/
structure Env where
  /-- `PMS_TEXTPROBE`. -/
  textprobe : Option Bytes
  /-- `PMS_XLATE_GAP`. -/
  xlateGap : Option Bytes
  /-- `PMS_XLATE_FIT`. -/
  xlateFit : Option Bytes
  longBits : Nat
  file : UInt64 → FileState

/-- `textprobe_armed`. -/
def Env.textprobeArmed (env : Env) : Bool :=
  match env.textprobe with
  | some (first :: _) => CString.bytesOf "1tTyY" |>.contains first
  | _ => false

/-- No variable set, and no `translations.json`. -/
def Env.plain (longBits : Nat) : Env := ⟨none, none, none, longBits, fun _ => .absent⟩

/-- A table loaded into an otherwise fresh layer, away from a reload check. -/
def World.loaded (rdram : Rdram) (table : Table) (slots : PcSlots) : World where
  rdram := rdram
  slotm := fun _ => .initial
  xlateActive := false
  textPcs := slots
  reload := ⟨table, 0, true, true⟩
  calls := 1
  inventory := .empty
  discovery := ⟨[], [], false⟩
  trace := []

/-- The two recompiled glyph routines. -/
inductive Routine where
  /-- `FUN_80019f70`, from a code to its index in the glyph sheet. -/
  | index
  /-- `FUN_8001a3e4`, draws one glyph. -/
  | draw
deriving DecidableEq, Repr

/-- What the recompiled routines do, on a copy of the caller's context. -/
abbrev GlyphCode := Routine → World → Context → World × Context

/-! ## Names -/

def kStringDrawPC : UInt32 := 0x8001A944
def kDescDrawPC : UInt32 := 0x8001A920
def kPrintfPC : UInt32 := 0x80055CE0

/-- The sign of a number and what follows it. -/
def signOf : Bytes → Bool × Bytes
  | 0x2D :: rest => (true, rest)
  | 0x2B :: rest => (false, rest)
  | rest => (false, rest)

/-- A `0x` in front of a hexadecimal digit is no part of the digits. -/
def skipRadix : Bytes → Bytes
  | 0x30 :: x :: digit :: rest =>
      if (x = 0x78 ∨ x = 0x58) ∧ (hexval digit).isSome then digit :: rest
      else 0x30 :: x :: digit :: rest
  | rest => rest

/-- `strtoul(text, nullptr, 16)` for an `unsigned long` of so many bits. -/
def strtoul16 (longBits : Nat) (text : Bytes) : Nat :=
  let (negative, rest) := signOf (text.dropWhile CString.isSpace)
  let digits := (skipRadix rest).takeWhile (fun digit => (hexval digit).isSome)
  let value := digits.foldl (fun value digit => value * 16 + ((hexval digit).getD 0).toNat) 0
  if value ≥ 2 ^ longBits then 2 ^ longBits - 1
  else if negative then (2 ^ longBits - value) % 2 ^ longBits
  else value

/-- What follows the last underscore, or the whole name. -/
def behindUnderscore (name : Bytes) : Bytes := name.rtakeWhile (· ≠ 0x5F)

/-- `parse_fun_pc`. -/
def parseFunPc (longBits : Nat) : Option Bytes → UInt32
  | none => 0
  | some name => UInt32.ofNat (strtoul16 longBits (behindUnderscore name))

/-! ## Lookup and scratch -/

/-- `g_xlate.find(key)` under `g_xlate_mtx`. -/
def findXlate (world : World) (key : UInt64) : World × Option XlateVal :=
  ((world.lock .xlate).unlock .xlate, world.reload.table.get? key)

def percent : UInt8 := 0x25

/-- `en.find('%') != npos`. -/
def hasPercent (en : Bytes) : Bool := en.contains percent

/-- `swap_scratch`. -/
def swapScratch (sp : UInt32) (isFmt : Bool) : UInt32 :=
  (sp - (if isFmt then 0x800 else 0xC00)) &&& ~~~7

end StadiumRecomp.Hook
