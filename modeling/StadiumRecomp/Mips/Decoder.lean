import Mathlib.Data.List.Basic

/-!
Contract: the `Decoder` class of `tools/mips_find_functions.py`.

Owns: the legality tables, `is_legal`, `classify`, and the alignment of every
target `classify` returns.

Does not own: where words come from, or what the walk does with a kind.
-/

set_option autoImplicit false

namespace StadiumRecomp.Mips

/-! ## Legality tables -/

/-- Primary opcodes that are legal on the R4300i. -/
def validOp : List Nat :=
  [0x00, 0x01, 0x02, 0x03, 0x04, 0x05, 0x06, 0x07,
    0x08, 0x09, 0x0A, 0x0B, 0x0C, 0x0D, 0x0E, 0x0F,
    0x10, 0x11, 0x12,
    0x14, 0x15, 0x16, 0x17,
    0x18, 0x19, 0x1A, 0x1B,
    0x20, 0x21, 0x22, 0x23, 0x24, 0x25, 0x26, 0x27,
    0x28, 0x29, 0x2A, 0x2B, 0x2C, 0x2D, 0x2E, 0x2F,
    0x30, 0x31, 0x32, 0x34, 0x35, 0x36, 0x37,
    0x38, 0x39, 0x3A, 0x3C, 0x3D, 0x3E, 0x3F]

/-- Legal `funct` codes of opcode 0. -/
def validSpecial : List Nat :=
  [0x00, 0x02, 0x03, 0x04, 0x06, 0x07, 0x08, 0x09, 0x0C, 0x0D, 0x0F,
    0x10, 0x11, 0x12, 0x13, 0x14, 0x16, 0x17,
    0x18, 0x19, 0x1A, 0x1B, 0x1C, 0x1D, 0x1E, 0x1F,
    0x20, 0x21, 0x22, 0x23, 0x24, 0x25, 0x26, 0x27,
    0x2A, 0x2B, 0x2C, 0x2D, 0x2E, 0x2F,
    0x30, 0x31, 0x32, 0x33, 0x34, 0x36,
    0x38, 0x3A, 0x3B, 0x3C, 0x3E, 0x3F]

/-- Legal `rt` codes of opcode 1. -/
def validRegimm : List Nat :=
  [0x00, 0x01, 0x02, 0x03, 0x08, 0x09, 0x0A, 0x0B, 0x0C, 0x0E,
    0x10, 0x11, 0x12, 0x13]

/-- `bltzal`, `bgezal`, `bltzall`, `bgezall`. -/
def regimmLink : List Nat := [0x10, 0x11, 0x12, 0x13]

def regimmBranch : List Nat := [0x00, 0x01, 0x02, 0x03] ++ regimmLink

/-- The conditional branches of the primary opcode table. -/
def branchOp : List Nat := [0x04, 0x05, 0x06, 0x07, 0x14, 0x15, 0x16, 0x17]

/-! ## Fields of a word -/

def opOf (word : Nat) : Nat := word >>> 26 &&& 0x3F
def rsOf (word : Nat) : Nat := word >>> 21 &&& 0x1F
def rtOf (word : Nat) : Nat := word >>> 16 &&& 0x1F
def functOf (word : Nat) : Nat := word &&& 0x3F

/-- The sign-extended immediate. -/
def simmOf (word : Nat) : Int :=
  let simm := word &&& 0xFFFF
  if simm &&& 0x8000 ≠ 0 then (simm : Int) - 0x10000 else simm

/-- `pc + 4 + (simm << 2)`. -/
def branchTarget (word : Nat) (pc : Int) : Int := pc + 4 + simmOf word * 4

/-- `(pc & 0xF0000000) | ((w & 0x03FFFFFF) << 2)`. The two masks do not overlap,
and `pc` is an unbounded integer. -/
def jumpTarget (word : Nat) (pc : Int) : Int :=
  pc / 0x10000000 % 0x10 * 0x10000000 + ((word &&& 0x03FFFFFF : Nat) : Int) * 4

/-! ## Classification -/

/-- `is_legal`. -/
def isLegal (word : Nat) : Bool :=
  if opOf word ∉ validOp then false
  else if opOf word = 0x00 then functOf word ∈ validSpecial
  else if opOf word = 0x01 then rtOf word ∈ validRegimm
  else true

/-- What `classify` returns: the kind, with its target where it has one. -/
inductive Kind where
  | nop
  | invalid
  | call (target : Int)
  | jump (target : Int)
  | branch (target : Int)
  | ubranch (target : Int)
  | ret
  | indirectCall
  | indirectJump
  | other
deriving DecidableEq, Repr

def classifySpecial (word : Nat) : Kind :=
  if functOf word = 0x08 then
    if rsOf word = 31 then .ret else .indirectJump
  else if functOf word = 0x09 then .indirectCall
  else .other

def classifyRegimm (word : Nat) (pc : Int) : Kind :=
  if rtOf word ∈ regimmLink then .call (branchTarget word pc)
  else if rtOf word ∈ regimmBranch then .branch (branchTarget word pc)
  else .other

/-- `classify`. -/
def classify (word : Nat) (pc : Int) : Kind :=
  if word = 0 then .nop
  else if ¬ isLegal word then .invalid
  else if opOf word = 0x03 then .call (jumpTarget word pc)
  else if opOf word = 0x02 then .jump (jumpTarget word pc)
  else if opOf word = 0x00 then classifySpecial word
  else if opOf word = 0x01 then classifyRegimm word pc
  else if opOf word ∈ branchOp then
    -- `b off` is `beq $0, $0`; no other opcode has an unconditional idiom.
    if opOf word = 0x04 ∧ rsOf word = 0 ∧ rtOf word = 0 then
      .ubranch (branchTarget word pc)
    else .branch (branchTarget word pc)
  else if opOf word = 0x11 then
    if rsOf word = 0x08 then .branch (branchTarget word pc) else .other
  else if opOf word = 0x10 then
    -- `eret` ends a path.
    if functOf word = 0x18 ∧ word >>> 25 &&& 1 ≠ 0 then .ret else .other
  else .other

example : classify 0x0C000140 0x80000400 = .call 0x80000500 := by decide

example : classify 0x1000FFFF 0x80000400 = .ubranch 0x80000400 := by decide

/-- Exactly the illegal words are invalid. -/
theorem classify_ne_invalid_iff (word : Nat) (pc : Int) :
    classify word pc ≠ .invalid ↔ isLegal word = true := by
  by_cases zero : word = 0
  · subst zero
    exact ⟨fun _ => rfl, fun _ => Kind.noConfusion⟩
  by_cases legal : isLegal word = true
  · refine ⟨fun _ => legal, fun _ => ?_⟩
    unfold classify classifySpecial classifyRegimm
    rw [if_neg zero, if_neg (not_not.mpr legal)]
    split_ifs <;> exact Kind.noConfusion
  · unfold classify
    rw [if_neg zero, if_pos legal]
    exact ⟨fun valid => absurd rfl valid, fun impossible => absurd impossible legal⟩

/-- The target a kind carries. -/
def Kind.target : Kind → Option Int
  | .call target | .jump target | .branch target | .ubranch target => some target
  | _ => none

theorem branchTarget_aligned (word : Nat) {pc : Int} (aligned : pc % 4 = 0) :
    branchTarget word pc % 4 = 0 := by
  unfold branchTarget
  omega

theorem jumpTarget_aligned (word : Nat) (pc : Int) : jumpTarget word pc % 4 = 0 := by
  unfold jumpTarget
  omega

theorem classifySpecial_target (word : Nat) : (classifySpecial word).target = none := by
  unfold classifySpecial
  split
  · split <;> rfl
  · split <;> rfl

theorem classifyRegimm_target {word : Nat} {pc target : Int}
    (found : (classifyRegimm word pc).target = some target) :
    branchTarget word pc = target := by
  unfold classifyRegimm at found
  split at found
  · exact Option.some.inj found
  · split at found
    · exact Option.some.inj found
    · cases found

/-- Only two address computations produce targets. -/
theorem classify_target {word : Nat} {pc target : Int}
    (found : (classify word pc).target = some target) :
    branchTarget word pc = target ∨ jumpTarget word pc = target := by
  unfold classify at found
  by_cases zero : word = 0
  · rw [if_pos zero] at found
    cases found
  rw [if_neg zero] at found
  by_cases legal : isLegal word = true
  swap
  · rw [if_pos legal] at found
    cases found
  rw [if_neg (not_not.mpr legal)] at found
  by_cases jal : opOf word = 0x03
  · rw [if_pos jal] at found
    exact Or.inr (Option.some.inj found)
  rw [if_neg jal] at found
  by_cases jump : opOf word = 0x02
  · rw [if_pos jump] at found
    exact Or.inr (Option.some.inj found)
  rw [if_neg jump] at found
  by_cases special : opOf word = 0x00
  · rw [if_pos special, classifySpecial_target] at found
    cases found
  rw [if_neg special] at found
  by_cases regimm : opOf word = 0x01
  · rw [if_pos regimm] at found
    exact Or.inl (classifyRegimm_target found)
  rw [if_neg regimm] at found
  by_cases branch : opOf word ∈ branchOp
  · rw [if_pos branch] at found
    split at found
    · exact Or.inl (Option.some.inj found)
    · exact Or.inl (Option.some.inj found)
  rw [if_neg branch] at found
  by_cases cop1 : opOf word = 0x11
  · rw [if_pos cop1] at found
    split at found
    · exact Or.inl (Option.some.inj found)
    · cases found
  rw [if_neg cop1] at found
  split at found
  · split at found <;> cases found
  · cases found

/-- Targets are word aligned when the instruction is. -/
theorem classify_target_aligned {word : Nat} {pc target : Int}
    (aligned : pc % 4 = 0) (found : (classify word pc).target = some target) :
    target % 4 = 0 := by
  rcases classify_target found with rfl | rfl
  · exact branchTarget_aligned word aligned
  · exact jumpTarget_aligned word pc

end StadiumRecomp.Mips
