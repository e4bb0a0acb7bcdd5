import Mathlib.Data.List.Forall2
import StadiumRecomp.Lib.CString

/-!
Contract: the signatures of `tools/match_libultra.py`.

Owns: the words of a function, `mask_word` and `sig_of`, what a relocation may change, and that
two functions have one signature exactly when their masked words are the same.

Does not own: the digest, which is a parameter, and where the functions come from.
-/

set_option autoImplicit false

namespace StadiumRecomp.Libultra

open StadiumRecomp.Lib

/-- An instruction word. -/
abbrev Word := BitVec 32

/-! ## Words of a function -/

/-- `struct.unpack(">I", slice)[0]`, which raises unless the slice has four bytes. -/
def unpackWord : Bytes → Option Word
  | [first, second, third, last] =>
      some (first.toBitVec ++ second.toBitVec ++ third.toBitVec ++ last.toBitVec)
  | _ => none

/-- The words that both loops read: one for each four bytes begun. -/
def readWords (data : Bytes) (off size : Nat) : Option (List Word) :=
  (List.range ((size + 3) / 4)).mapM fun i => unpackWord ((data.drop (off + i * 4)).take 4)

/-- `struct.pack(">I", w)`. -/
def packWord (w : Word) : Bytes :=
  [UInt8.ofBitVec (w.extractLsb' 24 8), UInt8.ofBitVec (w.extractLsb' 16 8),
    UInt8.ofBitVec (w.extractLsb' 8 8), UInt8.ofBitVec (w.extractLsb' 0 8)]

/-! ## Masks -/

/-- `ADDR_BEARING`. -/
def addrBearing : List Nat :=
  [8, 9, 13, 15,
    32, 33, 34, 35, 36, 37, 38, 39,
    40, 41, 42, 43, 44, 45, 46,
    49, 53, 55, 57, 61, 63]

def opOf (w : Word) : Nat := (w >>> 26).toNat

/-- `mask_word`. -/
def maskWord (w : Word) : Word :=
  let op := w >>> 26
  if op.toNat = 2 ∨ op.toNat = 3 then op <<< 26
  else if op.toNat ∈ addrBearing then w &&& 0xFFFF0000#32
  else w

/-- A function as the matcher sees it. -/
def masked (words : List Word) : List Word := words.map maskWord

/-- What relocating a function may do to a word: change the target of a jump or the immediate of
an address-bearing opcode. -/
def Relocated (word moved : Word) : Prop :=
  moved = word ∨
    ((opOf word = 2 ∨ opOf word = 3) ∧ opOf moved = opOf word) ∨
    (opOf word ∈ addrBearing ∧ moved.extractLsb' 16 16 = word.extractLsb' 16 16)

instance (word moved : Word) : Decidable (Relocated word moved) :=
  inferInstanceAs (Decidable (_ ∨ _))

theorem and_high_eq {word moved : Word}
    (same : moved.extractLsb' 16 16 = word.extractLsb' 16 16) :
    moved &&& 0xFFFF0000#32 = word &&& 0xFFFF0000#32 := by
  apply BitVec.eq_of_getLsbD_eq
  intro i inside
  have bit := congrArg (fun half => half.getLsbD (i - 16)) same
  simp only [BitVec.getLsbD_extractLsb'] at bit
  rw [BitVec.getLsbD_and, BitVec.getLsbD_and]
  by_cases low : i < 16
  · have masks : ∀ i < 16, (0xFFFF0000#32).getLsbD i = false := by decide
    rw [masks i low, Bool.and_false, Bool.and_false]
  · have position : 16 + (i - 16) = i := by omega
    rw [position, decide_eq_true (by omega : i - 16 < 16), Bool.true_and, Bool.true_and] at bit
    rw [bit]

theorem opOf_of_high_eq {word moved : Word}
    (same : moved.extractLsb' 16 16 = word.extractLsb' 16 16) : opOf moved = opOf word := by
  have shifted (w : Word) : opOf w = (w.extractLsb' 16 16).toNat / 2 ^ 10 := by
    unfold opOf
    rw [BitVec.toNat_ushiftRight, BitVec.extractLsb'_toNat, Nat.shiftRight_eq_div_pow,
      Nat.shiftRight_eq_div_pow]
    have small := w.isLt
    omega
  rw [shifted, shifted, same]

/-- A relocated word has the mask it had. -/
theorem maskWord_relocated {word moved : Word} (relocated : Relocated word moved) :
    maskWord moved = maskWord word := by
  rcases relocated with same | ⟨jump, sameOp⟩ | ⟨bearing, high⟩
  · rw [same]
  · have shifted : moved >>> 26 = word >>> 26 := BitVec.eq_of_toNat_eq sameOp
    have jumps {w : Word} (jump : opOf w = 2 ∨ opOf w = 3) : maskWord w = w >>> 26 <<< 26 :=
      if_pos jump
    rw [jumps jump, jumps (by rwa [sameOp]), shifted]
  · have sameOp := opOf_of_high_eq high
    have noJump : ¬ (opOf word = 2 ∨ opOf word = 3) := by
      intro jump
      rcases jump with op | op
      · rw [op] at bearing
        exact absurd bearing (by decide)
      · rw [op] at bearing
        exact absurd bearing (by decide)
    show (if opOf moved = 2 ∨ opOf moved = 3 then moved >>> 26 <<< 26
      else if opOf moved ∈ addrBearing then moved &&& 0xFFFF0000#32 else moved) =
      if opOf word = 2 ∨ opOf word = 3 then word >>> 26 <<< 26
      else if opOf word ∈ addrBearing then word &&& 0xFFFF0000#32 else word
    rw [sameOp, if_neg noJump, if_neg noJump, if_pos bearing, if_pos bearing, and_high_eq high]

theorem masked_relocated {words moved : List Word} (relocated : List.Forall₂ Relocated words moved) :
    masked moved = masked words := by
  induction relocated with
  | nil => rfl
  | cons head _ inductionHypothesis =>
      show maskWord _ :: masked _ = maskWord _ :: masked _
      rw [maskWord_relocated head, inductionHypothesis]

/-! ## Signatures -/

section Signatures

variable {δ : Type}

/-- `sig_of`. -/
def sigOf (digest : Bytes → δ) (words : List Word) : Nat × δ :=
  (words.length, digest (words.flatMap fun w => packWord (maskWord w)))

theorem unpackWord_packWord (w : Word) : unpackWord (packWord w) = some w := by
  show some (w.extractLsb' 24 8 ++ w.extractLsb' 16 8 ++ w.extractLsb' 8 8 ++
    w.extractLsb' 0 8) = some w
  congr 1
  apply BitVec.eq_of_getLsbD_eq
  intro i inside
  simp only [BitVec.getLsbD_append, BitVec.getLsbD_extractLsb']
  split
  next low => rw [decide_eq_true low, Bool.true_and, Nat.zero_add]
  next =>
    split
    next low => rw [decide_eq_true low, Bool.true_and, (by omega : 8 + (i - 8) = i)]
    next =>
      split
      next low => rw [decide_eq_true low, Bool.true_and, (by omega : 16 + (i - 8 - 8) = i)]
      next =>
        rw [decide_eq_true (by omega : i - 8 - 8 - 8 < 8), Bool.true_and,
          (by omega : 24 + (i - 8 - 8 - 8) = i)]

theorem packWord_inj {left right : Word} (same : packWord left = packWord right) : left = right := by
  have read := unpackWord_packWord left
  rw [same, unpackWord_packWord] at read
  exact (Option.some.inj read).symm

theorem flatMap_packWord_inj {left right : List Word}
    (same : left.flatMap packWord = right.flatMap packWord) : left = right := by
  induction left generalizing right with
  | nil =>
      cases right with
      | nil => rfl
      | cons head tail => cases same
  | cons first rest inductionHypothesis =>
      cases right with
      | nil => cases same
      | cons head tail =>
          rw [List.flatMap_cons, List.flatMap_cons] at same
          obtain ⟨heads, tails⟩ := List.append_inj same rfl
          rw [packWord_inj heads, inductionHypothesis tails]

theorem sigOf_eq (digest : Bytes → δ) (words : List Word) :
    sigOf digest words = ((masked words).length, digest ((masked words).flatMap packWord)) := by
  unfold sigOf masked
  rw [List.length_map, List.flatMap_map]

/-- With a digest without collisions, a signature is the masked words. -/
theorem sigOf_eq_iff {digest : Bytes → δ} (collisionFree : Function.Injective digest)
    {left right : List Word} :
    sigOf digest left = sigOf digest right ↔ masked left = masked right := by
  rw [sigOf_eq, sigOf_eq]
  constructor
  · intro same
    exact flatMap_packWord_inj (collisionFree (congrArg Prod.snd same))
  · intro same
    rw [same]

end Signatures

end StadiumRecomp.Libultra
