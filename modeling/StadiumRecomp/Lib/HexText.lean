import StadiumRecomp.Lib.CString
import StadiumRecomp.Lib.PyInt

/-!
Contract: bytes written as hexadecimal text.

Owns: `%02x` of every byte, `bytes.fromhex`, and that reading gives the bytes back.

Does not own: which bytes are written.
-/

set_option autoImplicit false

namespace StadiumRecomp.Lib.HexText

open StadiumRecomp.Lib
open StadiumRecomp.Lib.PyInt

/-- `%02x`. -/
def hexByte (byte : UInt8) : Text :=
  [Nat.digitChar (byte.toNat / 16), Nat.digitChar (byte.toNat % 16)]

def hexText (bytes : Bytes) : Text := bytes.flatMap hexByte

/-- `bytes.fromhex` of a text without blanks, none where it raises. -/
def fromHex : Text → Option Bytes
  | [] => some []
  | [_] => none
  | high :: low :: rest => do
      let high ← digitVal 16 high
      let low ← digitVal 16 low
      let bytes ← fromHex rest
      return UInt8.ofNat (high * 16 + low) :: bytes

theorem fromHex_hexText (bytes : Bytes) : fromHex (hexText bytes) = some bytes := by
  induction bytes with
  | nil => rfl
  | cons byte rest inductionHypothesis =>
      have small := byte.toNat_lt
      have high := digitVal_digitChar (by omega : byte.toNat / 16 < 16)
      have low := digitVal_digitChar (by omega : byte.toNat % 16 < 16)
      show (do
        let high ← digitVal 16 (Nat.digitChar (byte.toNat / 16))
        let low ← digitVal 16 (Nat.digitChar (byte.toNat % 16))
        let bytes ← fromHex (hexText rest)
        return UInt8.ofNat (high * 16 + low) :: bytes) = some (byte :: rest)
      rw [high, low, inductionHypothesis]
      show some (UInt8.ofNat (byte.toNat / 16 * 16 + byte.toNat % 16) :: rest) = _
      rw [Nat.div_add_mod', UInt8.ofNat_toNat]

theorem hexText_inj {left right : Bytes} (same : hexText left = hexText right) : left = right := by
  have read := fromHex_hexText left
  rw [same, fromHex_hexText] at read
  exact (Option.some.inj read).symm

theorem hexText_ne_nil {bytes : Bytes} (nonempty : bytes ≠ []) : hexText bytes ≠ [] := by
  cases bytes with
  | nil => exact absurd rfl nonempty
  | cons byte rest => exact List.cons_ne_nil _ _

theorem not_pySpace_of_mem_hexByte {byte : UInt8} {symbol : Char} (member : symbol ∈ hexByte byte) :
    pySpace symbol = false := by
  have small := byte.toNat_lt
  have digit {value : Nat} (below : value < 16) : pySpace (Nat.digitChar value) = false := by
    apply not_pySpace_of_isHexDigit
    unfold isHexDigit
    rw [digitVal_digitChar below]
    rfl
  unfold hexByte at member
  rcases List.mem_cons.mp member with rfl | last
  · exact digit (by omega)
  · rw [List.mem_singleton.mp last]
    exact digit (by omega)

theorem not_pySpace_of_mem_hexText {bytes : Bytes} {symbol : Char}
    (member : symbol ∈ hexText bytes) : pySpace symbol = false := by
  obtain ⟨byte, _, inByte⟩ := List.mem_flatMap.mp member
  exact not_pySpace_of_mem_hexByte inByte

end StadiumRecomp.Lib.HexText
