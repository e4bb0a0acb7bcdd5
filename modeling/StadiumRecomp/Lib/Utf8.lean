import StadiumRecomp.Lib.Text
import StadiumRecomp.Lib.CString

/-!
Contract: texts as UTF-8 bytes.

Owns: encoding and strict decoding, and which bytes can stand for ASCII symbols.

Does not own: any file format.
-/

set_option autoImplicit false

namespace StadiumRecomp.Lib.Utf8

open StadiumRecomp.Lib

/-- `text.encode("utf-8")`. -/
def encode (text : Text) : Bytes := text.flatMap String.utf8EncodeChar

/-- `data.decode("utf-8")`. -/
def decode (data : Bytes) : Option Text :=
  (ByteArray.utf8Decode? data.toByteArray).map Array.toList

@[simp] theorem encode_nil : encode [] = [] := rfl

theorem encode_cons (symbol : Char) (text : Text) :
    encode (symbol :: text) = String.utf8EncodeChar symbol ++ encode text := rfl

theorem encode_append (left right : Text) :
    encode (left ++ right) = encode left ++ encode right := by
  simp [encode]

theorem decode_encode (text : Text) : decode (encode text) = some text := by
  have decoded := List.utf8Decode?_utf8Encode (l := text)
  unfold decode encode
  rw [show (text.flatMap String.utf8EncodeChar).toByteArray = text.utf8Encode from rfl, decoded]
  rfl

/-- Only the bytes of a text decode to it. -/
theorem encode_of_decode {data : Bytes} {text : Text} (decoded : decode data = some text) :
    encode text = data := by
  obtain ⟨symbols, read, -⟩ := Option.map_eq_some_iff.mp decoded
  obtain ⟨written, valid⟩ := ByteArray.isSome_utf8Decode?_iff.mp (Option.isSome_of_eq_some read)
  have whole : data = encode written := by
    simpa [encode, List.utf8Encode] using congrArg (fun array => array.data.toList) valid
  rw [whole, decode_encode] at decoded
  rw [whole, Option.some.inj decoded]

/-- A text that is cut off to a size still decodes to itself exactly when nothing is cut. -/
theorem decode_take_iff (text : Text) (size : Nat) :
    decode ((encode text).take size) = some text ↔ (encode text).length ≤ size := by
  constructor
  · intro decoded
    have cut := congrArg List.length (encode_of_decode decoded)
    rw [List.length_take] at cut
    omega
  · intro fits
    rw [List.take_of_length_le fits, decode_encode]

theorem encode_injective : Function.Injective encode := by
  intro left right same
  have decoded := congrArg decode same
  rw [decode_encode, decode_encode] at decoded
  exact Option.some.inj decoded

/-- An ASCII symbol is one byte. -/
theorem encodeChar_ascii {symbol : Char} (ascii : symbol.toNat < 128) :
    String.utf8EncodeChar symbol = [UInt8.ofNat symbol.toNat] := by
  have small : symbol.val.toNat ≤ 0x7f := by
    change symbol.toNat ≤ 127
    omega
  unfold String.utf8EncodeChar
  simp only [small, if_true]
  rfl

theorem encode_ascii {text : Text} (ascii : ∀ symbol ∈ text, symbol.toNat < 128) :
    encode text = text.map (fun symbol => UInt8.ofNat symbol.toNat) := by
  induction text with
  | nil => rfl
  | cons symbol rest inductionHypothesis =>
      rw [encode_cons, encodeChar_ascii (ascii symbol List.mem_cons_self),
        inductionHypothesis (fun other member => ascii other (List.mem_cons_of_mem _ member))]
      rfl

/-- The bytes of any other symbol are no ASCII bytes. -/
theorem encodeChar_wide {symbol : Char} (wide : 128 ≤ symbol.toNat) :
    ∀ byte ∈ String.utf8EncodeChar symbol, 128 ≤ byte.toNat := by
  have notSmall : ¬ symbol.val.toNat ≤ 0x7f := by
    change ¬ symbol.toNat ≤ 127
    omega
  have high : ∀ low base : Nat, low < 64 → 128 ≤ base → base + low < 256 →
      128 ≤ (UInt8.ofNat (low + base)).toNat := by
    intro low base _ _ _
    rw [UInt8.toNat_ofNat', Nat.mod_eq_of_lt (by omega)]
    omega
  intro byte member
  unfold String.utf8EncodeChar at member
  simp only [notSmall, if_false] at member
  split at member
  · simp only [List.mem_cons, List.not_mem_nil, or_false] at member
    rcases member with rfl | rfl <;> exact high _ _ (by omega) (by omega) (by omega)
  · split at member
    · simp only [List.mem_cons, List.not_mem_nil, or_false] at member
      rcases member with rfl | rfl | rfl <;> exact high _ _ (by omega) (by omega) (by omega)
    · simp only [List.mem_cons, List.not_mem_nil, or_false] at member
      rcases member with rfl | rfl | rfl | rfl <;>
        exact high _ _ (by omega) (by omega) (by omega)

/-- An ASCII byte stands for its symbol only. -/
theorem ofNat_mem_encode_iff {special : Char} (ascii : special.toNat < 128) {text : Text} :
    UInt8.ofNat special.toNat ∈ encode text ↔ special ∈ text := by
  have value : (UInt8.ofNat special.toNat).toNat = special.toNat := by
    rw [UInt8.toNat_ofNat', Nat.mod_eq_of_lt (by omega)]
  constructor
  · intro member
    obtain ⟨symbol, inText, inSymbol⟩ := List.mem_flatMap.mp member
    by_cases small : symbol.toNat < 128
    · rw [encodeChar_ascii small, List.mem_singleton] at inSymbol
      have values := congrArg UInt8.toNat inSymbol
      rw [value, UInt8.toNat_ofNat', Nat.mod_eq_of_lt (by omega)] at values
      exact Char.toNat_inj.mp values ▸ inText
    · have wide := encodeChar_wide (by omega) _ inSymbol
      omega
  · intro member
    refine List.mem_flatMap.mpr ⟨special, member, ?_⟩
    rw [encodeChar_ascii ascii]
    exact List.mem_singleton_self _

end StadiumRecomp.Lib.Utf8
