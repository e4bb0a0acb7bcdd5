import StadiumRecomp.Lib.CString

/-!
Contract: text as EUC-JP encodes it.

Owns: the characters of the four code sets, their bytes, the line each character stands
on, and the line breaks.

Does not own: which characters a font has.
-/

set_option autoImplicit false

namespace StadiumRecomp.Lib

/-- A byte of a character in the 94 by 94 planes. -/
def IsPlaneByte (byte : UInt8) : Prop := 0xA1 ≤ byte ∧ byte ≤ 0xFE

instance (byte : UInt8) : Decidable (IsPlaneByte byte) := inferInstanceAs (Decidable (_ ∧ _))

/-- A character of EUC-JP text. -/
inductive EucChar where
  | newline
  | ascii (c : UInt8) (single : c < 0x80 ∧ c ≠ 0x0A)
  | jisX0208 (lead trail : UInt8) (plane : IsPlaneByte lead ∧ IsPlaneByte trail)
  | kana (code : UInt8) (halfWidth : 0xA1 ≤ code ∧ code ≤ 0xDF)
  | jisX0212 (lead trail : UInt8) (plane : IsPlaneByte lead ∧ IsPlaneByte trail)
deriving DecidableEq

namespace EucChar

def bytes : EucChar → Bytes
  | newline => [0x0A]
  | ascii c _ => [c]
  | jisX0208 lead trail _ => [lead, trail]
  | kana code _ => [0x8E, code]
  | jisX0212 lead trail _ => [0x8F, lead, trail]

/-- The characters of three bytes. -/
def isJisX0212 : EucChar → Bool
  | jisX0212 _ _ _ => true
  | _ => false

end EucChar

/-- The bytes of a text. -/
def encodeEuc (text : List EucChar) : Bytes := text.flatMap EucChar.bytes

/-- The line of each character, counted from a line on. -/
def lineNumbers : Nat → List EucChar → List Nat
  | _, [] => []
  | line, .newline :: rest => lineNumbers (line + 1) rest
  | line, _ :: rest => line :: lineNumbers line rest

def lineBreaks (text : List EucChar) : Nat := text.count .newline

/-- The characters that are part of no `%s`. -/
def outsideSpecifiers : List EucChar → Nat
  | [] => 0
  | [_] => 1
  | c :: next :: rest =>
      if c.bytes = [0x25] ∧ next.bytes = [0x73] then outsideSpecifiers rest
      else outsideSpecifiers (next :: rest) + 1

theorem encodeEuc_cons (c : EucChar) (rest : List EucChar) :
    encodeEuc (c :: rest) = c.bytes ++ encodeEuc rest := List.flatMap_cons

namespace EucChar

/-- A character of at most two bytes is one below `0x80` or one from `0x80` on with a
second. -/
inductive Shape : EucChar → Prop
  | newline : Shape newline
  | single {character : EucChar} {c : UInt8} (bytes : character.bytes = [c]) (low : ¬ c ≥ 0x80)
      (other : c ≠ 0x0A) (noBreak : character ≠ newline) : Shape character
  | double {character : EucChar} {lead trail : UInt8} (bytes : character.bytes = [lead, trail])
      (high : lead ≥ 0x80) (other : lead ≠ 0x0A) (noBreak : character ≠ newline) :
      Shape character

theorem shape {character : EucChar} (short : character.isJisX0212 = false) :
    Shape character := by
  cases character with
  | newline => exact Shape.newline
  | ascii c single =>
      exact Shape.single rfl (UInt8.not_le.mpr single.1) single.2 EucChar.noConfusion
  | jisX0208 lead trail plane =>
      have high : (0x80 : UInt8) ≤ lead := UInt8.le_trans (by decide) plane.1.1
      refine Shape.double rfl high ?_ EucChar.noConfusion
      intro same
      subst same
      exact absurd high (by decide)
  | kana code halfWidth => exact Shape.double rfl (by decide) (by decide) EucChar.noConfusion
  | jisX0212 lead trail plane => cases short

end EucChar

end StadiumRecomp.Lib
