import StadiumRecomp.Lib.PyInt
import StadiumRecomp.Lib.Utf8

/-!
Contract: the string literals of a C source.

Owns: which texts stand between quotes outside comments, the bytes that a literal with hexadecimal
escapes stands for, and that bytes written as escapes are read back.

Does not own: block comments, character constants and the other escapes.
-/

set_option autoImplicit false

namespace StadiumRecomp.Lib.CLiteral

open StadiumRecomp.Lib

/-! ## Literals -/

/-- Where a lexer stands; inside a literal, with what it has read of it. -/
inductive Place where
  | code
  | comment
  | literal (body : Text)

/-- The literals from a place on. -/
def literals : Place → Text → List Text
  | _, [] => []
  | .code, '/' :: '/' :: rest => literals .comment rest
  | .code, symbol :: rest =>
      if symbol = '"' then literals (.literal []) rest else literals .code rest
  | .comment, symbol :: rest =>
      if symbol = '\n' then literals .code rest else literals .comment rest
  | .literal body, symbol :: rest =>
      if symbol = '"' then body :: literals .code rest
      else literals (.literal (body ++ [symbol])) rest

/-- Code in which nothing opens a literal or a comment. -/
def Bare (text : Text) : Prop := ∀ symbol ∈ text, symbol ≠ '"' ∧ symbol ≠ '/'

instance (text : Text) : Decidable (Bare text) := List.decidableBAll _ text

theorem literals_code {text : Text} (bare : Bare text) (rest : Text) :
    literals .code (text ++ rest) = literals .code rest := by
  induction text with
  | nil => rfl
  | cons symbol text inductionHypothesis =>
      obtain ⟨noQuote, noSlash⟩ := bare symbol List.mem_cons_self
      have skipped : literals .code (symbol :: (text ++ rest)) = literals .code (text ++ rest) := by
        rw [literals, if_neg noQuote]
        exact fun _ same => absurd same noSlash
      exact skipped.trans (inductionHypothesis fun other member =>
        bare other (List.mem_cons_of_mem _ member))

theorem literals_comment {text : Text} (oneLine : '\n' ∉ text) (rest : Text) :
    literals .comment (text ++ '\n' :: rest) = literals .code rest := by
  induction text with
  | nil => rfl
  | cons symbol text inductionHypothesis =>
      obtain ⟨here, later⟩ := List.ne_and_not_mem_of_not_mem_cons oneLine
      rw [List.cons_append, literals, if_neg (Ne.symm here)]
      exact inductionHypothesis later

theorem literals_body {text : Text} (plain : '"' ∉ text) (body rest : Text) :
    literals (.literal body) (text ++ '"' :: rest) = (body ++ text) :: literals .code rest := by
  induction text generalizing body with
  | nil =>
      rw [List.append_nil]
      rfl
  | cons symbol text inductionHypothesis =>
      obtain ⟨here, later⟩ := List.ne_and_not_mem_of_not_mem_cons plain
      rw [List.cons_append, literals, if_neg (Ne.symm here), inductionHypothesis later,
        List.append_assoc]
      rfl

/-- A literal in the code is found. -/
theorem literals_quoted {text : Text} (plain : '"' ∉ text) (rest : Text) :
    literals .code ('"' :: (text ++ '"' :: rest)) = text :: literals .code rest := by
  have opened : literals .code ('"' :: (text ++ '"' :: rest)) =
      literals (.literal []) (text ++ '"' :: rest) := by
    rw [literals, if_pos rfl]
    exact fun _ same => absurd same (by decide)
  rw [opened, literals_body plain, List.nil_append]

/-! ## Bytes of a literal -/

/-- The bytes of a body, with the escape being read: it takes every hexadecimal digit that
follows. -/
def bytes : Option Nat → Text → Bytes
  | none, [] => []
  | some value, [] => [UInt8.ofNat value]
  | none, '\\' :: 'x' :: rest => bytes (some 0) rest
  | none, symbol :: rest => String.utf8EncodeChar symbol ++ bytes none rest
  | some value, '\\' :: 'x' :: rest => UInt8.ofNat value :: bytes (some 0) rest
  | some value, symbol :: rest =>
      match PyInt.digitVal 16 symbol with
      | some digit => bytes (some (value * 16 + digit)) rest
      | none => UInt8.ofNat value :: (String.utf8EncodeChar symbol ++ bytes none rest)

/-- `\xHH`. -/
def escape (byte : UInt8) : Text :=
  ['\\', 'x', (Nat.digitChar (byte.toNat / 16)).toUpper, (Nat.digitChar (byte.toNat % 16)).toUpper]

theorem bytes_digits (byte : UInt8) (rest : Text) :
    bytes (some 0) ((Nat.digitChar (byte.toNat / 16)).toUpper ::
      (Nat.digitChar (byte.toNat % 16)).toUpper :: rest) = bytes (some byte.toNat) rest := by
  have small := byte.toNat_lt
  have high := PyInt.digitVal_upper_digitChar (by omega : byte.toNat / 16 < 16)
  have low := PyInt.digitVal_upper_digitChar (by omega : byte.toNat % 16 < 16)
  have step : ∀ (value digit : Nat) (symbol : Char) (behind : Text),
      PyInt.digitVal 16 symbol = some digit →
      bytes (some value) (symbol :: behind) = bytes (some (value * 16 + digit)) behind := by
    intro value digit symbol behind read
    rw [bytes, read]
    rintro _ rfl _
    have noDigit : PyInt.digitVal 16 '\\' = none := by decide
    rw [noDigit] at read
    cases read
  rw [step 0 _ _ _ high, step _ _ _ _ low]
  congr 2
  omega

theorem bytes_some_escape (byte : UInt8) (written : Bytes) :
    bytes (some byte.toNat) (written.flatMap escape) = byte :: written := by
  induction written generalizing byte with
  | nil => exact congrArg (· :: []) UInt8.ofNat_toNat
  | cons next written inductionHypothesis =>
      rw [List.flatMap_cons]
      show UInt8.ofNat byte.toNat :: bytes (some 0) (_ :: _ :: written.flatMap escape) = _
      rw [bytes_digits, inductionHypothesis next, UInt8.ofNat_toNat]

/-- Escapes are read back. -/
theorem bytes_escape (written : Bytes) : bytes none (written.flatMap escape) = written := by
  cases written with
  | nil => rfl
  | cons first written =>
      rw [List.flatMap_cons]
      show bytes (some 0) (_ :: _ :: written.flatMap escape) = _
      rw [bytes_digits, bytes_some_escape]

theorem quote_not_mem_escape (byte : UInt8) : '"' ∉ escape byte := by
  have small := byte.toNat_lt
  have noDigit : PyInt.digitVal 16 '"' = none := by decide
  have digit : ∀ value, value < 16 → '"' ≠ (Nat.digitChar value).toUpper := by
    intro value below same
    have read := PyInt.digitVal_upper_digitChar below
    rw [← same, noDigit] at read
    cases read
  unfold escape
  simp only [List.mem_cons, List.not_mem_nil, or_false, not_or]
  exact ⟨by decide, by decide, digit _ (by omega), digit _ (by omega)⟩

end StadiumRecomp.Lib.CLiteral
