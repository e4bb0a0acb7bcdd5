import StadiumRecomp.Lib.Text
import Mathlib.Tactic.IntervalCases
import Mathlib.Tactic.NormNum

/-!
Contract: Python's integer literals and its `%x` family.

Owns: `int(s)`, `int(s, 0)` and `int(s, 16)` over ASCII digits (blanks, sign, radix
prefix, single underscores between digits, no leading zeros in a bare decimal
literal), `str` and the `0x%08x`, `0x%x` and `0x%08X` conversions, and the law that
reading a written non-negative number gives the number back.

Does not own: which files hold such literals.
-/

set_option autoImplicit false

namespace StadiumRecomp.Lib.PyInt

open StadiumRecomp.Lib

/-- `str.isspace` for one character: the blanks of `strip` and `split`. -/
def pySpace (symbol : Char) : Bool :=
  let code := symbol.toNat
  (9 ≤ code && code ≤ 13) || (28 ≤ code && code ≤ 32) || code == 0x85 ||
    code == 0xA0 || code == 0x1680 || (0x2000 ≤ code && code ≤ 0x200A) ||
    code == 0x2028 || code == 0x2029 || code == 0x202F || code == 0x205F ||
    code == 0x3000

/-! ## Reading -/

/-- Value of one ASCII digit or letter as a digit below `base`. -/
def digitVal (base : Nat) (symbol : Char) : Option Nat :=
  let code := symbol.toNat
  let value :=
    if 48 ≤ code ∧ code ≤ 57 then some (code - 48)
    else if 97 ≤ code ∧ code ≤ 122 then some (code - 87)
    else if 65 ≤ code ∧ code ≤ 90 then some (code - 55)
    else none
  value.filter (fun digit => digit < base)

/-- Digits after the first one; an underscore must stand between two digits. -/
def readDigits (base : Nat) : Nat → Text → Option Nat
  | value, [] => some value
  | value, '_' :: symbol :: rest =>
      (digitVal base symbol).bind fun digit =>
        readDigits base (value * base + digit) rest
  | value, symbol :: rest =>
      (digitVal base symbol).bind fun digit =>
        readDigits base (value * base + digit) rest

/-- A non-empty run of digits. -/
def natLiteral (base : Nat) : Text → Option Nat
  | [] => none
  | symbol :: rest => (digitVal base symbol).bind fun digit =>
      readDigits base digit rest

/-- One underscore may follow a radix prefix. -/
def skipUnderscore : Text → Text
  | '_' :: rest => rest
  | body => body

/-- An unsigned literal with its radix taken from its prefix. -/
def unsigned0 : Text → Option Nat
  | '0' :: 'x' :: rest | '0' :: 'X' :: rest => natLiteral 16 (skipUnderscore rest)
  | '0' :: 'o' :: rest | '0' :: 'O' :: rest => natLiteral 8 (skipUnderscore rest)
  | '0' :: 'b' :: rest | '0' :: 'B' :: rest => natLiteral 2 (skipUnderscore rest)
  | '0' :: rest => (natLiteral 10 ('0' :: rest)).filter (fun value => value = 0)
  | body => natLiteral 10 body

/-- An unsigned hexadecimal literal, with or without `0x`. -/
def unsigned16 : Text → Option Nat
  | '0' :: 'x' :: rest | '0' :: 'X' :: rest => natLiteral 16 (skipUnderscore rest)
  | body => natLiteral 16 body

/-- Blanks, then an optional sign, then an unsigned literal. -/
def signed (unsigned : Text → Option Nat) (literal : Text) : Option Int :=
  match Text.strip pySpace literal with
  | '-' :: body => (unsigned body).map (fun value => -(value : Int))
  | '+' :: body => (unsigned body).map (fun value => (value : Int))
  | body => (unsigned body).map (fun value => (value : Int))

/-- `int(s, 0)`. -/
def int0 (literal : Text) : Option Int := signed unsigned0 literal

/-- `int(s, 16)`. -/
def int16 (literal : Text) : Option Int := signed unsigned16 literal

/-! ## Writing -/

/-- Left-pad with zeros to `width`. -/
def zeroPad (width : Nat) (digits : Text) : Text :=
  List.replicate (width - digits.length) '0' ++ digits

/-- `%0<width>x` for any integer; the sign takes part of the width. -/
def hexPadded (width : Nat) (value : Int) : Text :=
  if value < 0 then '-' :: zeroPad (width - 1) (Nat.toDigits 16 value.natAbs)
  else zeroPad width (Nat.toDigits 16 value.natAbs)

/-- `"0x%08x" % value`. -/
def fmtHex08 (value : Int) : Text := '0' :: 'x' :: hexPadded 8 value

/-- `"0x%x" % value`. -/
def fmtHex (value : Int) : Text := '0' :: 'x' :: hexPadded 0 value

/-- `f"0x{value:08X}"`. -/
def fmtHEX08 (value : Int) : Text :=
  '0' :: 'x' :: (hexPadded 8 value).map Char.toUpper

/-! ## Reading back what was written -/

/-- A lower-case or upper-case hexadecimal digit. -/
def isHexDigit (symbol : Char) : Bool := (digitVal 16 symbol).isSome

theorem digitVal_digitChar {digit : Nat} (small : digit < 16) :
    digitVal 16 (Nat.digitChar digit) = some digit := by
  interval_cases digit <;> rfl

theorem digitVal_upper_digitChar {digit : Nat} (small : digit < 16) :
    digitVal 16 (Nat.digitChar digit).toUpper = some digit := by
  interval_cases digit <;> rfl

/-- Reading digit by digit, as long as every symbol is a digit. -/
theorem readDigits_append_digit {base value digit result : Nat} {symbol : Char}
    (isDigit : digitVal base symbol = some digit) (digits : Text)
    (read : readDigits base value digits = some result)
    (plain : ∀ other ∈ digits, (digitVal base other).isSome) :
    readDigits base value (digits ++ [symbol]) = some (result * base + digit) := by
  have noUnderscore : digitVal base '_' = none := by
    simp [digitVal]
  have notUnderscore : ∀ other : Char, (digitVal base other).isSome →
      other ≠ '_' := by
    intro other isSome equal
    rw [equal, noUnderscore] at isSome
    simp at isSome
  have symbolPlain : symbol ≠ '_' :=
    notUnderscore symbol (by rw [isDigit]; rfl)
  induction digits generalizing value with
  | nil =>
      simp only [readDigits, Option.some.injEq] at read
      subst read
      rw [List.nil_append, readDigits.eq_3 _ _ _ _ (by simp [symbolPlain])]
      simp [isDigit, readDigits]
  | cons head rest inductionHypothesis =>
      have headPlain := notUnderscore head (plain head (by simp))
      have tailPlain : ∀ other ∈ rest, (digitVal base other).isSome :=
        fun other member => plain other (by simp [member])
      rw [readDigits.eq_3 _ _ _ _ (by simp [headPlain])] at read
      rw [List.cons_append, readDigits.eq_3 _ _ _ _ (by simp [headPlain])]
      cases headDigit : digitVal base head with
      | none => simp [headDigit] at read
      | some first =>
          rw [headDigit] at read
          simp only [Option.bind_some] at read ⊢
          exact inductionHypothesis read tailPlain

theorem natLiteral_append_digit {base digit result : Nat} {symbol : Char}
    (isDigit : digitVal base symbol = some digit) {digits : Text}
    (nonempty : digits ≠ []) (read : natLiteral base digits = some result)
    (plain : ∀ other ∈ digits, (digitVal base other).isSome) :
    natLiteral base (digits ++ [symbol]) = some (result * base + digit) := by
  cases digits with
  | nil => exact absurd rfl nonempty
  | cons head rest =>
      simp only [natLiteral] at read
      simp only [List.cons_append, natLiteral]
      cases headDigit : digitVal base head with
      | none => simp [headDigit] at read
      | some first =>
          rw [headDigit] at read
          simp only [Option.bind_some] at read ⊢
          exact readDigits_append_digit isDigit rest read
            (fun other member => plain other (by simp [member]))

/-- A map on symbols that keeps hexadecimal digit values: identity for `%x`,
`Char.toUpper` for `%X`. -/
def KeepsDigits (transform : Char → Char) : Prop :=
  ∀ digit, digit < 16 →
    digitVal 16 (transform (Nat.digitChar digit)) = some digit

theorem keepsDigits_id : KeepsDigits id := fun _ small =>
  digitVal_digitChar small

theorem keepsDigits_toUpper : KeepsDigits Char.toUpper := fun _ small =>
  digitVal_upper_digitChar small

theorem digitVal_of_mem_toDigits {transform : Char → Char}
    (keeps : KeepsDigits transform) (value : Nat) :
    ∀ symbol ∈ (Nat.toDigits 16 value).map transform,
      (digitVal 16 symbol).isSome := by
  induction value using Nat.strongRecOn with
  | ind value inductionHypothesis =>
      intro symbol member
      rw [Nat.toDigits_eq_if (by decide)] at member
      by_cases small : value < 16
      · rw [if_pos small] at member
        simp only [List.map_cons, List.map_nil, List.mem_singleton] at member
        rw [member, keeps value small]
        rfl
      · rw [if_neg small, List.map_append, List.mem_append] at member
        rcases member with member | member
        · exact inductionHypothesis (value / 16) (by omega) symbol member
        · simp only [List.map_cons, List.map_nil, List.mem_singleton] at member
          rw [member, keeps (value % 16) (Nat.mod_lt _ (by decide))]
          rfl

theorem natLiteral_toDigits {transform : Char → Char}
    (keeps : KeepsDigits transform) (value : Nat) :
    natLiteral 16 ((Nat.toDigits 16 value).map transform) = some value := by
  induction value using Nat.strongRecOn with
  | ind value inductionHypothesis =>
      rw [Nat.toDigits_eq_if (by decide)]
      by_cases small : value < 16
      · rw [if_pos small]
        simp [natLiteral, keeps value small, readDigits]
      · rw [if_neg small, List.map_append, List.map_cons, List.map_nil]
        have smaller : value / 16 < value := by omega
        have digit := keeps (value % 16) (Nat.mod_lt _ (by decide))
        rw [natLiteral_append_digit digit (by simp [Nat.toDigits_ne_nil])
          (inductionHypothesis (value / 16) smaller)
          (digitVal_of_mem_toDigits keeps (value / 16))]
        congr 1
        omega

theorem natLiteral_zero_cons {digits : Text} {value : Nat}
    (nonempty : digits ≠ [])
    (plain : ∀ other ∈ digits, (digitVal 16 other).isSome)
    (read : natLiteral 16 digits = some value) :
    natLiteral 16 ('0' :: digits) = some value := by
  cases digits with
  | nil => exact absurd rfl nonempty
  | cons head rest =>
      have headPlain : head ≠ '_' := by
        intro equal
        have isSome := plain head (by simp)
        rw [equal] at isSome
        simp [digitVal] at isSome
      have zeroDigit : digitVal 16 '0' = some 0 := rfl
      simp only [natLiteral] at read
      simp only [natLiteral, zeroDigit, Option.bind_some]
      rw [readDigits.eq_3 _ _ _ _ (by simp [headPlain])]
      simpa using read

theorem natLiteral_zeroPad {transform : Char → Char}
    (keeps : KeepsDigits transform) (zeroFixed : transform '0' = '0')
    (width value : Nat) :
    natLiteral 16 ((zeroPad width (Nat.toDigits 16 value)).map transform) =
      some value := by
  unfold zeroPad
  rw [List.map_append, List.map_replicate, zeroFixed]
  generalize width - (Nat.toDigits 16 value).length = padding
  have plainDigits := digitVal_of_mem_toDigits keeps value
  induction padding with
  | zero => simpa using natLiteral_toDigits keeps value
  | succ padding inductionHypothesis =>
      rw [List.replicate_succ, List.cons_append]
      refine natLiteral_zero_cons (by simp [Nat.toDigits_ne_nil]) ?_
        inductionHypothesis
      intro other member
      rcases List.mem_append.mp member with zero | digit
      · rw [List.eq_of_mem_replicate zero]
        rfl
      · exact plainDigits other digit

/-- Every symbol of a written number is a hexadecimal digit or its sign. -/
theorem symbol_of_mem_hexPadded {transform : Char → Char}
    (keeps : KeepsDigits transform) (zeroFixed : transform '0' = '0')
    (minusFixed : transform '-' = '-') (width : Nat) (value : Int) {symbol : Char}
    (member : symbol ∈ (hexPadded width value).map transform) :
    isHexDigit symbol = true ∨ (value < 0 ∧ symbol = '-') := by
  have digits : ∀ width, symbol ∈
      (zeroPad width (Nat.toDigits 16 value.natAbs)).map transform →
      isHexDigit symbol = true := by
    intro width inside
    simp only [zeroPad, List.map_append, List.map_replicate, zeroFixed,
      List.mem_append] at inside
    rcases inside with zero | digit
    · rw [List.eq_of_mem_replicate zero]
      rfl
    · exact digitVal_of_mem_toDigits keeps value.natAbs symbol digit
  unfold hexPadded at member
  by_cases negative : value < 0
  · rw [if_pos negative, List.map_cons, minusFixed] at member
    rcases List.mem_cons.mp member with sign | inside
    · exact Or.inr ⟨negative, sign⟩
    · exact Or.inl (digits _ inside)
  · rw [if_neg negative] at member
    exact Or.inl (digits _ member)

theorem not_pySpace_of_isHexDigit {symbol : Char}
    (hex : isHexDigit symbol = true) : pySpace symbol = false := by
  unfold isHexDigit digitVal at hex
  unfold pySpace
  generalize symbol.toNat = code at hex ⊢
  simp only at hex
  split at hex
  · simp
    omega
  · split at hex
    · simp
      omega
    · split at hex
      · simp
        omega
      · simp at hex

/-- The shared shape of the written forms: `0x` and hexadecimal digits. -/
theorem signed_hex {unsigned : Text → Option Nat} {body : Text}
    (unsignedHex : unsigned ('0' :: 'x' :: body) =
      natLiteral 16 (skipUnderscore body))
    (plain : ∀ symbol ∈ body, pySpace symbol = false ∧ symbol ≠ '_') :
    signed unsigned ('0' :: 'x' :: body) =
      (natLiteral 16 body).map (fun value : Nat => (value : Int)) := by
  have trimmed : Text.strip pySpace ('0' :: 'x' :: body) = '0' :: 'x' :: body := by
    apply Text.strip_eq_self_of_forall
    intro symbol member
    simp only [List.mem_cons] at member
    rcases member with rfl | rfl | member
    · rfl
    · rfl
    · exact (plain symbol member).1
  have noUnderscore : skipUnderscore body = body := by
    cases body with
    | nil => rfl
    | cons head rest =>
        have headPlain := (plain head (by simp)).2
        unfold skipUnderscore
        split
        next equation =>
          simp only [List.cons.injEq] at equation
          exact absurd equation.1 headPlain
        next => rfl
  unfold signed
  rw [trimmed]
  rw [noUnderscore] at unsignedHex
  cases read : natLiteral 16 body <;> simp [unsignedHex, read]

private theorem hexPadded_plain {transform : Char → Char}
    (keeps : KeepsDigits transform) (zeroFixed : transform '0' = '0')
    (minusFixed : transform '-' = '-') (width : Nat) (value : Int) :
    ∀ symbol ∈ (hexPadded width value).map transform,
      pySpace symbol = false ∧ symbol ≠ '_' := by
  intro symbol member
  rcases symbol_of_mem_hexPadded keeps zeroFixed minusFixed width value member with
    hex | ⟨_, rfl⟩
  · refine ⟨not_pySpace_of_isHexDigit hex, ?_⟩
    rintro rfl
    simp [isHexDigit, digitVal] at hex
  · exact ⟨rfl, by decide⟩

theorem natLiteral_hexPadded {transform : Char → Char}
    (keeps : KeepsDigits transform) (zeroFixed : transform '0' = '0')
    (width value : Nat) :
    natLiteral 16 ((hexPadded width (value : Int)).map transform) = some value := by
  have nonneg : ¬ (value : Int) < 0 := by omega
  simp only [hexPadded, nonneg, if_false, Int.natAbs_natCast]
  exact natLiteral_zeroPad keeps zeroFixed width value

/-- Both readers recover any written non-negative number. -/
theorem int0_hexPadded {transform : Char → Char} (keeps : KeepsDigits transform)
    (zeroFixed : transform '0' = '0') (minusFixed : transform '-' = '-')
    (width value : Nat) :
    int0 ('0' :: 'x' :: (hexPadded width (value : Int)).map transform) =
      some (value : Int) := by
  unfold int0
  rw [signed_hex rfl (hexPadded_plain keeps zeroFixed minusFixed width value),
    natLiteral_hexPadded keeps zeroFixed]
  rfl

theorem int16_hexPadded {transform : Char → Char} (keeps : KeepsDigits transform)
    (zeroFixed : transform '0' = '0') (minusFixed : transform '-' = '-')
    (width value : Nat) :
    int16 ('0' :: 'x' :: (hexPadded width (value : Int)).map transform) =
      some (value : Int) := by
  unfold int16
  rw [signed_hex rfl (hexPadded_plain keeps zeroFixed minusFixed width value),
    natLiteral_hexPadded keeps zeroFixed]
  rfl

theorem int0_fmtHex08 (value : Nat) : int0 (fmtHex08 value) = some (value : Int) := by
  simpa [fmtHex08] using int0_hexPadded keepsDigits_id rfl rfl 8 value

theorem int0_fmtHex (value : Nat) : int0 (fmtHex value) = some (value : Int) := by
  simpa [fmtHex] using int0_hexPadded keepsDigits_id rfl rfl 0 value

theorem int16_fmtHex08 (value : Nat) : int16 (fmtHex08 value) = some (value : Int) := by
  simpa [fmtHex08] using int16_hexPadded keepsDigits_id rfl rfl 8 value

theorem int16_fmtHex (value : Nat) : int16 (fmtHex value) = some (value : Int) := by
  simpa [fmtHex] using int16_hexPadded keepsDigits_id rfl rfl 0 value

theorem int16_fmtHEX08 (value : Nat) : int16 (fmtHEX08 value) = some (value : Int) :=
  int16_hexPadded keepsDigits_toUpper rfl rfl 8 value

/-- Different numbers are written differently. -/
theorem fmtHEX08_injective : Function.Injective fmtHEX08 := by
  intro left right same
  have digits : (hexPadded 8 left).map Char.toUpper = (hexPadded 8 right).map Char.toUpper :=
    (List.cons.inj (List.cons.inj same).2).2
  -- A sign is no digit, so both numbers are negative or neither is.
  have signed : ∀ {value other : Int}, value < 0 →
      (hexPadded 8 value).map Char.toUpper = (hexPadded 8 other).map Char.toUpper →
      other < 0 := by
    intro value other negative written
    have sign : '-' ∈ (hexPadded 8 other).map Char.toUpper := by
      rw [← written, hexPadded, if_pos negative]
      exact List.mem_cons_self
    rcases symbol_of_mem_hexPadded keepsDigits_toUpper rfl rfl 8 other sign with
      hex | ⟨otherNegative, _⟩
    · exact absurd hex (by decide)
    · exact otherNegative
  by_cases negative : left < 0
  · have rightNegative := signed negative digits
    rw [hexPadded, hexPadded, if_pos negative, if_pos rightNegative] at digits
    have read := congrArg (natLiteral 16) (List.cons.inj digits).2
    rw [natLiteral_zeroPad keepsDigits_toUpper rfl,
      natLiteral_zeroPad keepsDigits_toUpper rfl, Option.some.injEq] at read
    omega
  · have rightNonneg : ¬ right < 0 := fun rightNegative =>
      negative (signed rightNegative digits.symm)
    obtain ⟨leftValue, rfl⟩ := Int.eq_ofNat_of_zero_le (Int.not_lt.mp negative)
    obtain ⟨rightValue, rfl⟩ := Int.eq_ofNat_of_zero_le (Int.not_lt.mp rightNonneg)
    have read := congrArg int16 same
    rw [int16_fmtHEX08, int16_fmtHEX08, Option.some.injEq] at read
    exact read

/-- A written negative number is not a literal: its sign follows the prefix. -/
theorem int0_fmtHex08_negative {value : Int} (negative : value < 0) :
    int0 (fmtHex08 value) = none := by
  have plain := hexPadded_plain keepsDigits_id rfl rfl 8 value
  rw [List.map_id] at plain
  unfold int0 fmtHex08
  rw [signed_hex rfl plain]
  have signFirst : hexPadded 8 value =
      '-' :: zeroPad 7 (Nat.toDigits 16 value.natAbs) := by
    simp [hexPadded, negative]
  rw [signFirst]
  simp [natLiteral, digitVal]

/-- The symbols of a written number: hexadecimal digits, `x` and a sign. -/
theorem symbol_of_mem_fmtHex08 {value : Int} {symbol : Char}
    (member : symbol ∈ fmtHex08 value) :
    isHexDigit symbol = true ∨ symbol = 'x' ∨ symbol = '-' := by
  simp only [fmtHex08, List.mem_cons] at member
  rcases member with rfl | rfl | member
  · exact Or.inl rfl
  · exact Or.inr (Or.inl rfl)
  · rcases symbol_of_mem_hexPadded keepsDigits_id rfl rfl 8 value
      (by simpa using member) with hex | ⟨_, sign⟩
    · exact Or.inl hex
    · exact Or.inr (Or.inr sign)

theorem symbol_of_mem_fmtHex {value : Int} {symbol : Char}
    (member : symbol ∈ fmtHex value) :
    isHexDigit symbol = true ∨ symbol = 'x' ∨ symbol = '-' := by
  simp only [fmtHex, List.mem_cons] at member
  rcases member with rfl | rfl | member
  · exact Or.inl rfl
  · exact Or.inr (Or.inl rfl)
  · rcases symbol_of_mem_hexPadded keepsDigits_id rfl rfl 0 value
      (by simpa using member) with hex | ⟨_, sign⟩
    · exact Or.inl hex
    · exact Or.inr (Or.inr sign)

/-- Written numbers hold no blank, line break, carriage return or comment mark. -/
theorem plain_of_number_symbol {symbol : Char}
    (shape : isHexDigit symbol = true ∨ symbol = 'x' ∨ symbol = '-') :
    pySpace symbol = false ∧ symbol ≠ '\n' ∧ symbol ≠ '\r' ∧ symbol ≠ '#' := by
  rcases shape with hex | rfl | rfl
  · have notBlank := not_pySpace_of_isHexDigit hex
    refine ⟨notBlank, ?_, ?_, ?_⟩
    · rintro rfl
      simp [pySpace] at notBlank
    · rintro rfl
      simp [pySpace] at notBlank
    · rintro rfl
      simp [isHexDigit, digitVal] at hex
  · decide
  · decide

theorem isHexDigit_of_mem_toDigits {value : Nat} {symbol : Char}
    (member : symbol ∈ Nat.toDigits 16 value) : isHexDigit symbol = true :=
  digitVal_of_mem_toDigits keepsDigits_id value symbol (by rwa [List.map_id])

/-- A literal of hexadecimal digits has neither sign nor radix prefix. -/
theorem int16_of_hexDigits {digits : Text}
    (hex : ∀ symbol ∈ digits, isHexDigit symbol = true) :
    int16 digits = (natLiteral 16 digits).map (fun value : Nat => (value : Int)) := by
  have trimmed : Text.strip pySpace digits = digits :=
    Text.strip_eq_self_of_forall
      (fun symbol member => not_pySpace_of_isHexDigit (hex symbol member))
  have noPrefix : unsigned16 digits = natLiteral 16 digits := by
    unfold unsigned16
    split
    next rest => exact absurd (hex 'x' (by simp)) (by decide)
    next rest => exact absurd (hex 'X' (by simp)) (by decide)
    next => rfl
  unfold int16 signed
  rw [trimmed]
  split
  next body => exact absurd (hex '-' List.mem_cons_self) (by decide)
  next body => exact absurd (hex '+' List.mem_cons_self) (by decide)
  next =>
    rw [noPrefix]
    cases natLiteral 16 digits <;> rfl

theorem int16_toDigits (value : Nat) :
    int16 (Nat.toDigits 16 value) = some (value : Int) := by
  have read := natLiteral_toDigits keepsDigits_id value
  rw [List.map_id] at read
  rw [int16_of_hexDigits (fun _ => isHexDigit_of_mem_toDigits), read]
  rfl

/-- Digits alone make no negative number. -/
theorem nonneg_of_int16 {digits : Text} (hex : ∀ symbol ∈ digits, isHexDigit symbol = true)
    {value : Int} (read : int16 digits = some value) : 0 ≤ value := by
  rw [int16_of_hexDigits hex] at read
  obtain ⟨natural, _, rfl⟩ := Option.map_eq_some_iff.mp read
  exact Int.natCast_nonneg natural

/-! ## Decimals -/

/-- `int(s)`. -/
def int10 (literal : Text) : Option Int := signed (natLiteral 10) literal

/-- `str(value)`. -/
def decimal (value : Int) : Text :=
  if value < 0 then '-' :: Nat.toDigits 10 value.natAbs else Nat.toDigits 10 value.natAbs

/-- `str.isdigit`, over ASCII. -/
def isDigits (text : Text) : Bool :=
  !text.isEmpty && text.all fun symbol => (digitVal 10 symbol).isSome

theorem digitVal_decimal_digitChar {digit : Nat} (small : digit < 10) :
    digitVal 10 (Nat.digitChar digit) = some digit := by
  interval_cases digit <;> rfl

theorem digitVal_of_mem_decimal {value : Nat} {symbol : Char}
    (member : symbol ∈ Nat.toDigits 10 value) : (digitVal 10 symbol).isSome := by
  induction value using Nat.strongRecOn with
  | ind value inductionHypothesis =>
      rw [Nat.toDigits_eq_if (by decide)] at member
      by_cases small : value < 10
      · rw [if_pos small, List.mem_singleton] at member
        rw [member, digitVal_decimal_digitChar small]
        rfl
      · rw [if_neg small, List.mem_append, List.mem_singleton] at member
        rcases member with front | last
        · exact inductionHypothesis (value / 10) (by omega) front
        · rw [last, digitVal_decimal_digitChar (Nat.mod_lt _ (by decide))]
          rfl

theorem natLiteral_decimal (value : Nat) : natLiteral 10 (Nat.toDigits 10 value) = some value := by
  induction value using Nat.strongRecOn with
  | ind value inductionHypothesis =>
      rw [Nat.toDigits_eq_if (by decide)]
      by_cases small : value < 10
      · rw [if_pos small]
        simp [natLiteral, digitVal_decimal_digitChar small, readDigits]
      · have smaller : value / 10 < value := by omega
        have digit := digitVal_decimal_digitChar (Nat.mod_lt value (by decide : 0 < 10))
        rw [if_neg small, natLiteral_append_digit digit Nat.toDigits_ne_nil
          (inductionHypothesis (value / 10) smaller) (fun _ member => digitVal_of_mem_decimal member)]
        congr 1
        omega

/-- A decimal digit is no blank and no sign. -/
theorem plain_of_decimalDigit {symbol : Char} (digit : (digitVal 10 symbol).isSome) :
    pySpace symbol = false ∧ symbol ≠ '-' ∧ symbol ≠ '+' := by
  have hex : isHexDigit symbol = true := by
    obtain ⟨value, read⟩ := Option.isSome_iff_exists.mp digit
    unfold digitVal at read
    obtain ⟨shape, small⟩ := Option.filter_eq_some_iff.mp read
    unfold isHexDigit digitVal
    simp only at shape ⊢
    rw [shape]
    have below : value < 10 := by simpa using small
    rw [Option.filter_some_pos (by simpa using Nat.lt_trans below (by decide : 10 < 16))]
    rfl
  refine ⟨not_pySpace_of_isHexDigit hex, ?_, ?_⟩
  · rintro rfl
    exact absurd digit (by decide)
  · rintro rfl
    exact absurd digit (by decide)

theorem decimal_natCast (value : Nat) : decimal value = Nat.toDigits 10 value := by
  unfold decimal
  rw [if_neg (by omega), Int.natAbs_natCast]

theorem int10_decimal (value : Nat) : int10 (decimal value) = some (value : Int) := by
  have plain (symbol : Char) (member : symbol ∈ Nat.toDigits 10 value) :=
    plain_of_decimalDigit (digitVal_of_mem_decimal member)
  have trimmed : Text.strip pySpace (Nat.toDigits 10 value) = Nat.toDigits 10 value :=
    Text.strip_eq_self_of_forall fun symbol member => (plain symbol member).1
  have read := natLiteral_decimal value
  rw [decimal_natCast]
  unfold int10 signed
  rw [trimmed]
  generalize Nat.toDigits 10 value = digits at plain read
  split
  next body => exact absurd rfl (plain '-' List.mem_cons_self).2.1
  next body => exact absurd rfl (plain '+' List.mem_cons_self).2.2
  next =>
    rw [read]
    rfl

theorem isDigits_decimal (value : Nat) : isDigits (decimal value) = true := by
  rw [decimal_natCast]
  unfold isDigits
  rw [Bool.and_eq_true, List.all_eq_true]
  constructor
  · simp
  · intro symbol member
    exact digitVal_of_mem_decimal member

theorem not_pySpace_of_mem_decimal {value : Nat} {symbol : Char}
    (member : symbol ∈ decimal value) : pySpace symbol = false := by
  rw [decimal_natCast] at member
  exact (plain_of_decimalDigit (digitVal_of_mem_decimal member)).1

end StadiumRecomp.Lib.PyInt
