import StadiumRecomp.Lib.Text

/-!
Contract: byte strings as C and C++ code handles them, in the "C" locale.

Owns: `isspace`, `tolower`, `atoi`, fixed-size NUL-terminated buffers and
`snprintf("%s")` into one.

Does not own: text decoding; a byte above `0x7F` is just a byte.
-/

set_option autoImplicit false

namespace StadiumRecomp.Lib

/-- A `std::string`, or the characters of a C string before its NUL. -/
abbrev Bytes := List UInt8

namespace CString

/-- The bytes of a string literal. -/
def bytesOf (literal : String) : Bytes := literal.toUTF8.data.toList

/-- `isspace`. -/
def isSpace (byte : UInt8) : Bool := (9 ≤ byte && byte ≤ 13) || byte == 32

/-- `isdigit`. -/
def isDigit (byte : UInt8) : Bool := 0x30 ≤ byte && byte ≤ 0x39

/-- `tolower`. -/
def toLower (byte : UInt8) : UInt8 :=
  if 0x41 ≤ byte ∧ byte ≤ 0x5A then byte + 0x20 else byte

/-- `atoi`, for values in the range of `int`. -/
def atoi (text : Bytes) : Int :=
  let digits (rest : Bytes) : Nat :=
    (rest.takeWhile isDigit).foldl (fun value digit => value * 10 + (digit.toNat - 0x30)) 0
  match text.dropWhile isSpace with
  | 0x2D :: rest => -(digits rest : Int)
  | 0x2B :: rest => digits rest
  | rest => digits rest

/-! ## Decimals -/

/-- The bytes of a number in decimal. -/
def decimalDigits (value : Nat) : Bytes :=
  (Nat.toDigits 10 value).map fun digit => UInt8.ofNat digit.toNat

/-- The bytes of an integer in decimal. -/
def decimal (value : Int) : Bytes :=
  if value < 0 then 0x2D :: decimalDigits value.natAbs else decimalDigits value.natAbs

theorem digit_toNat {value : Nat} {digit : Char} (member : digit ∈ Nat.toDigits 10 value) :
    48 ≤ digit.toNat ∧ digit.toNat ≤ 57 := by
  have shown := Nat.isDigit_of_mem_toDigits (by decide) (by decide) member
  rw [Char.isDigit, Bool.and_eq_true, decide_eq_true_eq, decide_eq_true_eq] at shown
  exact ⟨shown.1, shown.2⟩

theorem isDigit_of_mem_decimalDigits {value : Nat} {byte : UInt8}
    (member : byte ∈ decimalDigits value) : isDigit byte = true := by
  obtain ⟨digit, inside, rfl⟩ := List.mem_map.mp member
  obtain ⟨low, high⟩ := digit_toNat inside
  have same : (UInt8.ofNat digit.toNat).toNat = digit.toNat := by
    rw [UInt8.toNat_ofNat']
    omega
  unfold isDigit
  rw [Bool.and_eq_true, decide_eq_true_eq, decide_eq_true_eq, UInt8.le_iff_toNat_le,
    UInt8.le_iff_toNat_le, same]
  exact ⟨low, high⟩

theorem foldl_decimalDigits (value : Nat) :
    (decimalDigits value).foldl (fun value digit => value * 10 + (digit.toNat - 0x30)) 0 =
      value := by
  have values : ∀ (digits : List Char) (start : Nat),
      (∀ digit ∈ digits, 48 ≤ digit.toNat ∧ digit.toNat ≤ 57) →
      (digits.map fun digit => UInt8.ofNat digit.toNat).foldl
          (fun value digit => value * 10 + (digit.toNat - 0x30)) start =
        Nat.ofDigitChars 10 digits start := by
    intro digits
    induction digits with
    | nil => exact fun start _ => rfl
    | cons digit digits inductionHypothesis =>
        intro start bounds
        obtain ⟨low, high⟩ := bounds digit List.mem_cons_self
        rw [List.map_cons, List.foldl_cons, Nat.ofDigitChars_cons, inductionHypothesis _
          (fun other member => bounds other (List.mem_cons_of_mem _ member)), UInt8.toNat_ofNat']
        congr 1
        show start * 10 + (digit.toNat % 2 ^ 8 - 48) = 10 * start + (digit.toNat - 48)
        omega
  unfold decimalDigits
  rw [values _ _ (fun digit member => digit_toNat member)]
  exact Nat.ofDigitChars_ten_toDigits

theorem decimalDigits_ne_nil (value : Nat) : decimalDigits value ≠ [] := by
  intro empty
  exact Nat.toDigits_ne_nil (List.map_eq_nil_iff.mp empty)

/-- Nothing but digits is taken from a decimal. -/
theorem takeWhile_decimalDigits (value : Nat) {rest : Bytes}
    (ends : ∀ byte ∈ rest.head?, isDigit byte = false) :
    (decimalDigits value ++ rest).takeWhile isDigit = decimalDigits value := by
  rw [List.takeWhile_append_of_pos (fun byte member => isDigit_of_mem_decimalDigits member)]
  cases rest with
  | nil => exact List.append_nil _
  | cons byte rest =>
      have stops := ends byte rfl
      rw [List.takeWhile_cons_of_neg (by rw [stops]; exact Bool.false_ne_true), List.append_nil]

theorem no_sign_of_isDigit {byte : UInt8} (digit : isDigit byte = true) :
    isSpace byte = false ∧ byte ≠ 0x2D ∧ byte ≠ 0x2B := by
  unfold isDigit at digit
  rw [Bool.and_eq_true, decide_eq_true_eq, decide_eq_true_eq, UInt8.le_iff_toNat_le,
    UInt8.le_iff_toNat_le] at digit
  obtain ⟨low, high⟩ := digit
  have from48 : 48 ≤ byte.toNat := low
  have to57 : byte.toNat ≤ 57 := high
  refine ⟨?_, ?_, ?_⟩
  · have above : ¬ byte ≤ 13 := by
      rw [UInt8.le_iff_toNat_le]
      show ¬ byte.toNat ≤ 13
      omega
    have notBlank : ¬ byte = 32 := by
      rintro rfl
      exact absurd from48 (by decide)
    unfold isSpace
    rw [decide_eq_false above, Bool.and_false, Bool.false_or]
    exact beq_eq_false_iff_ne.mpr notBlank
  · rintro rfl
    exact absurd from48 (by decide)
  · rintro rfl
    exact absurd from48 (by decide)

/-- `atoi` reads a decimal behind blanks, up to what is no digit. -/
theorem atoi_decimal (value : Int) {blanks rest : Bytes}
    (blank : ∀ byte ∈ blanks, isSpace byte = true)
    (ends : ∀ byte ∈ rest.head?, isDigit byte = false) :
    atoi (blanks ++ (decimal value ++ rest)) = value := by
  have digits := foldl_decimalDigits value.natAbs
  have taken := takeWhile_decimalDigits value.natAbs ends
  unfold atoi
  rw [List.dropWhile_append_of_pos blank]
  by_cases negative : value < 0
  · have shape : decimal value ++ rest = 0x2D :: (decimalDigits value.natAbs ++ rest) := by
      unfold decimal
      rw [if_pos negative]
      rfl
    rw [shape, List.dropWhile_cons_of_neg (by decide)]
    simp only [taken, digits]
    omega
  · obtain ⟨first, others, shape⟩ := List.exists_cons_of_ne_nil
      (decimalDigits_ne_nil value.natAbs)
    have digit : isDigit first = true := by
      apply @isDigit_of_mem_decimalDigits value.natAbs
      rw [shape]
      exact List.mem_cons_self
    obtain ⟨shown, noMinus, noPlus⟩ := no_sign_of_isDigit digit
    have same : decimal value ++ rest = first :: (others ++ rest) := by
      unfold decimal
      rw [if_neg negative, shape]
      rfl
    rw [same, List.dropWhile_cons_of_neg (by rw [shown]; exact Bool.false_ne_true)]
    rw [shape, List.cons_append] at taken
    rw [shape] at digits
    split
    next minus => exact absurd (List.cons.inj minus).1 noMinus
    next plus => exact absurd (List.cons.inj plus).1 noPlus
    next =>
      simp only [taken, digits]
      omega

/-- A C string held in a buffer of `room + 1` bytes. -/
structure FixedString (room : Nat) where
  bytes : Bytes
  noNul : 0 ∉ bytes
  fits : bytes.length ≤ room
deriving DecidableEq

namespace FixedString

variable {room : Nat}

/-- A buffer of zeros. -/
def empty : FixedString room := ⟨[], by simp, by simp⟩

/-- `snprintf(dst, sizeof dst, "%s", src.c_str())`. -/
def setStr (src : Bytes) : FixedString room where
  bytes := (src.takeWhile (· ≠ 0)).take room
  noNul := by
    intro member
    have kept := List.mem_takeWhile_imp (List.mem_of_mem_take member)
    simp at kept
  fits := List.length_take_le _ _

theorem ext_bytes {left right : FixedString room} (same : left.bytes = right.bytes) :
    left = right := by
  cases left
  cases right
  simpa using same

/-- Only a string that has lost nothing stores as a given buffer. -/
theorem setStr_eq_iff {src : Bytes} (value : FixedString room)
    (shorter : src.length ≤ value.bytes.length) (noNul : 0 ∉ src) :
    setStr src = value ↔ src = value.bytes := by
  have kept : (src.takeWhile (· ≠ 0)).take room = src := by
    have whole : src.takeWhile (· ≠ 0) = src := by
      rw [List.takeWhile_eq_self_iff]
      intro byte member
      have nonzero : byte ≠ 0 := fun zero => noNul (zero ▸ member)
      simpa using nonzero
    rw [whole, List.take_of_length_le (le_trans shorter value.fits)]
  constructor
  · intro same
    rw [← same]
    exact kept.symm
  · intro same
    apply ext_bytes
    change (src.takeWhile (· ≠ 0)).take room = value.bytes
    rw [kept, same]

end FixedString

end CString

end StadiumRecomp.Lib
