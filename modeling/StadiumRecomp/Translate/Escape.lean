import StadiumRecomp.Translate.Build
import StadiumRecomp.Translate.Scan

/-!
Contract: escaped texts in the bytes of the written file.

Owns: the escapes on encoded text, reading them back, and the segments the quotes of
an escaped text cut it into.

Does not own: the rows the texts stand in.
-/

set_option autoImplicit false

namespace StadiumRecomp.Translate

open StadiumRecomp.Lib
open StadiumRecomp.Lib.Quoted

/-! ## Escaped bytes -/

/-- `json_escape` on encoded text. -/
def escapeByte (byte : UInt8) : Bytes :=
  if byte = quote then [backslash, quote]
  else if byte = backslash then [backslash, backslash]
  else if byte = 0x0A then [backslash, 0x6E]
  else if byte = 0x09 then [backslash, 0x74]
  else [byte]

def escapeBytes (content : Bytes) : Bytes := content.flatMap escapeByte

/-- A byte is kept or an escape sequence. -/
theorem escapeByte_cases (byte : UInt8) :
    escapeByte byte = [byte] ∨ backslash ∈ escapeByte byte := by
  unfold escapeByte
  split
  · exact Or.inr (by decide)
  · split
    · exact Or.inr (by decide)
    · split
      · exact Or.inr (by decide)
      · split
        · exact Or.inr (by decide)
        · exact Or.inl rfl

theorem escapeByte_of_wide {byte : UInt8} (wide : 128 ≤ byte.toNat) :
    escapeByte byte = [byte] := by
  have different : ∀ special : UInt8, special.toNat < 128 → byte ≠ special := by
    rintro special small rfl
    omega
  simp [escapeByte, different quote (by decide), different backslash (by decide),
    different 0x0A (by decide), different 0x09 (by decide)]

theorem encode_escapeSymbol (symbol : Char) :
    Utf8.encode (escapeSymbol symbol) = escapeBytes (String.utf8EncodeChar symbol) := by
  by_cases ascii : symbol.toNat < 128
  · have same : ∀ special : Char, special.toNat < 128 →
        (UInt8.ofNat symbol.toNat = UInt8.ofNat special.toNat ↔ symbol = special) := by
      intro special small
      constructor
      · intro equal
        have values := congrArg UInt8.toNat equal
        rw [UInt8.toNat_ofNat', UInt8.toNat_ofNat', Nat.mod_eq_of_lt (by omega),
          Nat.mod_eq_of_lt (by omega)] at values
        exact Char.toNat_inj.mp values
      · rintro rfl
        rfl
    have isQuote : UInt8.ofNat symbol.toNat = quote ↔ symbol = '"' := same '"' (by decide)
    have isBackslash : UInt8.ofNat symbol.toNat = backslash ↔ symbol = '\\' :=
      same '\\' (by decide)
    have isNewline : UInt8.ofNat symbol.toNat = 0x0A ↔ symbol = '\n' := same '\n' (by decide)
    have isTab : UInt8.ofNat symbol.toNat = 0x09 ↔ symbol = '\t' := same '\t' (by decide)
    rw [Utf8.encodeChar_ascii ascii]
    simp only [escapeBytes, List.flatMap_cons, List.flatMap_nil, List.append_nil, escapeByte,
      isQuote, isBackslash, isNewline, isTab, escapeSymbol]
    split
    · decide
    · split
      · decide
      · split
        · decide
        · split
          · decide
          · simp [Utf8.encode, Utf8.encodeChar_ascii ascii]
  · have wide : 128 ≤ symbol.toNat := by omega
    have different : ∀ special : Char, special.toNat < 128 → symbol ≠ special := by
      rintro special small rfl
      omega
    have plain : escapeSymbol symbol = [symbol] := by
      simp [escapeSymbol, different '"' (by decide), different '\\' (by decide),
        different '\n' (by decide), different '\t' (by decide)]
    have bytes : escapeBytes (String.utf8EncodeChar symbol) = String.utf8EncodeChar symbol := by
      have each : ∀ byte ∈ String.utf8EncodeChar symbol, escapeByte byte = [byte] :=
        fun byte member => escapeByte_of_wide (Utf8.encodeChar_wide wide byte member)
      unfold escapeBytes
      rw [List.flatMap_congr each]
      simp
    rw [plain, bytes]
    simp [Utf8.encode]

theorem encode_jsonEscape (text : Text) :
    Utf8.encode (jsonEscape text) = escapeBytes (Utf8.encode text) := by
  induction text with
  | nil => rfl
  | cons symbol text inductionHypothesis =>
      have split : jsonEscape (symbol :: text) = escapeSymbol symbol ++ jsonEscape text := rfl
      rw [split, Utf8.encode_append, inductionHypothesis, encode_escapeSymbol, Utf8.encode_cons]
      simp [escapeBytes]

/-- The loader reads an escaped string back. -/
theorem readQuoted_escapeBytes (content rest : Bytes) :
    readQuoted (escapeBytes content ++ quote :: rest) = (content, rest) := by
  induction content with
  | nil => exact readQuoted_quote rest
  | cons byte content inductionHypothesis =>
      have split : escapeBytes (byte :: content) = escapeByte byte ++ escapeBytes content := rfl
      rw [split, List.append_assoc]
      unfold escapeByte
      split
      next isQuote =>
        have read : unescape quote = quote := by decide
        simp only [List.cons_append, List.nil_append, readQuoted_escape,
          inductionHypothesis, read, isQuote]
      next notQuote =>
        split
        next isBackslash =>
          have read : unescape backslash = backslash := by decide
          simp only [List.cons_append, List.nil_append, readQuoted_escape,
            inductionHypothesis, read, isBackslash]
        next notBackslash =>
          split
          next isNewline =>
            have read : unescape 0x6E = 0x0A := by decide
            simp only [List.cons_append, List.nil_append, readQuoted_escape,
              inductionHypothesis, read, isNewline]
          next =>
            split
            next isTab =>
              have read : unescape 0x74 = 0x09 := by decide
              simp only [List.cons_append, List.nil_append, readQuoted_escape,
                inductionHypothesis, read, isTab]
            next =>
              rw [List.singleton_append, readQuoted_byte notQuote notBackslash,
                inductionHypothesis]

/-! ## Escaped segments -/

/-- The segments quotes cut an escaped string into. -/
def pieces : Bytes → List Bytes
  | [] => [[]]
  | byte :: rest =>
      if byte = quote then [backslash] :: pieces rest
      else
        match pieces rest with
        | [] => []
        | piece :: more => (escapeByte byte ++ piece) :: more

/-- All but the last piece end at an escaped quote; the last one is the escaped last
segment of the string. -/
theorem pieces_eq (content : Bytes) :
    ∃ initial, pieces content = initial ++ [escapeBytes (lastSegment quote content)] ∧
      (∀ piece ∈ initial, backslash ∈ piece) ∧ (initial = [] ↔ quote ∉ content) := by
  induction content with
  | nil => exact ⟨[], rfl, by simp, by simp⟩
  | cons byte rest inductionHypothesis =>
      obtain ⟨initial, shape, escapes, noQuote⟩ := inductionHypothesis
      by_cases isQuote : byte = quote
      · refine ⟨[backslash] :: initial, ?_, ?_, by simp [isQuote]⟩
        · have last : lastSegment quote (byte :: rest) = lastSegment quote rest := by
            by_cases member : quote ∈ rest
            · exact lastSegment_append_of_mem [byte] member
            · rw [isQuote, lastSegment_of_not_mem member]
              exact lastSegment_append_quote [] member
          rw [pieces, if_pos isQuote, shape, last]
          rfl
        · intro piece member
          rcases List.mem_cons.mp member with rfl | inInitial
          · simp
          · exact escapes piece inInitial
      · cases initial with
        | nil =>
            have absent := noQuote.mp rfl
            have absentHere : quote ∉ byte :: rest := by
              simp [absent, Ne.symm isQuote]
            refine ⟨[], ?_, by simp, by simp [absentHere]⟩
            rw [pieces, if_neg isQuote, shape, lastSegment_of_not_mem absent,
              lastSegment_of_not_mem absentHere]
            rfl
        | cons piece more =>
            have member : quote ∈ rest := by
              by_contra absent
              cases noQuote.mpr absent
            refine ⟨(escapeByte byte ++ piece) :: more, ?_, ?_, by simp [member]⟩
            · rw [pieces, if_neg isQuote, shape]
              have last : lastSegment quote (byte :: rest) = lastSegment quote rest :=
                lastSegment_append_of_mem [byte] member
              rw [last]
              rfl
            · intro other inPieces
              rcases List.mem_cons.mp inPieces with rfl | inMore
              · exact List.mem_append_right _ (escapes piece List.mem_cons_self)
              · exact escapes other (List.mem_cons_of_mem _ inMore)

theorem quoted_pieces (content : Bytes) :
    quoted quote (pieces content) = quote :: escapeBytes content := by
  induction content with
  | nil => rfl
  | cons byte rest inductionHypothesis =>
      have split : escapeBytes (byte :: rest) = escapeByte byte ++ escapeBytes rest := rfl
      rw [split]
      by_cases isQuote : byte = quote
      · rw [pieces, if_pos isQuote, quoted_cons, inductionHypothesis]
        simp [escapeByte, isQuote]
      · rw [pieces, if_neg isQuote]
        cases shape : pieces rest with
        | nil =>
            rw [shape, quoted_nil] at inductionHypothesis
            cases inductionHypothesis
        | cons piece more =>
            rw [shape, quoted_cons, List.cons_append] at inductionHypothesis
            simp only [quoted_cons]
            rw [← (List.cons.inj inductionHypothesis).2]
            simp

theorem free_pieces (content : Bytes) : Free quote (pieces content) := by
  induction content with
  | nil => simp [pieces, Free]
  | cons byte rest inductionHypothesis =>
      by_cases isQuote : byte = quote
      · rw [pieces, if_pos isQuote]
        intro piece member
        rcases List.mem_cons.mp member with rfl | inRest
        · decide
        · exact inductionHypothesis piece inRest
      · rw [pieces, if_neg isQuote]
        cases shape : pieces rest with
        | nil => simp [Free]
        | cons piece more =>
            rw [shape] at inductionHypothesis
            have plain : quote ∉ escapeByte byte := by
              unfold escapeByte
              rw [if_neg isQuote]
              split
              · decide
              · split
                · decide
                · split
                  · decide
                  · simpa using Ne.symm isQuote
            intro other member
            rcases List.mem_cons.mp member with rfl | inMore
            · rw [List.mem_append, not_or]
              exact ⟨plain, inductionHypothesis piece List.mem_cons_self⟩
            · exact inductionHypothesis other (List.mem_cons_of_mem _ inMore)

/-- Letters, digits and underscores: bytes no escape touches. -/
def PlainWord (word : Bytes) : Prop :=
  ∀ byte ∈ word, escapeByte byte = [byte]

instance (word : Bytes) : Decidable (PlainWord word) :=
  decidable_of_iff _ List.all_iff_forall_prop

theorem escapeBytes_plainWord {word : Bytes} (plain : PlainWord word) :
    escapeBytes word = word := by
  unfold escapeBytes
  rw [List.flatMap_congr plain]
  simp

theorem not_mem_of_plainWord {word : Bytes} (plain : PlainWord word) : backslash ∉ word := by
  intro member
  exact absurd (plain _ member) (by decide)

/-- A plain word is escaped text only of itself. -/
theorem escapeBytes_eq_plainWord {content word : Bytes} (plain : PlainWord word) :
    escapeBytes content = word ↔ content = word := by
  constructor
  · intro same
    have untouched : PlainWord content := by
      intro byte member
      by_contra touched
      apply not_mem_of_plainWord plain
      rw [← same]
      exact List.mem_flatMap.mpr ⟨byte, member, (escapeByte_cases byte).resolve_left touched⟩
    rw [← same, escapeBytes_plainWord untouched]
  · rintro rfl
    exact escapeBytes_plainWord plain

end StadiumRecomp.Translate
