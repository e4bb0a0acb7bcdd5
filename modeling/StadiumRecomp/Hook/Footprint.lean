import StadiumRecomp.Hook.Xlate
import StadiumRecomp.Lib.EucJp

/-!
Contract: the Japanese footprint counts characters.

Owns: what the three byte-stepping loops count on EUC-JP text, by line where they count by
line.

Does not own: characters of three bytes, which the loops do not step over.
-/

set_option autoImplicit false

namespace StadiumRecomp.Hook

open StadiumRecomp.Lib
open StadiumRecomp.Guest
open StadiumRecomp.Translate

/-! ## One character -/

section Steps

variable (slotAdv : Nat) (widths : LineWidths) (rest : Bytes)

theorem japaneseFrom_newline : japaneseFrom slotAdv widths (0x0A :: rest) =
    japaneseFrom slotAdv widths.newline rest := by
  cases rest with
  | nil => rfl
  | cons next rest => rw [japaneseFrom, if_pos rfl]

theorem japaneseFrom_single {c : UInt8} (low : ¬ c ≥ 0x80) (other : c ≠ 0x0A) :
    japaneseFrom slotAdv widths (c :: rest) = japaneseFrom slotAdv (widths.add slotAdv) rest := by
  cases rest with
  | nil => rw [japaneseFrom, japaneseFrom, if_neg other]
  | cons next rest => rw [japaneseFrom, if_neg other, if_neg low]

theorem japaneseFrom_double {lead : UInt8} (trail : UInt8) (high : lead ≥ 0x80)
    (other : lead ≠ 0x0A) : japaneseFrom slotAdv widths (lead :: trail :: rest) =
      japaneseFrom slotAdv (widths.add slotAdv) rest := by
  rw [japaneseFrom, if_neg other, if_pos high]

theorem argumentGlyphs_single {c : UInt8} (low : ¬ c ≥ 0x80) :
    argumentGlyphs (c :: rest) = argumentGlyphs rest + 1 := by
  cases rest with
  | nil => rfl
  | cons next rest => rw [argumentGlyphs, if_neg low]

theorem argumentGlyphs_double {lead : UInt8} (trail : UInt8) (high : lead ≥ 0x80) :
    argumentGlyphs (lead :: trail :: rest) = argumentGlyphs rest + 1 := by
  rw [argumentGlyphs, if_pos high]

theorem templateGlyphs_single {c : UInt8} (low : ¬ c ≥ 0x80)
    (plain : ¬ (c = percent ∧ rest.head? = some 0x73)) :
    templateGlyphs (c :: rest) = templateGlyphs rest + 1 := by
  cases rest with
  | nil => rfl
  | cons next rest =>
      have noSpecifier : ¬ (c = percent ∧ next = 0x73) := by
        intro ⟨isPercent, isS⟩
        exact plain ⟨isPercent, congrArg some isS⟩
      rw [templateGlyphs, if_neg noSpecifier, if_neg low]

theorem templateGlyphs_double {lead : UInt8} (trail : UInt8) (high : lead ≥ 0x80) :
    templateGlyphs (lead :: trail :: rest) = templateGlyphs rest + 1 := by
  have noSpecifier : ¬ (lead = percent ∧ trail = 0x73) := by
    intro ⟨isPercent, _⟩
    subst isPercent
    exact absurd high (by decide)
  rw [templateGlyphs, if_neg noSpecifier, if_pos high]

end Steps

/-! ## Lines -/

theorem nextLine_min (line : Nat) :
    nextLine (min line (kMaxLines - 1)) = min (line + 1) (kMaxLines - 1) := by
  unfold nextLine kMaxLines
  split <;> omega

theorem lineNumbers_cons {character : EucChar} (noBreak : character ≠ .newline) (line : Nat)
    (rest : List EucChar) :
    lineNumbers line (character :: rest) = line :: lineNumbers line rest := by
  cases character with
  | newline => exact absurd rfl noBreak
  | _ => rfl

theorem lineBreaks_cons {character : EucChar} (noBreak : character ≠ .newline)
    (rest : List EucChar) : lineBreaks (character :: rest) = lineBreaks rest :=
  List.count_cons_of_ne noBreak

/-- The characters on a line, where the last line the renderer keeps holds all further
ones. -/
def glyphsOnLine (line : Nat) (text : List EucChar) (l : Nat) : Nat :=
  ((lineNumbers line text).map (min · (kMaxLines - 1))).count l

theorem glyphsOnLine_cons {character : EucChar} (noBreak : character ≠ .newline) (line : Nat)
    (rest : List EucChar) (l : Nat) : glyphsOnLine line (character :: rest) l =
      glyphsOnLine line rest l + if min line (kMaxLines - 1) = l then 1 else 0 := by
  unfold glyphsOnLine
  rw [lineNumbers_cons noBreak, List.map_cons, List.count_cons]
  simp only [beq_iff_eq]

/-- The state of the Japanese loop in front of a text. -/
theorem japaneseFrom_encode (slotAdv : Nat) {text : List EucChar}
    (short : ∀ character ∈ text, character.isJisX0212 = false) {widths : LineWidths} {line : Nat}
    (here : widths.line = min line (kMaxLines - 1)) :
    (japaneseFrom slotAdv widths (encodeEuc text)).line =
        min (line + lineBreaks text) (kMaxLines - 1) ∧
      ∀ l, (japaneseFrom slotAdv widths (encodeEuc text)).width l =
        widths.width l + slotAdv * glyphsOnLine line text l := by
  induction text generalizing widths line with
  | nil => exact ⟨here, fun _ => rfl⟩
  | cons character rest inductionHypothesis =>
      have others : ∀ other ∈ rest, other.isJisX0212 = false :=
        fun other member => short other (List.mem_cons_of_mem _ member)
      -- A character adds its advance to the current line.
      have glyph : character ≠ .newline →
          japaneseFrom slotAdv widths (encodeEuc (character :: rest)) =
            japaneseFrom slotAdv (widths.add slotAdv) (encodeEuc rest) →
          (japaneseFrom slotAdv widths (encodeEuc (character :: rest))).line =
              min (line + lineBreaks (character :: rest)) (kMaxLines - 1) ∧
            ∀ l, (japaneseFrom slotAdv widths (encodeEuc (character :: rest))).width l =
              widths.width l + slotAdv * glyphsOnLine line (character :: rest) l := by
        intro noBreak step
        rw [step, lineBreaks_cons noBreak]
        obtain ⟨lines, counts⟩ := inductionHypothesis others
          (show (widths.add slotAdv).line = min line (kMaxLines - 1) from here)
        refine ⟨lines, ?_⟩
        intro l
        rw [counts l, glyphsOnLine_cons noBreak, ← here]
        show Function.update widths.width widths.line _ l + _ = _
        by_cases same : widths.line = l
        · rw [if_pos same, same, Function.update_self, Nat.mul_add]
          omega
        · rw [if_neg same, Function.update_of_ne (fun equal => same equal.symm)]
          rfl
      cases EucChar.shape (short character List.mem_cons_self) with
      | newline =>
          have broken : widths.newline.line = min (line + 1) (kMaxLines - 1) := by
            show nextLine widths.line = _
            rw [here, nextLine_min]
          obtain ⟨lines, counts⟩ := inductionHypothesis others broken
          have step : japaneseFrom slotAdv widths (encodeEuc (.newline :: rest)) =
              japaneseFrom slotAdv widths.newline (encodeEuc rest) :=
            japaneseFrom_newline slotAdv widths (encodeEuc rest)
          have breaks : lineBreaks (.newline :: rest) = lineBreaks rest + 1 :=
            List.count_cons_self
          rw [step, breaks]
          refine ⟨?_, counts⟩
          rw [lines, Nat.add_right_comm, Nat.add_assoc]
      | single bytes low other noBreak =>
          apply glyph noBreak
          rw [encodeEuc_cons, bytes]
          exact japaneseFrom_single slotAdv widths (encodeEuc rest) low other
      | double bytes high other noBreak =>
          apply glyph noBreak
          rw [encodeEuc_cons, bytes]
          exact japaneseFrom_double slotAdv widths (encodeEuc rest) _ high other

theorem argumentGlyphs_encode {text : List EucChar}
    (short : ∀ character ∈ text, character.isJisX0212 = false) :
    argumentGlyphs (encodeEuc text) = text.length := by
  induction text with
  | nil => rfl
  | cons character rest inductionHypothesis =>
      have others := inductionHypothesis
        (fun other member => short other (List.mem_cons_of_mem _ member))
      rw [encodeEuc_cons, List.length_cons, ← others]
      cases EucChar.shape (short character List.mem_cons_self) with
      | newline => exact argumentGlyphs_single _ (by decide)
      | single bytes low =>
          rw [bytes]
          exact argumentGlyphs_single _ low
      | double bytes high =>
          rw [bytes]
          exact argumentGlyphs_double _ _ high

/-- Only the character `s` starts with the byte of `s`. -/
theorem bytes_of_head {character : EucChar} (short : character.isJisX0212 = false)
    {rest : Bytes} (head : (character.bytes ++ rest).head? = some 0x73) :
    character.bytes = [0x73] := by
  cases EucChar.shape short with
  | newline => cases head
  | single bytes =>
      rw [bytes] at head ⊢
      rw [Option.some.inj head]
  | double bytes high =>
      rw [bytes] at head
      rw [Option.some.inj head] at high
      exact absurd high (by decide)

/-- One character in front of others, unless it starts a specifier with them. -/
theorem templateGlyphs_character {character : EucChar} (short : character.isJisX0212 = false)
    {rest : Bytes} (plain : character.bytes = [percent] → rest.head? ≠ some 0x73) :
    templateGlyphs (character.bytes ++ rest) = templateGlyphs rest + 1 := by
  cases EucChar.shape short with
  | newline => exact templateGlyphs_single rest (by decide) (fun both => absurd both.1 (by decide))
  | @single _ c bytes low =>
      rw [bytes] at plain ⊢
      apply templateGlyphs_single rest low
      intro ⟨isPercent, isS⟩
      exact plain (congrArg (fun byte => [byte]) isPercent) isS
  | double bytes high =>
      rw [bytes]
      exact templateGlyphs_double rest _ high

theorem templateGlyphs_encode {text : List EucChar}
    (short : ∀ character ∈ text, character.isJisX0212 = false) :
    templateGlyphs (encodeEuc text) = outsideSpecifiers text := by
  induction text using outsideSpecifiers.induct with
  | case1 => rfl
  | case2 character =>
      have one : templateGlyphs (encodeEuc [character]) = _ :=
        templateGlyphs_character (short character List.mem_cons_self) (fun _ => by decide)
      rw [encodeEuc_cons]
      exact one
  | case3 character next rest specifier inductionHypothesis =>
      have others : ∀ other ∈ rest, other.isJisX0212 = false := fun other member =>
        short other (List.mem_cons_of_mem _ (List.mem_cons_of_mem _ member))
      rw [encodeEuc_cons, encodeEuc_cons, specifier.1, specifier.2, outsideSpecifiers,
        if_pos specifier, ← inductionHypothesis others]
      show templateGlyphs (0x25 :: 0x73 :: encodeEuc rest) = _
      rw [templateGlyphs, if_pos ⟨rfl, rfl⟩]
  | case4 character next rest plain inductionHypothesis =>
      have others : ∀ other ∈ next :: rest, other.isJisX0212 = false :=
        fun other member => short other (List.mem_cons_of_mem _ member)
      rw [encodeEuc_cons, outsideSpecifiers, if_neg plain, ← inductionHypothesis others]
      apply templateGlyphs_character (short character List.mem_cons_self)
      intro isPercent isS
      rw [encodeEuc_cons] at isS
      exact plain ⟨isPercent, bytes_of_head (others next List.mem_cons_self) isS⟩

/-! ## Footprints -/

/-- On text without characters of three bytes, the Japanese widths count the characters of
each line, those behind the 24th line with it, and the budget of a composed string counts
the characters of the argument and those of the format outside its specifiers. -/
theorem footprint_counts_characters (text : List EucChar)
    (short : ∀ character ∈ text, character.isJisX0212 = false) :
    (∀ slotAdv l, (japaneseWidths slotAdv (encodeEuc text)).width l =
      slotAdv * glyphsOnLine 0 text l) ∧
    (∀ slotAdv, (japaneseWidths slotAdv (encodeEuc text)).line =
      min (lineBreaks text) (kMaxLines - 1)) ∧
    argumentGlyphs (encodeEuc text) = text.length ∧
    templateGlyphs (encodeEuc text) = outsideSpecifiers text := by
  have start : LineWidths.initial.line = min 0 (kMaxLines - 1) := rfl
  refine ⟨?_, ?_, argumentGlyphs_encode short, templateGlyphs_encode short⟩
  · intro slotAdv l
    have counts := (japaneseFrom_encode slotAdv short start).2 l
    rw [show LineWidths.initial.width l = 0 from rfl, Nat.zero_add] at counts
    exact counts
  · intro slotAdv
    have lines := (japaneseFrom_encode slotAdv short start).1
    rw [Nat.zero_add] at lines
    exact lines

/-- A kanji, a half-width kana, a newline, and a format around a name. -/
def shortText : List EucChar :=
  [.jisX0208 0xB0 0xA1 (by decide), .kana 0xB1 (by decide), .newline, .ascii 0x25 (by decide),
    .ascii 0x73 (by decide)]

theorem footprint_counts_shortText :
    (∀ slotAdv l, (japaneseWidths slotAdv (encodeEuc shortText)).width l =
      slotAdv * glyphsOnLine 0 shortText l) ∧
    (∀ slotAdv, (japaneseWidths slotAdv (encodeEuc shortText)).line =
      min (lineBreaks shortText) (kMaxLines - 1)) ∧
    argumentGlyphs (encodeEuc shortText) = shortText.length ∧
    templateGlyphs (encodeEuc shortText) = outsideSpecifiers shortText :=
  footprint_counts_characters shortText (List.all_iff_forall_prop.mp (by decide))

/-- Every count on a text is the number of characters, without a limit on lines. -/
def CountsCharacters (text : List EucChar) : Prop :=
  ∀ slotAdv, (∀ l, (japaneseWidths slotAdv (encodeEuc text)).width l =
      slotAdv * (lineNumbers 0 text).count l) ∧
    (japaneseWidths slotAdv (encodeEuc text)).line + 1 = lineBreaks text + 1 ∧
    (lineBreaks text = 0 → argumentGlyphs (encodeEuc text) = text.length)

/-- One character of three bytes. -/
def threeBytes : List EucChar := [.jisX0212 0xB0 0xA1 (by decide)]

/-- A letter behind 24 newlines. -/
def manyLines : List EucChar := List.replicate 24 .newline ++ [.ascii 0x61 (by decide)]

/-- RDRAM with the text at `0x80001000`. -/
def rdramWith (text : List EucChar) : Rdram := storeBytes (fun _ => 0) 0x1000 (encodeEuc text)

theorem footprint_miscounts :
    (readTextArg (rdramWith threeBytes) 0x80001000 = some (encodeEuc threeBytes) ∧
      ¬ CountsCharacters threeBytes) ∧
    (readTextArg (rdramWith manyLines) 0x80001000 = some (encodeEuc manyLines) ∧
      ¬ CountsCharacters manyLines) := by
  refine ⟨⟨by decide, ?_⟩, ⟨by decide, ?_⟩⟩
  · intro counts
    have glyphs := (counts 12).2.2 (by decide)
    revert glyphs
    decide
  · intro counts
    have lines := (counts 12).2.1
    revert lines
    decide

end StadiumRecomp.Hook
