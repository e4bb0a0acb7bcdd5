import StadiumRecomp.Translate.Written

/-!
Contract: the table the loader builds from a first build against what `key_en.tsv`
says.

Owns: the inventories the string dump keeps, what the author means, the entries the
loader reads for a key, and exactly when the table means what the author wrote.

Does not own: a build over an earlier `translations.json`.
-/

set_option autoImplicit false

namespace StadiumRecomp.Translate

open StadiumRecomp.Lib
open StadiumRecomp.Lib.Quoted
open StadiumRecomp.Lib.PyJson

/-! ## Sources -/

/-- A digit `hexval` knows. -/
def isHexDigit (symbol : Char) : Bool :=
  symbol.toNat < 128 && (hexval (UInt8.ofNat symbol.toNat)).isSome

/-- Whole bytes in hexadecimal, at least one. -/
structure IsHex (text : Text) : Prop where
  nonempty : text ≠ []
  even : text.length % 2 = 0
  digits : ∀ symbol ∈ text, isHexDigit symbol = true

instance (text : Text) : Decidable (IsHex text) :=
  decidable_of_iff (text ≠ [] ∧ text.length % 2 = 0 ∧ text.all isHexDigit = true)
    ⟨fun ⟨nonempty, even, digits⟩ => ⟨nonempty, even, List.all_eq_true.mp digits⟩,
      fun hex => ⟨hex.nonempty, hex.even, List.all_eq_true.mpr hex.digits⟩⟩

theorem IsHex.plain {text : Text} (hex : IsHex text) : '"' ∉ text ∧ '\\' ∉ text := by
  constructor
  · intro member
    exact absurd (hex.digits _ member) (by decide)
  · intro member
    exact absurd (hex.digits _ member) (by decide)

theorem hexPairs_of_digits {digits : Bytes} (known : ∀ digit ∈ digits, (hexval digit).isSome) :
    ∃ bytes, hexPairs digits = some bytes ∧ bytes.length = digits.length / 2 := by
  induction digits using hexPairs.induct with
  | case1 high low rest inductionHypothesis =>
      obtain ⟨tail, tailEq, length⟩ := inductionHypothesis
        (fun digit member => known digit (by simp [member]))
      obtain ⟨highValue, highEq⟩ := Option.isSome_iff_exists.mp (known high (by simp))
      obtain ⟨lowValue, lowEq⟩ := Option.isSome_iff_exists.mp (known low (by simp))
      refine ⟨(highValue <<< 4 ||| lowValue) :: tail, ?_, ?_⟩
      · simp [hexPairs, highEq, lowEq, tailEq]
      · simp only [List.length_cons, length]
        omega
  | case2 digits noPair =>
      cases digits with
      | nil => exact ⟨[], rfl, rfl⟩
      | cons high rest =>
          cases rest with
          | nil => exact ⟨[], rfl, by simp⟩
          | cons low rest => exact absurd rfl (noPair high low rest)

theorem IsHex.bytes {text : Text} (hex : IsHex text) : hexBytes (Utf8.encode text) ≠ [] := by
  have ascii : ∀ symbol ∈ text, symbol.toNat < 128 := by
    intro symbol member
    have digit := hex.digits symbol member
    simp only [isHexDigit, Bool.and_eq_true, decide_eq_true_eq] at digit
    exact digit.1
  have encoded := Utf8.encode_ascii ascii
  have known : ∀ digit ∈ Utf8.encode text, (hexval digit).isSome := by
    intro digit member
    rw [encoded] at member
    obtain ⟨symbol, inText, rfl⟩ := List.mem_map.mp member
    have digit := hex.digits symbol inText
    simp only [isHexDigit, Bool.and_eq_true] at digit
    exact digit.2
  obtain ⟨bytes, pairs, length⟩ := hexPairs_of_digits known
  have positive := List.length_pos_iff.mpr hex.nonempty
  have even := hex.even
  rw [encoded, List.length_map] at length
  intro empty
  rw [hexBytes, pairs, Option.getD_some] at empty
  rw [empty, List.length_nil] at length
  omega

/-- The content hash of a string of the inventory. -/
def StringRow.hash (row : StringRow) : UInt64 := pmsFnv1a (hexBytes (Utf8.encode row.srcHex))

variable (lower : Text → Text)

/-- An inventory as the string dump keeps it: every source is a non-empty run of
bytes in hexadecimal, and a key is the name of its content hash. -/
structure Inventory.WellKept (inventory : Inventory) : Prop where
  hex : ∀ key row, Dict.get? (inventoryRows lower inventory) key = some row → IsHex row.srcHex
  keyed : ∀ key row other otherRow,
    Dict.get? (inventoryRows lower inventory) key = some row →
    Dict.get? (inventoryRows lower inventory) other = some otherRow →
    row.hash = otherRow.hash → key = other

/-! ## What the author means -/

/-- The English of the last row of a key that has any. -/
def lastEnglish (rows : List (Text × Text)) (key : Text) : Option Text :=
  Dict.lastWrite (rows.filter (fun row => row.2 ≠ [])) key

/-- The table holds what `key_en.tsv` says for the strings of the inventory, and
nothing else. -/
structure MeansAuthored (inventory : Inventory) (keyEn : Text) (table : Table) : Prop where
  authored : ∀ key row english, Dict.get? (inventoryRows lower inventory) key = some row →
    lastEnglish (keyEnRows lower keyEn) key = some english →
    (Dict.get? table row.hash).map XlateVal.en = some (Utf8.encode (replaceNewlines english))
  only : ∀ hash, (Dict.get? table hash).isSome → ∃ key row english,
    Dict.get? (inventoryRows lower inventory) key = some row ∧
    (key, english) ∈ keyEnRows lower keyEn ∧ english ≠ [] ∧ row.hash = hash

/-- Behind its last quote no Japanese text is the name of a field, unless that has no
English, or `target` for English. -/
def NoFieldNames (inventory : Inventory) (keyEn : Text) : Prop :=
  ∀ key row english, Dict.get? (inventoryRows lower inventory) key = some row →
    (key, english) ∈ keyEnRows lower keyEn →
    (lastSegment '"' row.jp = Text.ascii "src_hex" → english = []) ∧
    (lastSegment '"' row.jp = Text.ascii "target" →
      lastEnglish (keyEnRows lower keyEn) key = some (Text.ascii "target"))

/-! ## Reading rows of the side file -/

theorem replaceNewlines_eq_nil_iff {text : Text} : replaceNewlines text = [] ↔ text = [] := by
  fun_cases replaceNewlines text <;> simp [*]

/-- A text without line breaks comes from itself only. -/
theorem eq_of_replaceNewlines {text word : Text} (replaced : replaceNewlines text = word)
    (oneLine : '\n' ∉ word) : text = word := by
  induction text using replaceNewlines.induct generalizing word with
  | case1 rest _ =>
      rw [replaceNewlines] at replaced
      exact absurd (replaced ▸ List.mem_cons_self) oneLine
  | case2 symbol rest noBreak inductionHypothesis =>
      rw [replaceNewlines] at replaced
      · subst replaced
        rw [List.mem_cons, not_or] at oneLine
        rw [← inductionHypothesis rfl oneLine.2]
      · exact noBreak
  | case3 => exact replaced

/-- A quote in a text is a quote in its bytes, and nothing else is. -/
theorem lastSegment_encode (text : Text) :
    lastSegment quote (Utf8.encode text) = Utf8.encode (lastSegment '"' text) := by
  have quoteIn : ∀ text : Text, quote ∈ Utf8.encode text ↔ '"' ∈ text :=
    fun text => @Utf8.ofNat_mem_encode_iff '"' (by decide) text
  induction text with
  | nil => rfl
  | cons symbol rest inductionHypothesis =>
      by_cases later : '"' ∈ rest
      · have textLast := lastSegment_append_of_mem [symbol] later
        have bytesLast := lastSegment_append_of_mem (String.utf8EncodeChar symbol)
          ((quoteIn rest).mpr later)
        rw [List.singleton_append] at textLast
        rw [Utf8.encode_cons, bytesLast, textLast, inductionHypothesis]
      · have bytesLater : quote ∉ Utf8.encode rest := mt (quoteIn rest).mp later
        by_cases isQuote : symbol = '"'
        · subst isQuote
          have textLast := lastSegment_append_quote [] later
          have bytesLast := lastSegment_append_quote [] bytesLater
          have byte : String.utf8EncodeChar '"' = [quote] := by decide +kernel
          rw [List.nil_append] at textLast bytesLast
          rw [Utf8.encode_cons, byte, List.singleton_append, bytesLast, textLast]
        · have absent : '"' ∉ symbol :: rest := by
            rw [List.mem_cons, not_or]
            exact ⟨Ne.symm isQuote, later⟩
          rw [lastSegment_of_not_mem absent,
            lastSegment_of_not_mem (mt (quoteIn _).mp absent)]

/-- What the loader makes of a row of the side file that names this string. -/
def StringRow.value (row : StringRow) (english : Text) : Option XlateVal :=
  if lastSegment '"' row.jp = Text.ascii "src_hex" then none
  else if lastSegment '"' row.jp = Text.ascii "target" then some ⟨targetWord, -1, -1⟩
  else if english = [] then none
  else some ⟨Utf8.encode (replaceNewlines english), -1, -1⟩

/-- The entry of a row of the side file. -/
def StringRow.texts (row : StringRow) (en : Text) : TextEntry := ⟨row.srcHex, row.jp, en⟩

theorem encode_eq_iff {text word : Text} : Utf8.encode text = Utf8.encode word ↔ text = word :=
  Utf8.encode_injective.eq_iff

theorem reading_texts {row : StringRow} (hex : IsHex row.srcHex) (english : Text) :
    (row.texts (replaceNewlines english)).reading =
      (row.value english).map (fun value => (row.hash, value)) := by
  have srcEq : srcWord = Utf8.encode (Text.ascii "src_hex") := by decide +kernel
  have targetEq : targetWord = Utf8.encode (Text.ascii "target") := by decide +kernel
  have noEnglish : Utf8.encode (replaceNewlines english) = [] ↔ english = [] := by
    rw [← Utf8.encode_nil, encode_eq_iff, replaceNewlines_eq_nil_iff]
  have someTarget : Utf8.encode (Text.ascii "target") ≠ [] := by decide +kernel
  unfold TextEntry.reading rowReading StringRow.value StringRow.texts StringRow.hash
  simp only [lastSegment_encode, srcEq, targetEq, encode_eq_iff]
  split
  · simp
  · split
    · simp [hex.bytes, someTarget]
    · by_cases empty : english = []
      · simp [empty, replaceNewlines]
      · simp [hex.bytes, noEnglish, empty]

/-- The assignment a row of the side file leads to. -/
def readRow (inventory : Inventory) (row : Text × Text) : Option (UInt64 × XlateVal) :=
  (Dict.get? (inventoryRows lower inventory) row.1).bind
    (fun found => (found.texts (replaceNewlines row.2)).reading)

/-- The entry of a joined row, as texts. -/
def Joined.texts (joined : Joined) : TextEntry := joined.row.texts joined.en

theorem readings_joinRows (inventory : Inventory) (keyEn : Text) :
    ((joinRows lower inventory keyEn).map Joined.texts).filterMap TextEntry.reading =
      (keyEnRows lower keyEn).filterMap (readRow lower inventory) := by
  unfold joinRows
  rw [List.filterMap_map, List.filterMap_filterMap]
  apply List.filterMap_congr
  intro row _
  unfold readRow
  cases Dict.get? (inventoryRows lower inventory) row.1 <;> rfl

/-! ## The entries of one key -/

section Key

variable {lower} {inventory : Inventory} {keyEn key : Text} {row : StringRow}

theorem readRow_of_found (wellKept : inventory.WellKept lower)
    (found : Dict.get? (inventoryRows lower inventory) key = some row) (english : Text) :
    readRow lower inventory (key, english) =
      (row.value english).map (fun value => (row.hash, value)) := by
  unfold readRow
  rw [found, Option.bind_some, reading_texts (wellKept.hex key row found)]

/-- What is written at a string's hash is what the rows of its key say. -/
theorem lastWrite_readRows (wellKept : inventory.WellKept lower)
    (found : Dict.get? (inventoryRows lower inventory) key = some row)
    (rows : List (Text × Text)) :
    Dict.lastWrite (rows.filterMap (readRow lower inventory)) row.hash =
      Dict.lastWrite (rows.filterMap
        (fun other => (row.value other.2).map (fun value => (other.1, value)))) key := by
  apply Dict.lastWrite_filterMap_congr
  intro ⟨other, english⟩ _
  by_cases same : other = key
  · subst same
    rw [readRow_of_found wellKept found]
    cases row.value english <;> simp [Dict.lastWrite]
  · have rightNone : Dict.lastWrite ((row.value english).map
        (fun value => (other, value))).toList key = none := by
      cases row.value english <;> simp [Dict.lastWrite, same]
    rw [rightNone]
    cases foundOther : Dict.get? (inventoryRows lower inventory) other with
    | none => simp [readRow, foundOther, Dict.lastWrite]
    | some otherRow =>
        have different : otherRow.hash ≠ row.hash := fun equal =>
          same (wellKept.keyed other otherRow key row foundOther found equal)
        rw [readRow_of_found wellKept foundOther]
        cases otherRow.value english <;> simp [Dict.lastWrite, different]

/-- A Japanese text that ends in `src_hex` leaves no row of its key. -/
theorem lastWrite_of_srcHex (wellKept : inventory.WellKept lower)
    (found : Dict.get? (inventoryRows lower inventory) key = some row)
    (isSrc : lastSegment '"' row.jp = Text.ascii "src_hex") (rows : List (Text × Text)) :
    Dict.lastWrite (rows.filterMap (readRow lower inventory)) row.hash = none := by
  have nothing : (fun other : Text × Text =>
      (row.value other.2).map (fun value => (other.1, value))) = fun _ => none := by
    funext other
    rw [StringRow.value, if_pos isSrc]
    rfl
  rw [lastWrite_readRows wellKept found, nothing, List.filterMap_none]
  rfl

/-- One that ends in `target` makes every row of its key say `target`. -/
theorem lastWrite_of_target (wellKept : inventory.WellKept lower)
    (found : Dict.get? (inventoryRows lower inventory) key = some row)
    (isTarget : lastSegment '"' row.jp = Text.ascii "target") {rows : List (Text × Text)}
    (member : key ∈ rows.map Prod.fst) :
    Dict.lastWrite (rows.filterMap (readRow lower inventory)) row.hash =
      some ⟨targetWord, -1, -1⟩ := by
  have notSrc : lastSegment '"' row.jp ≠ Text.ascii "src_hex" := by
    rw [isTarget]
    decide
  have constant : (fun other : Text × Text =>
      (row.value other.2).map (fun value => (other.1, value))) =
        some ∘ fun other => (other.1, (⟨targetWord, -1, -1⟩ : XlateVal)) := by
    funext other
    rw [StringRow.value, if_neg notSrc, if_pos isTarget]
    rfl
  have written := Dict.lastWrite_map_of_mem (rows.map Prod.fst)
    (fun _ => (⟨targetWord, -1, -1⟩ : XlateVal)) member
  rw [lastWrite_readRows wellKept found, constant, List.filterMap_eq_map]
  rw [List.map_map] at written
  exact written

/-- Under any other the last English of the key counts. -/
theorem lastWrite_of_plain (wellKept : inventory.WellKept lower)
    (found : Dict.get? (inventoryRows lower inventory) key = some row)
    (notSrc : lastSegment '"' row.jp ≠ Text.ascii "src_hex")
    (notTarget : lastSegment '"' row.jp ≠ Text.ascii "target") (rows : List (Text × Text)) :
    Dict.lastWrite (rows.filterMap (readRow lower inventory)) row.hash =
      (lastEnglish rows key).map
        (fun english => ⟨Utf8.encode (replaceNewlines english), -1, -1⟩) := by
  rw [lastWrite_readRows wellKept found, lastEnglish, ← Dict.lastWrite_map_snd,
    ← List.filterMap_eq_map, List.filterMap_filter]
  congr 1
  apply List.filterMap_congr
  intro other _
  rw [StringRow.value, if_neg notSrc, if_neg notTarget]
  by_cases empty : other.2 = [] <;> simp [empty]

/-- A row with English gives its key a last English. -/
theorem lastEnglish_of_mem {rows : List (Text × Text)} {english : Text}
    (member : (key, english) ∈ rows) (someEnglish : english ≠ []) :
    ∃ last, lastEnglish rows key = some last := by
  rw [← Option.isSome_iff_exists, Option.isSome_iff_ne_none, lastEnglish, ne_eq,
    Dict.lastWrite_eq_none_iff]
  intro none
  exact none (key, english) (List.mem_filter.mpr ⟨member, by simpa using someEnglish⟩) rfl

theorem mem_of_lastEnglish {rows : List (Text × Text)} {english : Text}
    (last : lastEnglish rows key = some english) : (key, english) ∈ rows ∧ english ≠ [] := by
  obtain ⟨member, someEnglish⟩ := List.mem_filter.mp (Dict.mem_of_lastWrite last)
  exact ⟨member, by simpa using someEnglish⟩

end Key

/-! ## The first build -/

/-- The table after a first build. -/
def firstTable (inventory : Inventory) (keyEn : Text) : Table :=
  Dict.writes [] ((keyEnRows lower keyEn).filterMap (readRow lower inventory))

theorem get?_firstTable (inventory : Inventory) (keyEn : Text) (hash : UInt64) :
    Dict.get? (firstTable lower inventory keyEn) hash =
      Dict.lastWrite ((keyEnRows lower keyEn).filterMap (readRow lower inventory)) hash := by
  unfold firstTable
  rw [Dict.get?_writes, Dict.get?_nil, Option.or_none]

/-- The joined rows say what their texts say, and the rest behind them. -/
theorem sayings_joinRows {inventory : Inventory}
    (hex : ∀ key row, Dict.get? (inventoryRows lower inventory) key = some row → IsHex row.srcHex)
    (keyEn : Text) (others : List Entry) :
    sayings ((joinRows lower inventory keyEn).map Joined.entry ++ others) =
      ((joinRows lower inventory keyEn).map Joined.texts).filterMap TextEntry.reading ++
        sayings others := by
  have plain : ∀ joined ∈ joinRows lower inventory keyEn,
      '"' ∉ joined.row.srcHex ∧ '\\' ∉ joined.row.srcHex := by
    intro joined inRows
    obtain ⟨row, _, joinedEq⟩ := List.mem_filterMap.mp inRows
    obtain ⟨found, foundEq, rfl⟩ := Option.map_eq_some_iff.mp joinedEq
    exact (hex row.1 found foundEq).plain
  generalize joinRows lower inventory keyEn = joinedRows at plain ⊢
  induction joinedRows with
  | nil => rfl
  | cons joined rest inductionHypothesis =>
      have texts : joined.entry.texts? = some joined.texts := by
        obtain ⟨noQuote, noBackslash⟩ := plain joined List.mem_cons_self
        unfold Entry.texts? Joined.entry
        exact if_neg (not_or.mpr ⟨noQuote, noBackslash⟩)
      obtain ⟨row, rowEq, _⟩ := encode_rowText texts false
      have written : joined.entry.isWritten = true := by
        rw [Entry.isWritten, rowEq]
        rfl
      have said : ∀ behind, joined.entry.saying behind = joined.texts.reading.toList := by
        intro behind
        rw [Entry.saying, texts]
      have later := inductionHypothesis
        (fun other member => plain other (List.mem_cons_of_mem _ member))
      rw [List.map_cons, List.cons_append, sayings, if_pos written, said, later, List.map_cons,
        List.filterMap_cons]
      cases joined.texts.reading <;> rfl

theorem loadTranslations_firstBuild {inventory : Inventory}
    (wellKept : inventory.WellKept lower) (keyEn : Text) :
    loadTranslations (writeEntries ((joinRows lower inventory keyEn).map Joined.entry)) =
      firstTable lower inventory keyEn := by
  have said := sayings_joinRows lower wellKept.hex keyEn []
  rw [List.append_nil, sayings, List.append_nil, readings_joinRows] at said
  unfold loadTranslations firstTable
  rw [loadEntries_writeEntries, said]

theorem noFieldNames_of_meansAuthored {inventory : Inventory}
    (wellKept : inventory.WellKept lower) {keyEn : Text}
    (means : MeansAuthored lower inventory keyEn (firstTable lower inventory keyEn)) :
    NoFieldNames lower inventory keyEn := by
  intro key row english found member
  constructor
  · intro isSrc
    by_contra someEnglish
    obtain ⟨last, lastEq⟩ := lastEnglish_of_mem member someEnglish
    have authored := means.authored key row last found lastEq
    rw [get?_firstTable, lastWrite_of_srcHex wellKept found isSrc] at authored
    cases authored
  · intro isTarget
    have written := lastWrite_of_target wellKept found isTarget
      (List.mem_map.mpr ⟨_, member, rfl⟩)
    rw [← get?_firstTable] at written
    obtain ⟨other, otherRow, otherEnglish, otherFound, otherMember, someEnglish, sameHash⟩ :=
      means.only row.hash (by rw [written]; rfl)
    have sameKey := wellKept.keyed other otherRow key row otherFound found sameHash
    subst sameKey
    obtain ⟨last, lastEq⟩ := lastEnglish_of_mem otherMember someEnglish
    have authored := means.authored other row last found lastEq
    have targetEq : targetWord = Utf8.encode (Text.ascii "target") := by decide +kernel
    rw [written, Option.map_some, Option.some.injEq, targetEq, encode_eq_iff] at authored
    rw [lastEq, eq_of_replaceNewlines authored.symm (by decide)]

theorem meansAuthored_of_noFieldNames {inventory : Inventory}
    (wellKept : inventory.WellKept lower) {keyEn : Text}
    (free : NoFieldNames lower inventory keyEn) :
    MeansAuthored lower inventory keyEn (firstTable lower inventory keyEn) := by
  constructor
  · intro key row english found last
    obtain ⟨member, someEnglish⟩ := mem_of_lastEnglish last
    obtain ⟨atSrc, atTarget⟩ := free key row english found member
    have notSrc : lastSegment '"' row.jp ≠ Text.ascii "src_hex" :=
      fun isSrc => someEnglish (atSrc isSrc)
    rw [get?_firstTable]
    by_cases isTarget : lastSegment '"' row.jp = Text.ascii "target"
    · have lastTarget := atTarget isTarget
      rw [last, Option.some.injEq] at lastTarget
      rw [lastWrite_of_target wellKept found isTarget (List.mem_map.mpr ⟨_, member, rfl⟩),
        lastTarget]
      decide +kernel
    · rw [lastWrite_of_plain wellKept found notSrc isTarget, last]
      rfl
  · intro hash isSome
    rw [get?_firstTable, Option.isSome_iff_exists] at isSome
    obtain ⟨value, written⟩ := isSome
    obtain ⟨⟨key, english⟩, member, read⟩ :=
      List.mem_filterMap.mp (Dict.mem_of_lastWrite written)
    cases found : Dict.get? (inventoryRows lower inventory) key with
    | none =>
        rw [readRow, found] at read
        cases read
    | some row =>
        rw [readRow_of_found wellKept found] at read
        obtain ⟨_, valueEq, pairEq⟩ := Option.map_eq_some_iff.mp read
        have hashEq : row.hash = hash := congrArg Prod.fst pairEq
        by_cases empty : english = []
        · -- Only a Japanese text that ends in `target` makes an entry of no English.
          have isTarget : lastSegment '"' row.jp = Text.ascii "target" := by
            by_contra notTarget
            rw [StringRow.value, if_neg notTarget, if_pos empty, ite_self] at valueEq
            cases valueEq
          obtain ⟨targetMember, someTarget⟩ :=
            mem_of_lastEnglish ((free key row english found member).2 isTarget)
          exact ⟨key, row, _, found, targetMember, someTarget, hashEq⟩
        · exact ⟨key, row, english, found, member, empty, hashEq⟩

variable (pyStr : Json → Text)

/-- A first build means to the loader what the author wrote, unless a Japanese text
passes for the name of a field. -/
theorem cmdBuild_meansAuthored_iff {inventory : Inventory}
    (wellKept : inventory.WellKept lower) (keyEn : Text) :
    ∃ file, cmdBuild lower pyStr inventory (some keyEn) none = some file ∧
      (MeansAuthored lower inventory keyEn (loadTranslations file) ↔
        NoFieldNames lower inventory keyEn) := by
  refine ⟨_, rfl, ?_⟩
  rw [loadTranslations_firstBuild lower wellKept]
  exact ⟨noFieldNames_of_meansAuthored lower wellKept,
    meansAuthored_of_noFieldNames lower wellKept⟩

/-! ## One string -/

/-- An inventory of one string. -/
def oneString (row : StringRow) : Inventory := ⟨[(row.key, row)], []⟩

theorem get?_oneString {row found : StringRow} {key : Text}
    (isFound : Dict.get? (inventoryRows lower (oneString row)) key = some found) :
    lower row.key = key ∧ row = found := by
  have rows : inventoryRows lower (oneString row) = [(lower row.key, row)] := rfl
  rw [rows, Dict.get?_cons, Dict.get?_nil] at isFound
  split at isFound
  next same => exact ⟨same, Option.some.inj isFound⟩
  next => cases isFound

theorem wellKept_oneString {row : StringRow} (hex : IsHex row.srcHex) :
    (oneString row).WellKept lower := by
  constructor
  · intro key found isFound
    rw [← (get?_oneString lower isFound).2]
    exact hex
  · intro key found other otherFound isFound isOtherFound _
    rw [← (get?_oneString lower isFound).1, ← (get?_oneString lower isOtherFound).1]

/-- `str.lower` on ASCII. -/
def asciiLower (text : Text) : Text := text.map Char.toLower

def paruRow : StringRow :=
  ⟨Text.ascii "0xA8F686DD1968E233", Text.ascii "a5d1a5eba5d1a5eb", ['パ', 'ル', 'パ', 'ル']⟩

theorem cmdBuild_meansAuthored_iff_example :
    ∃ file, cmdBuild asciiLower (fun _ => []) (oneString paruRow)
        (some (Text.ascii "0xA8F686DD1968E233\tCloyster\n")) none = some file ∧
      (MeansAuthored asciiLower (oneString paruRow)
        (Text.ascii "0xA8F686DD1968E233\tCloyster\n") (loadTranslations file) ↔
        NoFieldNames asciiLower (oneString paruRow)
          (Text.ascii "0xA8F686DD1968E233\tCloyster\n")) :=
  cmdBuild_meansAuthored_iff asciiLower (fun _ => [])
    (wellKept_oneString asciiLower (by decide)) _

/-- The bytes of `target`, drawn as they stand. -/
def targetRow : StringRow :=
  ⟨Text.ascii "0x786D272CB7F82946", Text.ascii "746172676574", Text.ascii "target"⟩

/-- A string that reads `target` is translated as `target`, whatever its English. -/
theorem cmdBuild_loses_english :
    (oneString targetRow).WellKept asciiLower ∧
      ∃ file, cmdBuild asciiLower (fun _ => []) (oneString targetRow)
          (some (Text.ascii "0x786D272CB7F82946\tGoal\n")) none = some file ∧
        (Dict.get? (loadTranslations file) targetRow.hash).map XlateVal.en =
          some (CString.bytesOf "target") ∧
        ¬ MeansAuthored asciiLower (oneString targetRow)
          (Text.ascii "0x786D272CB7F82946\tGoal\n") (loadTranslations file) := by
  have read : (Dict.get? (loadTranslations (writeEntries
      ((joinRows asciiLower (oneString targetRow)
        (Text.ascii "0x786D272CB7F82946\tGoal\n")).map Joined.entry))) targetRow.hash).map
      XlateVal.en = some (CString.bytesOf "target") := by decide +kernel
  refine ⟨wellKept_oneString asciiLower (by decide), _, rfl, read, ?_⟩
  intro means
  have authored := means.authored (asciiLower targetRow.key) targetRow (Text.ascii "Goal")
    (by decide +kernel) (by decide +kernel)
  rw [read] at authored
  exact absurd authored (by decide +kernel)

end StadiumRecomp.Translate
