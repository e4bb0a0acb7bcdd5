import StadiumRecomp.Debug.Fields

/-!
Contract: the getters on what `tools/pms_cmd.py` and `tools/pms_drive.py` send.

Owns: the flat objects of the two clients, their text as `json.dumps` writes it, and what
the getters read from it.

Does not own: how a client comes to its fields, and the literals of floats.

The server undoes no escape. A getter stands at the first place where its key stands between
quotes, be it a key or a value.
-/

set_option autoImplicit false

namespace StadiumRecomp.Debug

open StadiumRecomp.Lib
open StadiumRecomp.Lib.Search

/-! ## Payloads -/

/-- `float.__repr__`, `NaN` or an infinity. -/
structure FloatText where
  bytes : Bytes
  unquoted : ∀ byte ∈ bytes, isQuote byte = false

inductive Value where
  | str (text : Text)
  | int (value : Int)
  | float (text : FloatText)
  | bool (value : Bool)

abbrev Field := Text × Value

/-- A dict of a client: every key once. -/
structure Payload where
  fields : List Field
  distinct : (fields.map Prod.fst).Nodup

inductive Sender where
  | pmsCmd
  | pmsDrive
deriving DecidableEq, Repr

/-! ## `json.dumps` -/

/-- A lower-case hexadecimal digit. -/
def hexDigit (digit : Nat) : UInt8 := UInt8.ofNat (Nat.digitChar digit).toNat

/-- `\\u{0:04x}`. -/
def unicodeEscape (code : Nat) : Bytes :=
  [0x5C, 0x75, hexDigit (code / 0x1000 % 16), hexDigit (code / 0x100 % 16),
    hexDigit (code / 0x10 % 16), hexDigit (code % 16)]

/-- A symbol that stands for itself in a JSON string of ASCII. -/
def isPlain (symbol : Char) : Bool :=
  0x20 ≤ symbol.toNat && symbol.toNat ≤ 0x7E && symbol != '"' && symbol != '\\'

/-- A symbol of a string as `ensure_ascii` writes it. -/
def escapeChar (symbol : Char) : Bytes :=
  if isPlain symbol then [UInt8.ofNat symbol.toNat]
  else if symbol = '"' then [0x5C, 0x22]
  else if symbol = '\\' then [0x5C, 0x5C]
  else if symbol = '\n' then [0x5C, 0x6E]
  else if symbol = '\r' then [0x5C, 0x72]
  else if symbol = '\t' then [0x5C, 0x74]
  else if symbol.toNat = 0x0C then [0x5C, 0x66]
  else if symbol.toNat = 0x08 then [0x5C, 0x62]
  else if symbol.toNat < 0x10000 then unicodeEscape symbol.toNat
  else
    unicodeEscape (0xD800 + (symbol.toNat - 0x10000) / 0x400) ++
      unicodeEscape (0xDC00 + (symbol.toNat - 0x10000) % 0x400)

def escaped (text : Text) : Bytes := text.flatMap escapeChar

def quoted (text : Text) : Bytes := 0x22 :: (escaped text ++ [0x22])

def valueText : Value → Bytes
  | .str text => quoted text
  | .int value => CString.decimal value
  | .float text => text.bytes
  | .bool true => trueWord
  | .bool false => falseWord

/-- `": "` or `":"`. -/
def Sender.keySeparator : Sender → Bytes
  | .pmsCmd => [0x3A, 0x20]
  | .pmsDrive => [0x3A]

/-- `", "` or `","`. -/
def Sender.itemSeparator : Sender → Bytes
  | .pmsCmd => [0x2C, 0x20]
  | .pmsDrive => [0x2C]

def fieldText (sender : Sender) (field : Field) : Bytes :=
  quoted field.1 ++ (sender.keySeparator ++ valueText field.2)

/-- The fields behind the first one, and the closing brace. -/
def fieldsText (sender : Sender) : List Field → Bytes
  | [] => [0x7D]
  | field :: rest => sender.itemSeparator ++ (fieldText sender field ++ fieldsText sender rest)

/-- `json.dumps` with the separators of the client. -/
def dumps (sender : Sender) (payload : Payload) : Bytes :=
  match payload.fields with
  | [] => [0x7B, 0x7D]
  | field :: rest => 0x7B :: (fieldText sender field ++ fieldsText sender rest)

/-! ## Keys in quotes -/

/-- A key of a getter: symbols that stand for themselves, the first one no separator. -/
structure PlainKey (key : Text) : Prop where
  plain : ∀ symbol ∈ key, isPlain symbol = true
  first : ∀ symbol ∈ key.head?, symbol ≠ ':' ∧ symbol ≠ ',' ∧ symbol ≠ '}'

/-- The key as a C string. -/
def asciiBytes (text : Text) : Bytes := text.map fun symbol => UInt8.ofNat symbol.toNat

/-- The string is the key, or ends with a quote and the key. -/
def Mentions (key text : Text) : Prop := text = key ∨ '"' :: key <:+ text

def MentionedIn (key : Text) (field : Field) : Prop :=
  Mentions key field.1 ∨ ∃ text, field.2 = .str text ∧ Mentions key text

theorem isPlain_bounds {symbol : Char} (plain : isPlain symbol = true) :
    0x20 ≤ symbol.toNat ∧ symbol.toNat ≤ 0x7E ∧ symbol ≠ '"' ∧ symbol ≠ '\\' := by
  unfold isPlain at plain
  simp only [Bool.and_eq_true, decide_eq_true_eq, bne_iff_ne] at plain
  obtain ⟨⟨⟨low, high⟩, noQuote⟩, noBackslash⟩ := plain
  exact ⟨low, high, noQuote, noBackslash⟩

theorem escapeChar_plain {symbol : Char} (plain : isPlain symbol = true) :
    escapeChar symbol = [UInt8.ofNat symbol.toNat] := if_pos plain

theorem escaped_plain {text : Text} (plain : ∀ symbol ∈ text, isPlain symbol = true) :
    escaped text = asciiBytes text := by
  induction text with
  | nil => rfl
  | cons symbol text inductionHypothesis =>
      unfold escaped
      rw [List.flatMap_cons, escapeChar_plain (plain symbol List.mem_cons_self)]
      show _ :: escaped text = _
      rw [inductionHypothesis (fun other member => plain other (List.mem_cons_of_mem _ member))]
      rfl

/-- Bytes of small code points are equal only for equal symbols. -/
theorem ofNat_toNat_inj {left right : Char} (leftSmall : left.toNat < 256)
    (rightSmall : right.toNat < 256)
    (same : UInt8.ofNat left.toNat = UInt8.ofNat right.toNat) : left = right := by
  have values := congrArg UInt8.toNat same
  rw [UInt8.toNat_ofNat', UInt8.toNat_ofNat', Nat.mod_eq_of_lt leftSmall,
    Nat.mod_eq_of_lt rightSmall] at values
  exact Char.toNat_inj.mp values

theorem plain_byte_ne {symbol : Char} (plain : isPlain symbol = true) :
    UInt8.ofNat symbol.toNat ≠ 0x22 ∧ UInt8.ofNat symbol.toNat ≠ 0x5C := by
  obtain ⟨_, high, noQuote, noBackslash⟩ := isPlain_bounds plain
  constructor
  · intro same
    exact noQuote (ofNat_toNat_inj (by omega) (by decide : '"'.toNat < 256) same)
  · intro same
    exact noBackslash (ofNat_toNat_inj (by omega) (by decide : '\\'.toNat < 256) same)

/-- Every other symbol is written behind a backslash. -/
theorem escapeChar_escape {symbol : Char} (special : ¬ isPlain symbol = true) :
    ∃ rest, escapeChar symbol = 0x5C :: rest := by
  unfold escapeChar
  rw [if_neg special]
  repeat' split
  all_goals exact ⟨_, rfl⟩

theorem hexDigit_ne_quote (digit : Nat) : hexDigit (digit % 16) ≠ 0x22 := by
  have small : digit % 16 < 16 := Nat.mod_lt _ (by decide)
  generalize digit % 16 = value at small
  have all : ∀ value < 16, hexDigit value ≠ 0x22 := by decide
  exact all value small

theorem quote_not_mem_unicodeEscape (code : Nat) : (0x22 : UInt8) ∉ unicodeEscape code := by
  unfold unicodeEscape
  intro member
  simp only [List.mem_cons, List.not_mem_nil, or_false] at member
  rcases member with bad | bad | bad | bad | bad | bad
  · exact absurd bad (by decide)
  · exact absurd bad (by decide)
  all_goals exact hexDigit_ne_quote _ bad.symm

/-- Only a quote is written with one. -/
theorem quote_not_mem_escapeChar {symbol : Char} (other : symbol ≠ '"') :
    (0x22 : UInt8) ∉ escapeChar symbol := by
  by_cases plain : isPlain symbol = true
  · rw [escapeChar_plain plain, List.mem_singleton]
    exact (plain_byte_ne plain).1.symm
  · unfold escapeChar
    rw [if_neg plain, if_neg other]
    repeat' split
    all_goals first
      | decide
      | exact quote_not_mem_unicodeEscape _
      | exact fun member => (List.mem_append.mp member).elim
          (quote_not_mem_unicodeEscape _) (quote_not_mem_unicodeEscape _)

theorem escaped_cons (symbol : Char) (text : Text) :
    escaped (symbol :: text) = escapeChar symbol ++ escaped text := rfl

/-- A string whose text begins like the key and its closing quote is the key. -/
theorem eq_of_prefix_escaped {key text : Text} {behind : Bytes}
    (plain : ∀ symbol ∈ key, isPlain symbol = true)
    (starts : asciiBytes key ++ [0x22] <+: escaped text ++ 0x22 :: behind) : text = key := by
  induction key generalizing text with
  | nil =>
      cases text with
      | nil => rfl
      | cons symbol text =>
          rw [escaped_cons] at starts
          by_cases shown : isPlain symbol = true
          · rw [escapeChar_plain shown] at starts
            exact absurd (List.cons_prefix_cons.mp starts).1 (plain_byte_ne shown).1.symm
          · obtain ⟨rest, escape⟩ := escapeChar_escape shown
            rw [escape] at starts
            exact absurd (List.cons_prefix_cons.mp starts).1 (by decide)
  | cons first key inductionHypothesis =>
      have firstPlain := plain first List.mem_cons_self
      obtain ⟨noQuote, noBackslash⟩ := plain_byte_ne firstPlain
      cases text with
      | nil => exact absurd (List.cons_prefix_cons.mp starts).1 noQuote
      | cons symbol text =>
          rw [escaped_cons] at starts
          by_cases shown : isPlain symbol = true
          · rw [escapeChar_plain shown] at starts
            obtain ⟨same, rest⟩ := List.cons_prefix_cons.mp starts
            have small := (isPlain_bounds shown).2.1
            have firstSmall := (isPlain_bounds firstPlain).2.1
            rw [ofNat_toNat_inj (by omega) (by omega) same]
            rw [inductionHypothesis
              (fun other member => plain other (List.mem_cons_of_mem _ member)) rest]
          · obtain ⟨rest, escape⟩ := escapeChar_escape shown
            rw [escape] at starts
            exact absurd (List.cons_prefix_cons.mp starts).1 noBackslash

/-- What follows a string: a separator or the closing brace. -/
def Separates (behind : Bytes) : Prop :=
  ∃ byte rest, behind = byte :: rest ∧ (byte = 0x3A ∨ byte = 0x2C ∨ byte = 0x7D)

theorem not_prefix_of_separates {key : Text} {behind : Bytes} (plainKey : PlainKey key)
    (separates : Separates behind) : ¬ asciiBytes key ++ [0x22] <+: behind := by
  obtain ⟨byte, rest, rfl, either⟩ := separates
  intro starts
  cases key with
  | nil =>
      have same := (List.cons_prefix_cons.mp starts).1
      rcases either with rfl | rfl | rfl <;> exact absurd same (by decide)
  | cons first others =>
      obtain ⟨noColon, noComma, noBrace⟩ := plainKey.first first rfl
      have small := (isPlain_bounds (plainKey.plain first List.mem_cons_self)).2.1
      have same := (List.cons_prefix_cons.mp starts).1
      rcases either with rfl | rfl | rfl
      · exact noColon (ofNat_toNat_inj (by omega) (by decide : ':'.toNat < 256) same)
      · exact noComma (ofNat_toNat_inj (by omega) (by decide : ','.toNat < 256) same)
      · exact noBrace (ofNat_toNat_inj (by omega) (by decide : '}'.toNat < 256) same)

theorem startsNowhere_escaped {key text : Text} {behind : Bytes} (plainKey : PlainKey key)
    (separates : Separates behind) (noSuffix : ¬ '"' :: key <:+ text) :
    StartsNowhere (needle (asciiBytes key)) (escaped text ++ [0x22]) behind := by
  induction text with
  | nil =>
      refine ⟨?_, trivial⟩
      intro starts
      exact not_prefix_of_separates plainKey separates (List.cons_prefix_cons.mp starts).2
  | cons symbol text inductionHypothesis =>
      have later := inductionHypothesis
        (fun suffix => noSuffix (suffix.trans (List.suffix_cons symbol text)))
      rw [escaped_cons, List.append_assoc]
      apply StartsNowhere.append _ later
      by_cases quote : symbol = '"'
      · subst quote
        refine ⟨?_, ?_, trivial⟩
        · intro starts
          exact absurd (List.cons_prefix_cons.mp starts).1 (by decide)
        · intro starts
          have inner := (List.cons_prefix_cons.mp starts).2
          rw [List.nil_append, List.append_assoc] at inner
          have same := eq_of_prefix_escaped plainKey.plain inner
          rw [same] at noSuffix
          exact noSuffix (List.suffix_refl _)
      · exact startsNowhere_of_not_mem (quote_not_mem_escapeChar quote)

/-- The quoted key starts nowhere in a string that does not mention it. -/
theorem startsNowhere_quoted {key text : Text} {behind : Bytes} (plainKey : PlainKey key)
    (separates : Separates behind) (unmentioned : ¬ Mentions key text) :
    StartsNowhere (needle (asciiBytes key)) (quoted text) behind := by
  refine ⟨?_, startsNowhere_escaped plainKey separates (fun suffix => unmentioned (.inr suffix))⟩
  intro starts
  have inner := (List.cons_prefix_cons.mp starts).2
  rw [List.append_assoc] at inner
  exact unmentioned (.inl (eq_of_prefix_escaped plainKey.plain inner))

/-! ## Fields -/

theorem quote_not_mem_keySeparator (sender : Sender) : (0x22 : UInt8) ∉ sender.keySeparator := by
  cases sender <;> decide

theorem quote_not_mem_itemSeparator (sender : Sender) : (0x22 : UInt8) ∉ sender.itemSeparator := by
  cases sender <;> decide

/-- Only a string is written with quotes. -/
theorem quote_not_mem_valueText {value : Value} (other : ∀ text, value ≠ .str text) :
    (0x22 : UInt8) ∉ valueText value := by
  cases value with
  | str text => exact absurd rfl (other text)
  | int value =>
      intro member
      have digits : (0x22 : UInt8) ∉ CString.decimalDigits value.natAbs := fun inside =>
        absurd (CString.isDigit_of_mem_decimalDigits inside) (by decide)
      have shape : valueText (.int value) = CString.decimal value := rfl
      rw [shape] at member
      unfold CString.decimal at member
      split at member
      · rcases List.mem_cons.mp member with minus | inside
        · exact absurd minus (by decide)
        · exact digits inside
      · exact digits member
  | float text =>
      intro member
      exact absurd (text.unquoted _ member) (by decide)
  | bool value => cases value <;> decide

theorem separates_keySeparator (sender : Sender) (rest : Bytes) :
    Separates (sender.keySeparator ++ rest) := by
  cases sender with
  | pmsCmd => exact ⟨0x3A, 0x20 :: rest, rfl, .inl rfl⟩
  | pmsDrive => exact ⟨0x3A, rest, rfl, .inl rfl⟩

theorem separates_itemSeparator (sender : Sender) (rest : Bytes) :
    Separates (sender.itemSeparator ++ rest) := by
  cases sender with
  | pmsCmd => exact ⟨0x2C, 0x20 :: rest, rfl, .inr (.inl rfl)⟩
  | pmsDrive => exact ⟨0x2C, rest, rfl, .inr (.inl rfl)⟩

theorem separates_fieldsText (sender : Sender) (fields : List Field) :
    Separates (fieldsText sender fields) := by
  cases fields with
  | nil => exact ⟨0x7D, [], rfl, .inr (.inr rfl)⟩
  | cons field rest => exact separates_itemSeparator sender _

theorem startsNowhere_fieldText {key : Text} {field : Field} {behind : Bytes} (sender : Sender)
    (plainKey : PlainKey key) (separates : Separates behind)
    (unmentioned : ¬ MentionedIn key field) :
    StartsNowhere (needle (asciiBytes key)) (fieldText sender field) behind := by
  have name : ¬ Mentions key field.1 := fun mentions => unmentioned (.inl mentions)
  have value : StartsNowhere (needle (asciiBytes key)) (valueText field.2) behind := by
    by_cases string : ∃ text, field.2 = .str text
    · obtain ⟨text, shape⟩ := string
      rw [shape]
      apply startsNowhere_quoted plainKey separates
      exact fun mentions => unmentioned (.inr ⟨text, shape, mentions⟩)
    · apply startsNowhere_of_not_mem
      exact quote_not_mem_valueText (fun text same => string ⟨text, same⟩)
  unfold fieldText
  apply StartsNowhere.append
  · apply startsNowhere_quoted plainKey _ name
    rw [List.append_assoc]
    exact separates_keySeparator sender _
  · exact (startsNowhere_of_not_mem (quote_not_mem_keySeparator sender)).append value

theorem startsNowhere_fieldsText {key : Text} {fields : List Field} (sender : Sender)
    (plainKey : PlainKey key) (unmentioned : ∀ field ∈ fields, ¬ MentionedIn key field) :
    StartsNowhere (needle (asciiBytes key)) (fieldsText sender fields) [] := by
  induction fields with
  | nil =>
      show StartsNowhere _ [0x7D] []
      exact startsNowhere_of_not_mem (by decide)
  | cons field rest inductionHypothesis =>
      have later := inductionHypothesis
        (fun other member => unmentioned other (List.mem_cons_of_mem _ member))
      have separates := separates_fieldsText sender rest
      rw [← List.append_nil (fieldsText sender rest)] at separates
      unfold fieldsText
      apply StartsNowhere.append
      · exact startsNowhere_of_not_mem (quote_not_mem_itemSeparator sender)
      · apply StartsNowhere.append _ later
        exact startsNowhere_fieldText sender plainKey separates
          (unmentioned field List.mem_cons_self)

/-! ## Where the getters read -/

/-- The text in front of a field. -/
def frontText (sender : Sender) : List Field → Bytes
  | [] => [0x7B]
  | first :: before =>
      0x7B :: (fieldText sender first ++
        (before.flatMap (fun field => sender.itemSeparator ++ fieldText sender field) ++
          sender.itemSeparator))

theorem fieldsText_append (sender : Sender) (before rest : List Field) :
    fieldsText sender (before ++ rest) =
      before.flatMap (fun field => sender.itemSeparator ++ fieldText sender field) ++
        fieldsText sender rest := by
  induction before with
  | nil => rfl
  | cons field before inductionHypothesis =>
      rw [List.cons_append, fieldsText, inductionHypothesis, List.flatMap_cons]
      simp only [List.append_assoc]

theorem dumps_eq (sender : Sender) {payload : Payload} {before after : List Field} {own : Field}
    (split : payload.fields = before ++ own :: after) :
    dumps sender payload = frontText sender before ++
      (fieldText sender own ++ fieldsText sender after) := by
  unfold dumps
  rw [split]
  cases before with
  | nil => rfl
  | cons first before =>
      show 0x7B :: (fieldText sender first ++ fieldsText sender (before ++ own :: after)) = _
      rw [fieldsText_append]
      unfold frontText
      simp only [fieldsText, List.cons_append, List.append_assoc]

theorem startsNowhere_frontText {key : Text} {before : List Field} {behind : Bytes}
    (sender : Sender) (plainKey : PlainKey key)
    (unmentioned : ∀ field ∈ before, ¬ MentionedIn key field) :
    StartsNowhere (needle (asciiBytes key)) (frontText sender before) behind := by
  have items : ∀ fields : List Field, (∀ field ∈ fields, ¬ MentionedIn key field) →
      StartsNowhere (needle (asciiBytes key))
        (fields.flatMap (fun field => sender.itemSeparator ++ fieldText sender field) ++
          sender.itemSeparator) behind ∧
      ∀ front : Bytes, Separates
        (fields.flatMap (fun field => sender.itemSeparator ++ fieldText sender field) ++
          sender.itemSeparator ++ front) := by
    intro fields
    induction fields with
    | nil =>
        intro _
        refine ⟨startsNowhere_of_not_mem (quote_not_mem_itemSeparator sender), ?_⟩
        exact fun front => separates_itemSeparator sender front
    | cons field fields inductionHypothesis =>
        intro unmentioned
        obtain ⟨later, separates⟩ := inductionHypothesis
          (fun other member => unmentioned other (List.mem_cons_of_mem _ member))
        rw [List.flatMap_cons, List.append_assoc, List.append_assoc]
        constructor
        · apply StartsNowhere.append
          · exact startsNowhere_of_not_mem (quote_not_mem_itemSeparator sender)
          · apply StartsNowhere.append _ later
            exact startsNowhere_fieldText sender plainKey (separates behind)
              (unmentioned field List.mem_cons_self)
        · intro front
          rw [List.append_assoc]
          exact separates_itemSeparator sender _
  cases before with
  | nil =>
      show StartsNowhere _ [0x7B] behind
      exact startsNowhere_of_not_mem (by decide)
  | cons first before =>
      obtain ⟨later, separates⟩ := items before
        (fun other member => unmentioned other (List.mem_cons_of_mem _ member))
      have brace : StartsNowhere (needle (asciiBytes key)) [0x7B]
          ((fieldText sender first ++ (before.flatMap (fun field =>
            sender.itemSeparator ++ fieldText sender field) ++ sender.itemSeparator)) ++ behind) :=
        startsNowhere_of_not_mem (by decide)
      apply brace.append
      apply StartsNowhere.append _ later
      exact startsNowhere_fieldText sender plainKey (separates behind)
        (unmentioned first List.mem_cons_self)

/-- Blanks behind the colon. -/
def Sender.blanks : Sender → Bytes
  | .pmsCmd => [0x20]
  | .pmsDrive => []

theorem keySeparator_eq (sender : Sender) : sender.keySeparator = 0x3A :: sender.blanks := by
  cases sender <;> rfl

/-- The getters stand at the value of their field when nothing in front mentions the key. -/
theorem behindColon_of_field {key : Text} {payload : Payload} {before after : List Field}
    {value : Value} (sender : Sender) (plainKey : PlainKey key)
    (split : payload.fields = before ++ (key, value) :: after)
    (unmentioned : ∀ field ∈ before, ¬ MentionedIn key field) :
    behindColon (dumps sender payload) (asciiBytes key) =
      some (sender.blanks ++ (valueText value ++ fieldsText sender after)) := by
  have shape : dumps sender payload = frontText sender before ++ (needle (asciiBytes key) ++
      (0x3A :: (sender.blanks ++ (valueText value ++ fieldsText sender after)))) := by
    rw [dumps_eq sender split]
    unfold fieldText quoted needle
    rw [escaped_plain plainKey.plain, keySeparator_eq]
    simp only [List.append_assoc, List.cons_append]
  have found := indexOf?_of_startsNowhere
    (startsNowhere_frontText sender plainKey unmentioned : StartsNowhere _ _
      (needle (asciiBytes key) ++
        (0x3A :: (sender.blanks ++ (valueText value ++ fieldsText sender after)))))
  unfold behindColon
  rw [shape, found]
  show (Text.splitFirst isColon (List.drop _ _) >>= _) = _
  rw [← List.append_assoc, ← List.length_append, List.drop_left]
  rfl

/-- Where nothing mentions the key, the getters find no field. -/
theorem behindColon_of_absent {key : Text} {payload : Payload} (sender : Sender)
    (plainKey : PlainKey key) (unmentioned : ∀ field ∈ payload.fields, ¬ MentionedIn key field) :
    behindColon (dumps sender payload) (asciiBytes key) = none := by
  have nowhere : StartsNowhere (needle (asciiBytes key)) (dumps sender payload) [] := by
    unfold dumps
    split
    · exact startsNowhere_of_not_mem (by decide)
    next first rest split =>
      rw [split] at unmentioned
      have later := startsNowhere_fieldsText sender plainKey
        (fun other member => unmentioned other (List.mem_cons_of_mem _ member))
      have separates := separates_fieldsText sender rest
      rw [← List.append_nil (fieldsText sender rest)] at separates
      have brace : StartsNowhere (needle (asciiBytes key)) [0x7B]
          ((fieldText sender first ++ fieldsText sender rest) ++ []) :=
        startsNowhere_of_not_mem (by decide)
      apply brace.append
      apply StartsNowhere.append _ later
      exact startsNowhere_fieldText sender plainKey separates
        (unmentioned first List.mem_cons_self)
  have nonempty : needle (asciiBytes key) ≠ [] := List.cons_ne_nil _ _
  unfold behindColon
  rw [indexOf?_eq_none_of_startsNowhere nonempty nowhere]
  rfl

/-! ## What the getters return -/

theorem quote_not_mem_blanks (sender : Sender) : ∀ byte ∈ sender.blanks, isQuote byte = false := by
  cases sender with
  | pmsCmd => exact List.all_iff_forall_prop.mp (by decide)
  | pmsDrive => exact fun byte member => absurd member List.not_mem_nil

theorem isSpace_blanks (sender : Sender) :
    ∀ byte ∈ sender.blanks, CString.isSpace byte = true := by
  cases sender with
  | pmsCmd => exact List.all_iff_forall_prop.mp (by decide)
  | pmsDrive => exact fun byte member => absurd member List.not_mem_nil

/-- The getters read nothing of a number behind it. -/
theorem not_digit_fieldsText (sender : Sender) (fields : List Field) :
    ∀ byte ∈ (fieldsText sender fields).head?, CString.isDigit byte = false := by
  intro byte member
  obtain ⟨first, rest, shape, either⟩ := separates_fieldsText sender fields
  rw [shape] at member
  cases member
  rcases either with rfl | rfl | rfl <;> rfl

/-- The text of a string up to its first quote, an escaped one included. -/
def firstPart (text : Text) : Bytes := (escaped text).takeWhile fun byte => !isQuote byte

theorem splitFirst_takeWhile {front behind : Bytes} {byte : UInt8} (quote : isQuote byte = true) :
    ∃ rest, Text.splitFirst isQuote (front ++ byte :: behind) =
      some (front.takeWhile fun byte => !isQuote byte, rest) := by
  induction front with
  | nil =>
      refine ⟨behind, ?_⟩
      rw [List.nil_append, Text.splitFirst, if_pos quote]
      rfl
  | cons first front inductionHypothesis =>
      obtain ⟨rest, split⟩ := inductionHypothesis
      by_cases here : isQuote first = true
      · refine ⟨front ++ byte :: behind, ?_⟩
        rw [List.cons_append, Text.splitFirst, if_pos here,
          List.takeWhile_cons_of_neg (by rw [here]; exact Bool.false_ne_true)]
      · have plain : isQuote first = false := Bool.eq_false_iff.mpr here
        refine ⟨rest, ?_⟩
        rw [List.cons_append, Text.splitFirst, if_neg here, split,
          List.takeWhile_cons_of_pos (by rw [plain]; rfl)]
        rfl

theorem firstPart_plain {text : Text} (plain : ∀ symbol ∈ text, isPlain symbol = true) :
    firstPart text = asciiBytes text := by
  unfold firstPart
  rw [escaped_plain plain]
  apply List.takeWhile_eq_self_iff.mpr
  intro byte member
  obtain ⟨symbol, inside, rfl⟩ := List.mem_map.mp member
  have other := (plain_byte_ne (plain symbol inside)).1
  unfold isQuote
  rw [beq_eq_false_iff_ne.mpr other]
  rfl

section Getters

variable {body key rest : Bytes}

theorem getStr_none (absent : behindColon body key = none) : getStr body key = [] := by
  unfold getStr
  rw [absent]

theorem getInt_none (absent : behindColon body key = none) (dflt : Int) :
    getInt body key dflt = dflt := by
  unfold getInt
  rw [absent]

theorem getBool_none (absent : behindColon body key = none) (dflt : Bool) :
    getBool body key dflt = dflt := by
  unfold getBool
  rw [absent]

theorem getStr_str {blanks : Bytes} {text : Text}
    (noQuote : ∀ byte ∈ blanks, isQuote byte = false)
    (found : behindColon body key = some (blanks ++ (quoted text ++ rest))) :
    getStr body key = firstPart text := by
  have opening : Text.splitFirst isQuote (blanks ++ (quoted text ++ rest)) =
      some (blanks, escaped text ++ 0x22 :: rest) := by
    have shape : quoted text ++ rest = 0x22 :: (escaped text ++ 0x22 :: rest) := by
      unfold quoted
      rw [List.cons_append, List.append_assoc]
      rfl
    rw [shape]
    exact Text.splitFirst_append noQuote rfl _
  obtain ⟨behind, closing⟩ := @splitFirst_takeWhile (escaped text) rest 0x22 rfl
  unfold getStr
  simp only [found, opening, closing]
  rfl

/-- No quote follows the value of the last field. -/
theorem getStr_unquoted (noQuote : ∀ byte ∈ rest, isQuote byte = false)
    (found : behindColon body key = some rest) : getStr body key = [] := by
  unfold getStr
  simp only [found, Text.splitFirst_eq_none_iff.mpr noQuote]

theorem getInt_int {blanks : Bytes} {value : Int}
    (blank : ∀ byte ∈ blanks, CString.isSpace byte = true)
    (ends : ∀ byte ∈ rest.head?, CString.isDigit byte = false)
    (found : behindColon body key = some (blanks ++ (CString.decimal value ++ rest)))
    (dflt : Int) : getInt body key dflt = max (-0x80000000) (min 0x7FFFFFFF value) := by
  unfold getInt
  rw [found]
  show strtol _ = _
  unfold strtol
  rw [CString.atoi_decimal value blank ends]

/-- The word or digit of a truth value. -/
def truthTexts (value : Bool) : List Bytes :=
  if value then [trueWord, [0x31]] else [falseWord, [0x30]]

theorem getBool_truth {blanks word : Bytes} {value : Bool}
    (blank : ∀ byte ∈ blanks, CString.isSpace byte = true) (truth : word ∈ truthTexts value)
    (found : behindColon body key = some (blanks ++ (word ++ rest))) (dflt : Bool) :
    getBool body key dflt = value := by
  unfold getBool truthTexts at *
  rw [found]
  simp only [List.dropWhile_append_of_pos blank]
  cases value with
  | true =>
      simp only [if_true, List.mem_cons, List.not_mem_nil, or_false] at truth
      rcases truth with rfl | rfl
      · rfl
      · have digit : ([0x31] ++ rest).dropWhile CString.isSpace = 0x31 :: rest := rfl
        rw [digit]
        show (if (_ || true) = true then true else _) = true
        rw [Bool.or_true, if_pos rfl]
  | false =>
      simp only [Bool.false_eq_true, if_false, List.mem_cons, List.not_mem_nil, or_false] at truth
      rcases truth with rfl | rfl <;> rfl

end Getters

/-- A field in front that leads a getter astray: its string is the key, or its name or string
ends with a quote and the key. -/
def Misleads (key : Text) : Field → Prop
  | (name, .str text) => '"' :: key <:+ name ∨ text = key ∨ '"' :: key <:+ text
  | (name, _) => '"' :: key <:+ name

instance (key : Text) (field : Field) : Decidable (Misleads key field) :=
  match field with
  | (_, .str _) => inferInstanceAs (Decidable (_ ∨ _ ∨ _))
  | (name, .int _) => inferInstanceAs (Decidable ('"' :: key <:+ name))
  | (name, .float _) => inferInstanceAs (Decidable ('"' :: key <:+ name))
  | (name, .bool _) => inferInstanceAs (Decidable ('"' :: key <:+ name))

theorem not_mentionedIn {key : Text} {field : Field} (name : field.1 ≠ key)
    (straight : ¬ Misleads key field) : ¬ MentionedIn key field := by
  obtain ⟨fieldName, value⟩ := field
  intro mentioned
  apply straight
  rcases mentioned with (same | suffix) | ⟨text, string, mentions⟩
  · exact absurd same name
  · cases value with
    | str text => exact .inl suffix
    | int value => exact suffix
    | float text => exact suffix
    | bool value => exact suffix
  · have shape : value = .str text := string
    subst shape
    exact .inr mentions

/-- What the getters return for a field: the text of a string as it is written, up to its
first quote; an integer as a `long`; a truth value; and no text for the last value that is
no string. -/
def ReadsValue (body key : Bytes) (last : Prop) : Value → Prop
  | .str text => getStr body key = firstPart text ∧
      ((∀ symbol ∈ text, isPlain symbol = true) → getStr body key = asciiBytes text)
  | .int value =>
      (∀ dflt, getInt body key dflt = max (-0x80000000) (min 0x7FFFFFFF value)) ∧
      (value = 0 → ∀ dflt, getBool body key dflt = false) ∧
      (value = 1 → ∀ dflt, getBool body key dflt = true) ∧ (last → getStr body key = [])
  | .float _ => last → getStr body key = []
  | .bool value => (∀ dflt, getBool body key dflt = value) ∧ (last → getStr body key = [])

theorem fieldsText_closes (sender : Sender) (fields : List Field) :
    ∃ front, fieldsText sender fields = front ++ [0x7D] := by
  induction fields with
  | nil => exact ⟨[], rfl⟩
  | cons field rest inductionHypothesis =>
      obtain ⟨front, shape⟩ := inductionHypothesis
      refine ⟨sender.itemSeparator ++ (fieldText sender field ++ front), ?_⟩
      rw [fieldsText, shape]
      simp only [List.append_assoc]

/-- Braces stand at both ends. -/
theorem trim_dumps (sender : Sender) (payload : Payload) :
    trim (dumps sender payload) = dumps sender payload := by
  have closes : ∃ front, dumps sender payload = 0x7B :: (front ++ [0x7D]) := by
    unfold dumps
    split
    · exact ⟨[], rfl⟩
    next first rest _ =>
      obtain ⟨front, shape⟩ := fieldsText_closes sender rest
      refine ⟨fieldText sender first ++ front, ?_⟩
      rw [shape, List.append_assoc]
  obtain ⟨front, shape⟩ := closes
  apply Text.strip_eq_self
  · intro symbol first
    rw [shape] at first
    cases first
    rfl
  · intro symbol last
    rw [shape, ← List.cons_append, List.getLast?_concat] at last
    cases last
    rfl

theorem readsValue_of_found {body key : Bytes} {sender : Sender} {value : Value}
    {after : List Field} (found : behindColon body key =
      some (sender.blanks ++ (valueText value ++ fieldsText sender after))) :
    ReadsValue body key (after = []) value := by
  have unquoted : (∀ text, value ≠ .str text) → after = [] → getStr body key = [] := by
    intro other last
    apply getStr_unquoted _ found
    intro byte member
    rw [last] at member
    rcases List.mem_append.mp member with blank | inside
    · exact quote_not_mem_blanks sender byte blank
    · apply beq_eq_false_iff_ne.mpr
      rintro rfl
      rcases List.mem_append.mp inside with own | brace
      · exact quote_not_mem_valueText other own
      · exact absurd (List.mem_singleton.mp brace) (by decide)
  cases value with
  | str text =>
      have read := getStr_str (quote_not_mem_blanks sender) found
      exact ⟨read, fun plain => read.trans (firstPart_plain plain)⟩
  | int value =>
      refine ⟨getInt_int (isSpace_blanks sender) (not_digit_fieldsText sender after) found, ?_, ?_,
        unquoted (fun text same => by cases same)⟩
      · rintro rfl
        exact getBool_truth (isSpace_blanks sender) (List.mem_cons_of_mem _ List.mem_cons_self) found
      · rintro rfl
        exact getBool_truth (isSpace_blanks sender) (List.mem_cons_of_mem _ List.mem_cons_self) found
  | float text => exact unquoted (fun text same => by cases same)
  | bool value =>
      refine ⟨?_, unquoted (fun text same => by cases same)⟩
      apply getBool_truth (isSpace_blanks sender) _ found
      cases value <;> exact List.mem_cons_self

/-- The getters read each field's own value: of an absent key nothing, and of a present one
what stands in its field, as long as no field in front leads them astray. -/
theorem getters_of_payload (sender : Sender) (payload : Payload) {key : Text}
    (plainKey : PlainKey key) :
    ((∀ field ∈ payload.fields, field.1 ≠ key ∧ ¬ Misleads key field) →
      getStr (trim (dumps sender payload)) (asciiBytes key) = [] ∧
      (∀ dflt, getInt (trim (dumps sender payload)) (asciiBytes key) dflt = dflt) ∧
      ∀ dflt, getBool (trim (dumps sender payload)) (asciiBytes key) dflt = dflt) ∧
    ∀ before value after, payload.fields = before ++ (key, value) :: after →
      (∀ field ∈ before, ¬ Misleads key field) →
        ReadsValue (trim (dumps sender payload)) (asciiBytes key) (after = []) value := by
  rw [trim_dumps]
  constructor
  · intro straight
    have absent := behindColon_of_absent sender plainKey
      (fun field member => not_mentionedIn (straight field member).1 (straight field member).2)
    exact ⟨getStr_none absent, getInt_none absent, getBool_none absent⟩
  · intro before value after split straight
    have distinct := payload.distinct
    rw [split, List.map_append, List.map_cons] at distinct
    have others := (List.nodup_append.mp distinct).2.2
    apply readsValue_of_found
    apply behindColon_of_field sender plainKey split
    intro field member
    apply not_mentionedIn _ (straight field member)
    exact others field.1 (List.mem_map_of_mem member) key List.mem_cons_self

/-- A stick command as `pms_drive.py` sends it. -/
def stickPayload : Payload where
  fields := [(['c', 'm', 'd'], .str ['s', 'e', 't', '_', 's', 't', 'i', 'c', 'k']),
    (['x'], .int (-80)), (['y'], .int 7)]
  distinct := by decide

theorem getters_of_stickPayload :
    getStr (trim (dumps .pmsDrive stickPayload)) (asciiBytes ['n', 'a', 'm', 'e']) = [] ∧
      getInt (trim (dumps .pmsDrive stickPayload)) (asciiBytes ['x']) 0 = -80 := by
  have name : PlainKey ['n', 'a', 'm', 'e'] :=
    ⟨List.all_eq_true.mp (by decide), fun _ isHead => by
      cases isHead
      decide⟩
  have x : PlainKey ['x'] :=
    ⟨List.all_eq_true.mp (by decide), fun _ isHead => by
      cases isHead
      decide⟩
  constructor
  · exact ((getters_of_payload .pmsDrive stickPayload name).1 (by decide)).1
  · exact ((getters_of_payload .pmsDrive stickPayload x).2 [_] (.int (-80)) [_] rfl
      (by decide)).1 0

/-- An escaped string, an integer of more than 32 bits, a number in front of another name, and
a string that is another field's name. -/
def astrayFields : List (List Field) :=
  [[(['c', 'm', 'd'], .str ['x']), (['t', 'a', 'g'], .str ['a', '\\', 'b'])],
    [(['c', 'm', 'd'], .str ['x']), (['l', 'e', 'n'], .int 4294967296)],
    [(['c', 'm', 'd'], .str ['x']), (['n', 'a', 'm', 'e'], .int 1), (['b'], .str ['c'])],
    [(['c', 'm', 'd'], .str ['d', 'o', 'w', 'n']), (['x'], .int 0),
      (['d', 'o', 'w', 'n'], .bool true)]]

/-- No getter returns the value of its field there. -/
theorem getters_astray : ∃ escape wide number name : Payload,
    [escape.fields, wide.fields, number.fields, name.fields] = astrayFields ∧
    getStr (trim (dumps .pmsCmd escape)) [0x74, 0x61, 0x67] = [0x61, 0x5C, 0x5C, 0x62] ∧
    getInt (trim (dumps .pmsCmd wide)) [0x6C, 0x65, 0x6E] 256 = 2147483647 ∧
    getStr (trim (dumps .pmsCmd number)) [0x6E, 0x61, 0x6D, 0x65] = [0x62] ∧
    getBool (trim (dumps .pmsCmd name)) [0x64, 0x6F, 0x77, 0x6E] true = false :=
  ⟨⟨_, by decide⟩, ⟨_, by decide⟩, ⟨_, by decide⟩, ⟨_, by decide⟩, rfl,
    by decide, by decide, by decide, by decide⟩

end StadiumRecomp.Debug
