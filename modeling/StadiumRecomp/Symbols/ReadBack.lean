import StadiumRecomp.Symbols.Adds
import StadiumRecomp.Symbols.Listing

/-!
Contract: what `scan_missing_funcs` reads back of a written `symbols.toml`.

Owns: the file as it is read, the patterns over quoted names, and that the section and the
functions are read as the generator wrote them.

Does not own: names and section names with an equals sign, which the patterns may read as keys.
-/

set_option autoImplicit false

namespace StadiumRecomp.Symbols

open StadiumRecomp.Lib
open StadiumRecomp.Lib.PyInt
open StadiumRecomp.Lib.PyText

/-! ## The patterns over a quoted text -/

section Patterns

variable {key text rest : Text}

/-- An assignment does not reach over a quote, and needs its sign before. -/
theorem assignment_quoted (plainKey : '"' ∉ key) (plain : '=' ∉ text) (rest : Text) :
    assignment key (text ++ '"' :: rest) = none := by
  unfold assignment
  rw [Search.dropPrefix?_append_cons plainKey]
  cases dropped : Search.dropPrefix? key text with
  | none => rfl
  | some behind =>
      have within : ∀ symbol ∈ behind, symbol ∈ text := fun symbol member => by
        rw [Search.dropPrefix?_eq_some.mp dropped]
        exact List.mem_append_right _ member
      have stop : (behind ++ '"' :: rest).dropWhile pySpace =
          behind.dropWhile pySpace ++ '"' :: rest :=
        Text.dropWhile_append_stop (show pySpace '"' = false by decide) behind rest
      simp only [Option.map_some, Option.bind_eq_bind, Option.bind_some, stop]
      cases left : behind.dropWhile pySpace with
      | nil => rfl
      | cons symbol others =>
          have other : ¬ '=' = symbol := fun same => plain (within '=' (by
            rw [same]
            exact (List.dropWhile_sublist _).subset (left ▸ List.mem_cons_self)))
          show (if _ then _ else none : Option Text).bind _ = none
          rw [if_neg other]
          rfl

theorem hexField_none (nowhere : assignment key text = none) : hexField key text = none := by
  unfold hexField
  rw [nowhere]
  rfl

theorem matchEntry_none (nowhere : hexField "vram".toList text = none) :
    matchEntry text = none := by
  unfold matchEntry
  rw [nowhere]
  rfl

theorem matchEntry_quoted (plain : '=' ∉ text) (rest : Text) :
    matchEntry (text ++ '"' :: rest) = none :=
  matchEntry_none (hexField_none (assignment_quoted (by decide) plain rest))

/-- An entry starts with a `v`. -/
theorem matchEntry_other {symbol : Char} (other : symbol ≠ 'v') (text : Text) :
    matchEntry (symbol :: text) = none := by
  have nowhere : assignment "vram".toList (symbol :: text) = none := by
    show (if 'v' = symbol then _ else none : Option Text).bind _ = none
    rw [if_neg (Ne.symm other)]
    rfl
  exact matchEntry_none (hexField_none nowhere)

/-- The entries from a place on. -/
def entriesFrom (text : Text) : List (Text × Text) := Search.findAll matchEntry 0 text

theorem entriesFrom_skip (absent : 'v' ∉ text) (rest : Text) :
    entriesFrom (text ++ rest) = entriesFrom rest :=
  Search.findAll_append fun _ member behind =>
    matchEntry_other (fun same => absent (same ▸ member)) behind

theorem entriesFrom_none {symbol : Char} (nowhere : matchEntry (symbol :: text) = none) :
    entriesFrom (symbol :: text) = entriesFrom text := by
  unfold entriesFrom
  rw [Search.findAll, nowhere]

theorem entriesFrom_quoted (plain : '=' ∉ text) (rest : Text) :
    entriesFrom (text ++ '"' :: rest) = entriesFrom rest := by
  induction text with
  | nil => exact entriesFrom_none (matchEntry_quoted plain rest)
  | cons symbol text inductionHypothesis =>
      exact (entriesFrom_none (matchEntry_quoted plain rest)).trans
        (inductionHypothesis fun member => plain (List.mem_cons_of_mem _ member))

/-- The value that the search for a key finds, from a place on. -/
def assignedFrom (key text : Text) : Option Text :=
  (Search.firstMatch (fun text => (Search.dropPrefix? ['\n'] text).bind (assignedValue key))
    text).map Prod.snd

theorem assignedFrom_feed (key text : Text) : assignedFrom key ('\n' :: text) =
    (assignedValue key text).or (assignedFrom key text) :=
  Search.firstMatch_cons_snd _ '\n' text

theorem assignedFrom_skip {symbol : Char} (other : symbol ≠ '\n') (key text : Text) :
    assignedFrom key (symbol :: text) = assignedFrom key text := by
  have nowhere : (Search.dropPrefix? ['\n'] (symbol :: text)).bind (assignedValue key) = none := by
    show (if '\n' = symbol then _ else none : Option Text).bind _ = none
    rw [if_neg (Ne.symm other)]
    rfl
  unfold assignedFrom
  rw [Search.firstMatch_cons_snd, nowhere]
  rfl

theorem assignedFrom_plain (plain : '\n' ∉ text) (key rest : Text) :
    assignedFrom key (text ++ rest) = assignedFrom key rest := by
  induction text with
  | nil => rfl
  | cons symbol text inductionHypothesis =>
      obtain ⟨here, later⟩ := List.ne_and_not_mem_of_not_mem_cons plain
      exact (assignedFrom_skip (Ne.symm here) key _).trans (inductionHypothesis later)

/-- A line that does not start with the key is passed over. -/
theorem assignedFrom_line (other : Search.dropPrefix? key (text ++ rest) = none)
    (plain : '\n' ∉ text) :
    assignedFrom key ('\n' :: (text ++ rest)) = assignedFrom key rest := by
  have nowhere : assignedValue key (text ++ rest) = none := by
    unfold assignedValue assignment
    rw [other]
    rfl
  rw [assignedFrom_feed, nowhere]
  exact assignedFrom_plain plain key rest

theorem assignedFrom_quoted (plainKey : '"' ∉ key) (plain : '=' ∉ text) (rest : Text) :
    assignedFrom key (text ++ '"' :: rest) = assignedFrom key rest := by
  induction text with
  | nil => exact assignedFrom_skip (by decide) key rest
  | cons symbol text inductionHypothesis =>
      have tail := inductionHypothesis fun member => plain (List.mem_cons_of_mem _ member)
      by_cases feed : symbol = '\n'
      · have nowhere : assignedValue key (text ++ '"' :: rest) = none := by
          unfold assignedValue
          rw [assignment_quoted plainKey
            (fun member => plain (List.mem_cons_of_mem _ member)) rest]
          rfl
        rw [feed, List.cons_append, assignedFrom_feed, nowhere]
        exact tail
      · exact (assignedFrom_skip feed key _).trans tail

end Patterns

/-! ## The text of `symbols.toml` -/

section Written

variable {sectionName : Text} {rom : Int} {bounds : Section} {funcs : List Fn}

theorem mem_of_mem_universalNewlines {file : Text} {symbol : Char}
    (member : symbol ∈ universalNewlines file) : symbol ∈ file ∨ symbol = '\n' := by
  fun_induction universalNewlines file with
  | case1 rest inductionHypothesis =>
      rcases List.mem_cons.mp member with feed | inside
      · exact Or.inr feed
      · exact (inductionHypothesis inside).imp
          (fun found => List.mem_cons_of_mem _ (List.mem_cons_of_mem _ found)) id
  | case2 rest _ inductionHypothesis =>
      rcases List.mem_cons.mp member with feed | inside
      · exact Or.inr feed
      · exact (inductionHypothesis inside).imp (List.mem_cons_of_mem _) id
  | case3 head rest _ _ inductionHypothesis =>
      rcases List.mem_cons.mp member with same | inside
      · exact Or.inl (same ▸ List.mem_cons_self)
      · exact (inductionHypothesis inside).imp (List.mem_cons_of_mem _) id
  | case4 => cases member

theorem equals_not_mem_read {name : Text} (plain : '=' ∉ name) : '=' ∉ universalNewlines name :=
  fun member => (mem_of_mem_universalNewlines member).elim plain (by decide)

theorem universalNewlines_quoted (name rest : Text) :
    universalNewlines (name ++ '"' :: rest) =
      universalNewlines name ++ '"' :: universalNewlines rest :=
  universalNewlines_append_cons name (by decide) rest

/-- What a line holds before the name. -/
def nameOpening : Text := "    \x7b name = \"".toList

/-- The functions of `symbols.toml` as they are read. -/
def bodyText : List Fn → Text
  | [] => [']', '\n']
  | fn :: rest =>
      nameOpening ++ (universalNewlines fn.name ++ '"' ::
        (numbersText fn.vram fn.size ++ '\n' :: bodyText rest))

theorem fmtAltHex_plain (value : Int) : '\n' ∉ fmtAltHex value ∧ '\r' ∉ fmtAltHex value := by
  constructor <;> intro member <;>
    exact absurd (quotable_of_mem_fmtAltHex member) (by decide)

theorem numbersText_plain (vram size : Int) : '\r' ∉ numbersText vram size := fun member =>
  absurd (quotable_of_mem_numbersText member) (by decide)

theorem unlines_cons (line : Text) (lines : List Text) :
    Text.unlines '\n' (line :: lines) = line ++ '\n' :: Text.unlines '\n' lines :=
  List.append_assoc line ['\n'] _

theorem universalNewlines_body (funcs : List Fn) :
    universalNewlines (Text.unlines '\n' (funcs.map functionLine ++ ["]".toList])) =
      bodyText funcs := by
  induction funcs with
  | nil => decide +kernel
  | cons fn funcs inductionHypothesis =>
      have written : Text.unlines '\n' ((fn :: funcs).map functionLine ++ ["]".toList]) =
          nameOpening ++ (fn.name ++ '"' :: (numbersText fn.vram fn.size ++
            ('\n' :: Text.unlines '\n' (funcs.map functionLine ++ ["]".toList])))) := by
        have line : functionLine fn =
            (nameOpening ++ fn.name) ++ '"' :: numbersText fn.vram fn.size := functionLine_eq fn
        rw [List.map_cons, List.cons_append, unlines_cons, line]
        simp only [List.append_assoc, List.cons_append]
      have opening : '\r' ∉ nameOpening := by decide
      rw [written, universalNewlines_append opening, universalNewlines_quoted,
        universalNewlines_append (numbersText_plain fn.vram fn.size)]
      show _ ++ (_ ++ '"' :: (_ ++ '\n' :: universalNewlines _)) = _
      rw [inductionHypothesis]
      rfl

/-- The keys of the section, and the functions behind them. -/
def keysText (rom : Int) (bounds : Section) (funcs : List Fn) : Text :=
  "rom = ".toList ++ (fmtAltHex rom ++ '\n' :: ("vram = ".toList ++ (fmtAltHex bounds.vram ++
    '\n' :: ("size = ".toList ++ (fmtAltHex bounds.size ++
      '\n' :: ("functions = [".toList ++ '\n' :: bodyText funcs))))))

/-- `symbols.toml` as it is read. -/
theorem universalNewlines_writeSymbols (sectionName : Text) (rom : Int) (bounds : Section)
    (funcs : List Fn) : universalNewlines (writeSymbols sectionName rom bounds funcs) =
      "# symbols.toml — generated by tools/gen_symbols_toml.py".toList ++
        '\n' :: ("# Do not hand-edit; re-run the generator.".toList ++ '\n' :: ('\n' ::
          ("[[section]]".toList ++ '\n' :: ("name = \"".toList ++
            (universalNewlines sectionName ++ '"' ::
              '\n' :: keysText rom bounds funcs))))) := by
  have written : writeSymbols sectionName rom bounds funcs =
      ("# symbols.toml — generated by tools/gen_symbols_toml.py".toList ++
        '\n' :: ("# Do not hand-edit; re-run the generator.".toList ++ '\n' :: ('\n' ::
          ("[[section]]".toList ++ '\n' :: "name = \"".toList)))) ++
        (sectionName ++ '"' :: (('\n' :: ("rom = ".toList ++ (fmtAltHex rom ++
          '\n' :: ("vram = ".toList ++ (fmtAltHex bounds.vram ++ '\n' :: ("size = ".toList ++
            (fmtAltHex bounds.size ++ '\n' :: ("functions = [".toList ++ ['\n'])))))))) ++
              Text.unlines '\n' (funcs.map functionLine ++ ["]".toList]))) := by
    show Text.unlines '\n' (symbolsHeader sectionName rom bounds ++ funcs.map functionLine ++
      ["]".toList]) = _
    simp only [symbolsHeader, List.append_assoc, List.cons_append, List.nil_append, unlines_cons]
    rfl
  have titles : '\r' ∉ "# symbols.toml — generated by tools/gen_symbols_toml.py".toList ++
        '\n' :: ("# Do not hand-edit; re-run the generator.".toList ++ '\n' :: ('\n' ::
          ("[[section]]".toList ++ '\n' :: "name = \"".toList))) := by decide +kernel
  have keys : '\r' ∉ '\n' :: ("rom = ".toList ++ (fmtAltHex rom ++
      '\n' :: ("vram = ".toList ++ (fmtAltHex bounds.vram ++ '\n' :: ("size = ".toList ++
        (fmtAltHex bounds.size ++ '\n' :: ("functions = [".toList ++ ['\n']))))))) := by
    have first : '\r' ∉ "rom = ".toList := by decide
    have second : '\r' ∉ "vram = ".toList := by decide
    have third : '\r' ∉ "size = ".toList := by decide
    have last : '\r' ∉ "functions = [".toList ++ ['\n'] := by decide
    simp only [List.mem_cons, List.mem_append, not_or] at last ⊢
    exact ⟨by decide, first, (fmtAltHex_plain rom).2, by decide, second,
      (fmtAltHex_plain bounds.vram).2, by decide, third, (fmtAltHex_plain bounds.size).2,
      by decide, last⟩
  rw [written, universalNewlines_append titles, universalNewlines_quoted,
    universalNewlines_append keys, universalNewlines_body]
  unfold keysText
  simp only [List.append_assoc, List.cons_append, List.nil_append]

/-! ### The section -/

theorem not_pySpace_of_mem_fmtAltHex {value : Int} {symbol : Char}
    (member : symbol ∈ fmtAltHex value) : pySpace symbol = false :=
  (plain_of_number_symbol (symbol_of_mem_fmtAltHex member)).1

theorem fmtAltHex_ne_nil (value : Int) : fmtAltHex value ≠ [] := by
  unfold fmtAltHex
  simp

/-- Behind the sign of an assignment stands its number. -/
theorem assignment_number (key : Text) (value : Int) (rest : Text) :
    assignment key (key ++ ' ' :: '=' :: ' ' :: (fmtAltHex value ++ rest)) =
      some (fmtAltHex value ++ rest) := by
  have front : Search.dropPrefix? key (key ++ ' ' :: '=' :: ' ' :: (fmtAltHex value ++ rest)) =
      some (' ' :: '=' :: ' ' :: (fmtAltHex value ++ rest)) :=
    Search.dropPrefix?_eq_some.mpr rfl
  have number : (fmtAltHex value ++ rest).dropWhile pySpace = fmtAltHex value ++ rest := by
    obtain ⟨symbol, others, same⟩ := List.exists_cons_of_ne_nil (fmtAltHex_ne_nil value)
    rw [same, List.cons_append, List.dropWhile_cons_of_neg]
    rw [not_pySpace_of_mem_fmtAltHex (same ▸ List.mem_cons_self)]
    decide
  unfold assignment
  rw [front]
  show some ((fmtAltHex value ++ rest).dropWhile pySpace) = _
  rw [number]

theorem assignedValue_number (key : Text) (value : Int) (rest : Text) :
    assignedValue key (key ++ ' ' :: '=' :: ' ' :: (fmtAltHex value ++ '\n' :: rest)) =
      some (fmtAltHex value) := by
  have whole : (fmtAltHex value ++ '\n' :: rest).takeWhile (fun symbol => !pySpace symbol) =
      fmtAltHex value := by
    rw [Text.takeWhile_append_stop (p := fun symbol => !pySpace symbol) rfl]
    refine List.takeWhile_eq_self_iff.mpr fun symbol member => ?_
    rw [not_pySpace_of_mem_fmtAltHex member]
    rfl
  have nonempty : (fmtAltHex value).isEmpty = false := by
    simpa using fmtAltHex_ne_nil value
  unfold assignedValue
  rw [assignment_number]
  simp only [Option.bind_eq_bind, Option.bind_some, whole, nonempty]
  rfl

theorem int0_fmtAltHex {value : Int} (nonneg : 0 ≤ value) : int0 (fmtAltHex value) = some value := by
  have read := natLiteral_toDigits keepsDigits_id value.natAbs
  rw [List.map_id] at read
  have plain : ∀ symbol ∈ Nat.toDigits 16 value.natAbs, pySpace symbol = false ∧ symbol ≠ '_' :=
    fun symbol member =>
      ⟨not_pySpace_of_isHexDigit (isHexDigit_of_mem_toDigits member), by
        rintro rfl
        exact absurd (isHexDigit_of_mem_toDigits member) (by decide)⟩
  unfold int0
  rw [fmtAltHex_of_nonneg nonneg, signed_hex rfl plain, read]
  show some (value.natAbs : Int) = some value
  rw [Int.natAbs_of_nonneg nonneg]

/-- A line that starts with another letter is passed over. -/
theorem assignedFrom_otherLine {key line : Text} {letter symbol : Char}
    (keyLetter : key.head? = some letter) (lineLetter : line.head? = some symbol)
    (other : letter ≠ symbol) (plain : '\n' ∉ line) (rest : Text) :
    assignedFrom key ('\n' :: (line ++ '\n' :: rest)) = assignedFrom key ('\n' :: rest) := by
  refine assignedFrom_line ?_ plain
  obtain ⟨keyRest, rfl⟩ := List.head?_eq_some_iff.mp keyLetter
  obtain ⟨lineRest, rfl⟩ := List.head?_eq_some_iff.mp lineLetter
  exact if_neg other

/-- A key is searched behind the quoted name of the section. -/
theorem searchAssigned_writeSymbols {key : Text} {letter : Char}
    (keyLetter : key.head? = some letter) (letters : letter ∉ "#[n\n".toList)
    (plainKey : '"' ∉ key) (plain : '=' ∉ sectionName) :
    searchAssigned key (universalNewlines (writeSymbols sectionName rom bounds funcs)) =
      assignedFrom key ('\n' :: keysText rom bounds funcs) := by
  have others : letter ≠ '#' ∧ letter ≠ '[' ∧ letter ≠ 'n' ∧ letter ≠ '\n' := by
    simpa using letters
  obtain ⟨hash, bracket, name, feed⟩ := others
  have title : '\n' ∉ "# symbols.toml — generated by tools/gen_symbols_toml.py".toList := by
    decide +kernel
  have titleLetter : "# symbols.toml — generated by tools/gen_symbols_toml.py".toList.head? =
      some '#' := by decide +kernel
  have noteLetter : "# Do not hand-edit; re-run the generator.".toList.head? = some '#' := by decide
  have sectionLetter : "[[section]]".toList.head? = some '[' := by decide
  have named : ∀ rest, assignedFrom key ('\n' :: ("name = \"".toList ++ rest)) =
      assignedFrom key rest := by
    intro rest
    refine assignedFrom_line ?_ (by decide)
    obtain ⟨keyRest, rfl⟩ := List.head?_eq_some_iff.mp keyLetter
    exact if_neg name
  have blank : ∀ rest, assignedFrom key ('\n' :: '\n' :: rest) = assignedFrom key ('\n' :: rest) := by
    intro rest
    have nowhere : Search.dropPrefix? key ([] ++ '\n' :: rest) = none := by
      obtain ⟨keyRest, rfl⟩ := List.head?_eq_some_iff.mp keyLetter
      exact if_neg feed
    exact assignedFrom_line nowhere List.not_mem_nil
  show assignedFrom key ('\n' :: universalNewlines _) = _
  rw [universalNewlines_writeSymbols,
    assignedFrom_otherLine keyLetter titleLetter hash title,
    assignedFrom_otherLine keyLetter noteLetter hash (by decide), blank,
    assignedFrom_otherLine keyLetter sectionLetter bracket (by decide), named,
    assignedFrom_quoted plainKey (equals_not_mem_read plain)]

/-! ### The functions -/

/-- A number behind its key, up to a symbol that is no digit. -/
theorem hexField_number (key : Text) {value : Int} (nonneg : 0 ≤ value) {symbol : Char}
    (stops : isHexDigit symbol = false) (rest : Text) :
    hexField key (key ++ ' ' :: '=' :: ' ' :: (fmtAltHex value ++ symbol :: rest)) =
      some (fmtAltHex value, symbol :: rest) := by
  have radix : Search.dropPrefix? ['0', 'x'] (fmtAltHex value ++ symbol :: rest) =
      some (Nat.toDigits 16 value.natAbs ++ symbol :: rest) := by
    rw [fmtAltHex_of_nonneg nonneg]
    rfl
  unfold hexField
  rw [assignment_number]
  simp only [Option.bind_eq_bind, Option.bind_some, radix, hexRun_toDigits _ stops,
    ← fmtAltHex_of_nonneg nonneg]
  rfl

/-- What the pattern of an entry takes of a line. -/
def entryText (vram size : Int) : Text :=
  'v' :: (['r', 'a', 'm', ' ', '=', ' '] ++ (fmtAltHex vram ++
    ([',', ' ', 's', 'i', 'z', 'e', ' ', '=', ' '] ++ fmtAltHex size)))

theorem matchEntry_entryText {vram size : Int} (vramNonneg : 0 ≤ vram) (sizeNonneg : 0 ≤ size)
    (rest : Text) : matchEntry (entryText vram size ++ ' ' :: rest) =
      some ((fmtAltHex vram, fmtAltHex size), ' ' :: rest) := by
  have vramKey : "vram".toList = ['v', 'r', 'a', 'm'] := by decide
  have sizeKey : "size".toList = ['s', 'i', 'z', 'e'] := by decide
  have shape : entryText vram size ++ ' ' :: rest =
      ['v', 'r', 'a', 'm'] ++ ' ' :: '=' :: ' ' :: (fmtAltHex vram ++ ',' :: ' ' ::
        (['s', 'i', 'z', 'e'] ++ ' ' :: '=' :: ' ' :: (fmtAltHex size ++ ' ' :: rest))) := by
    simp [entryText]
  have spaces : (' ' :: (['s', 'i', 'z', 'e'] ++ ' ' :: '=' :: ' ' ::
      (fmtAltHex size ++ ' ' :: rest))).dropWhile pySpace =
        ['s', 'i', 'z', 'e'] ++ ' ' :: '=' :: ' ' :: (fmtAltHex size ++ ' ' :: rest) := rfl
  unfold matchEntry
  rw [vramKey, sizeKey, shape, hexField_number _ vramNonneg (by decide)]
  show (hexField ['s', 'i', 'z', 'e'] (List.dropWhile pySpace _)).bind _ = _
  rw [spaces, hexField_number _ sizeNonneg (by decide)]
  rfl

theorem v_not_mem_fmtAltHex (value : Int) : 'v' ∉ fmtAltHex value := fun member =>
  absurd (symbol_of_mem_fmtAltHex member) (by decide)

/-- The entry of a line is found behind its name. -/
theorem entriesFrom_numbers {vram size : Int} (vramNonneg : 0 ≤ vram) (sizeNonneg : 0 ≤ size)
    (rest : Text) : entriesFrom (numbersText vram size ++ rest) =
      (fmtAltHex vram, fmtAltHex size) :: entriesFrom rest := by
  have comma : 'v' ∉ [',', ' '] := by decide
  have closing : 'v' ∉ [' ', '\x7d', ','] := by decide
  have shape : numbersText vram size ++ rest =
      [',', ' '] ++ (entryText vram size ++ ' ' :: '\x7d' :: ',' :: rest) := by
    have first : ", vram = ".toList = [',', ' ', 'v', 'r', 'a', 'm', ' ', '=', ' '] := by decide
    have second : ", size = ".toList = [',', ' ', 's', 'i', 'z', 'e', ' ', '=', ' '] := by decide
    have third : " \x7d,".toList = [' ', '\x7d', ','] := by decide
    unfold numbersText entryText
    rw [first, second, third]
    simp only [List.append_assoc, List.cons_append, List.nil_append]
  have matched := matchEntry_entryText vramNonneg sizeNonneg ('\x7d' :: ',' :: rest)
  rw [shape, entriesFrom_skip comma]
  show Search.findAll matchEntry 0 (entryText vram size ++ ' ' :: '\x7d' :: ',' :: rest) = _
  rw [entryText, Search.findAll_match matched]
  exact congrArg _ (entriesFrom_skip closing rest)

theorem entriesFrom_body {funcs : List Fn}
    (plain : ∀ fn ∈ funcs, '=' ∉ fn.name ∧ 0 ≤ fn.vram ∧ 0 ≤ fn.size) :
    entriesFrom (bodyText funcs) =
      funcs.map fun fn => (fmtAltHex fn.vram, fmtAltHex fn.size) := by
  have opening : 'v' ∉ nameOpening := by decide
  induction funcs with
  | nil => decide +kernel
  | cons fn funcs inductionHypothesis =>
      obtain ⟨name, vram, size⟩ := plain fn List.mem_cons_self
      have tail := inductionHypothesis fun other member =>
        plain other (List.mem_cons_of_mem _ member)
      have feed : entriesFrom ('\n' :: bodyText funcs) = entriesFrom (bodyText funcs) :=
        entriesFrom_none (matchEntry_other (show '\n' ≠ 'v' by decide) (bodyText funcs))
      rw [bodyText, entriesFrom_skip opening, entriesFrom_quoted (equals_not_mem_read name),
        entriesFrom_numbers vram size, feed, tail, List.map_cons]

/-- No entry starts before the functions; the address of the section has no size behind it. -/
theorem entriesFrom_writeSymbols (sectionPlain : '=' ∉ sectionName) (start : 0 ≤ bounds.vram)
    (plain : ∀ fn ∈ funcs, '=' ∉ fn.name ∧ 0 ≤ fn.vram ∧ 0 ≤ fn.size) :
    entriesFrom (universalNewlines (writeSymbols sectionName rom bounds funcs)) =
      funcs.map fun fn => (fmtAltHex fn.vram, fmtAltHex fn.size) := by
  have title : 'v' ∉ "# symbols.toml — generated by tools/gen_symbols_toml.py".toList := by
    decide +kernel
  have note : 'v' ∉ "# Do not hand-edit; re-run the generator.".toList := by decide
  have header : 'v' ∉ "[[section]]".toList := by decide
  have named : 'v' ∉ "name = \"".toList := by decide
  have romLabel : 'v' ∉ "rom = ".toList := by decide
  have vramLabel : "vram = ".toList = 'v' :: ['r', 'a', 'm', ' ', '=', ' '] := by decide
  have behindVram : 'v' ∉ ['r', 'a', 'm', ' ', '=', ' '] := by decide
  have sizeLabel : 'v' ∉ "size = ".toList := by decide
  have functions : 'v' ∉ "functions = [".toList := by decide
  have feed : ∀ rest, entriesFrom ('\n' :: rest) = entriesFrom rest := fun rest =>
    entriesFrom_none (matchEntry_other (show '\n' ≠ 'v' by decide) rest)
  have alone : ∀ rest, matchEntry ('v' :: (['r', 'a', 'm', ' ', '=', ' '] ++
      (fmtAltHex bounds.vram ++ '\n' :: rest))) = none := by
    intro rest
    have vramKey : "vram".toList = ['v', 'r', 'a', 'm'] := by decide
    have field := hexField_number ['v', 'r', 'a', 'm'] start
      (show isHexDigit '\n' = false by decide) rest
    unfold matchEntry
    rw [vramKey]
    show (hexField ['v', 'r', 'a', 'm'] (['v', 'r', 'a', 'm'] ++ ' ' :: '=' :: ' ' ::
      (fmtAltHex bounds.vram ++ '\n' :: rest))).bind _ = none
    rw [field]
    rfl
  rw [universalNewlines_writeSymbols, entriesFrom_skip title, feed, entriesFrom_skip note, feed,
    feed, entriesFrom_skip header, feed, entriesFrom_skip named,
    entriesFrom_quoted (equals_not_mem_read sectionPlain), feed]
  unfold keysText
  rw [entriesFrom_skip romLabel, entriesFrom_skip (v_not_mem_fmtAltHex rom), feed, vramLabel,
    List.cons_append, entriesFrom_none (alone _), entriesFrom_skip behindVram,
    entriesFrom_skip (v_not_mem_fmtAltHex _), feed, entriesFrom_skip sizeLabel,
    entriesFrom_skip (v_not_mem_fmtAltHex _), feed, entriesFrom_skip functions, feed,
    entriesFrom_body plain]

/-- The line of the key that is searched. -/
theorem assignedFrom_number {key label : Text} (labelled : label = key ++ [' ', '=', ' '])
    (value : Int) (rest : Text) :
    assignedFrom key ('\n' :: (label ++ (fmtAltHex value ++ '\n' :: rest))) =
      some (fmtAltHex value) := by
  have line : label ++ (fmtAltHex value ++ '\n' :: rest) =
      key ++ ' ' :: '=' :: ' ' :: (fmtAltHex value ++ '\n' :: rest) := by
    rw [labelled, List.append_assoc]
    rfl
  rw [assignedFrom_feed, line, assignedValue_number]
  rfl

/-- The line of another key. -/
theorem assignedFrom_otherNumber {key label : Text} {letter symbol : Char}
    (keyLetter : key.head? = some letter) (lineLetter : label.head? = some symbol)
    (other : letter ≠ symbol) (plain : '\n' ∉ label) (value : Int) (rest : Text) :
    assignedFrom key ('\n' :: (label ++ (fmtAltHex value ++ '\n' :: rest))) =
      assignedFrom key ('\n' :: rest) := by
  have first : (label ++ fmtAltHex value).head? = some symbol := by
    rw [List.head?_append, lineLetter]
    rfl
  have oneLine : '\n' ∉ label ++ fmtAltHex value := fun member =>
    (List.mem_append.mp member).elim plain (fmtAltHex_plain value).1
  rw [← List.append_assoc]
  exact assignedFrom_otherLine keyLetter first other oneLine rest

theorem mapM_entryOfMatch {funcs : List Fn} (plain : ∀ fn ∈ funcs, 0 ≤ fn.vram ∧ 0 ≤ fn.size) :
    (funcs.map fun fn => (fmtAltHex fn.vram, fmtAltHex fn.size)).mapM entryOfMatch =
      some (funcs.map fun fn => (fn.vram, fn.size)) := by
  induction funcs with
  | nil => rfl
  | cons fn funcs inductionHypothesis =>
      obtain ⟨vram, size⟩ := plain fn List.mem_cons_self
      have entry : entryOfMatch (fmtAltHex fn.vram, fmtAltHex fn.size) =
          some (fn.vram, fn.size) := by
        unfold entryOfMatch
        rw [int0_fmtAltHex vram, int0_fmtAltHex size]
        rfl
      rw [List.map_cons, List.mapM_cons, entry,
        inductionHypothesis fun other member => plain other (List.mem_cons_of_mem _ member)]
      rfl

/-- The scan reads back what the generator has written. -/
theorem readSymbols_writeSymbols (sectionPlain : '=' ∉ sectionName) (romNonneg : 0 ≤ rom)
    (start : 0 ≤ bounds.vram) (extent : 0 ≤ bounds.size)
    (plain : ∀ fn ∈ funcs, '=' ∉ fn.name ∧ 0 ≤ fn.vram ∧ 0 ≤ fn.size) :
    readSymbols (writeSymbols sectionName rom bounds funcs) =
      some ⟨rom, bounds, sortPairs (funcs.map fun fn => (fn.vram, fn.size))⟩ := by
  have romLetter : "rom".toList.head? = some 'r' := by decide
  have vramLetter : "vram".toList.head? = some 'v' := by decide
  have sizeLetter : "size".toList.head? = some 's' := by decide
  have romLabel : "rom = ".toList.head? = some 'r' := by decide
  have vramLabel : "vram = ".toList.head? = some 'v' := by decide
  have romFound : searchAssigned "rom".toList
      (universalNewlines (writeSymbols sectionName rom bounds funcs)) = some (fmtAltHex rom) := by
    rw [searchAssigned_writeSymbols romLetter (by decide) (by decide) sectionPlain]
    exact assignedFrom_number (by decide) rom _
  have vramFound : searchAssigned "vram".toList
      (universalNewlines (writeSymbols sectionName rom bounds funcs)) =
        some (fmtAltHex bounds.vram) := by
    rw [searchAssigned_writeSymbols vramLetter (by decide) (by decide) sectionPlain]
    unfold keysText
    rw [assignedFrom_otherNumber vramLetter romLabel (by decide) (by decide)]
    exact assignedFrom_number (by decide) bounds.vram _
  have sizeFound : searchAssigned "size".toList
      (universalNewlines (writeSymbols sectionName rom bounds funcs)) =
        some (fmtAltHex bounds.size) := by
    rw [searchAssigned_writeSymbols sizeLetter (by decide) (by decide) sectionPlain]
    unfold keysText
    rw [assignedFrom_otherNumber sizeLetter romLabel (by decide) (by decide),
      assignedFrom_otherNumber sizeLetter vramLabel (by decide) (by decide)]
    exact assignedFrom_number (by decide) bounds.size _
  have entries : Search.findAll matchEntry 0 (universalNewlines
      (writeSymbols sectionName rom bounds funcs)) =
        funcs.map fun fn => (fmtAltHex fn.vram, fmtAltHex fn.size) :=
    entriesFrom_writeSymbols sectionPlain start plain
  unfold readSymbols
  simp only [romFound, vramFound, sizeFound, entries, Option.bind_some,
    int0_fmtAltHex romNonneg, int0_fmtAltHex start, int0_fmtAltHex extent,
    mapM_entryOfMatch fun fn member => (plain fn member).2]
  rfl

end Written

end StadiumRecomp.Symbols
