import StadiumRecomp.Symbols.Sizes

/-!
Contract: what `fix_truncated_delay_slots` reads back of a written `symbols.toml`.

Owns: the written file as lines read one at a time, the pattern over a text whose
last quote is known, and the functions read back from the line of one function, which
depend on its size in the entry of that function and in nothing else.

Does not own: what the sizes are and how they change.
-/

set_option autoImplicit false

namespace StadiumRecomp.Symbols

open StadiumRecomp.Lib
open StadiumRecomp.Lib.PyInt
open StadiumRecomp.Lib.PyText

/-! ## Lines -/

/-- `symbols.toml` before the first function. -/
def symbolsHeader (sectionName : Text) (rom : Int) (bounds : Section) : List Text :=
  ["# symbols.toml — generated by tools/gen_symbols_toml.py".toList,
    "# Do not hand-edit; re-run the generator.".toList, [], "[[section]]".toList,
    "name = \"".toList ++ sectionName ++ "\"".toList,
    "rom = ".toList ++ fmtAltHex rom, "vram = ".toList ++ fmtAltHex bounds.vram,
    "size = ".toList ++ fmtAltHex bounds.size, "functions = [".toList]

/-- The functions read back from one written line. A name may break the line. -/
def lineFunctions (line : Text) : List Fn := symbolsFunctions (line ++ ['\n'])

theorem symbolsFunctions_unlines (lines : List Text) :
    symbolsFunctions (Text.unlines '\n' lines) = lines.flatMap lineFunctions := by
  induction lines with
  | nil => rfl
  | cons line lines inductionHypothesis =>
      have written : Text.unlines '\n' (line :: lines) =
          line ++ '\n' :: Text.unlines '\n' lines := by
        simp [Text.unlines]
      show (fileLines (Text.unlines '\n' (line :: lines))).filterMap functionOfLine = _
      rw [written, fileLines_append_feed, List.filterMap_append, List.flatMap_cons,
        ← inductionHypothesis]
      rfl

/-- The fixer reads the header and then the line of each function. -/
theorem symbolsFunctions_writeSymbols (sectionName : Text) (rom : Int) (bounds : Section)
    (funcs : List Fn) : symbolsFunctions (writeSymbols sectionName rom bounds funcs) =
      (symbolsHeader sectionName rom bounds).flatMap lineFunctions ++
        funcs.flatMap (fun fn => lineFunctions (functionLine fn)) := by
  have closing : lineFunctions "]".toList = [] := by decide +kernel
  show symbolsFunctions (Text.unlines '\n' (symbolsHeader sectionName rom bounds ++
    funcs.map functionLine ++ ["]".toList])) = _
  rw [symbolsFunctions_unlines, List.flatMap_append, List.flatMap_append, List.flatMap_map,
    List.flatMap_singleton, closing, List.append_nil]

theorem forall_symbolsFunctions_iff {sectionName : Text} {rom : Int} {bounds : Section}
    {funcs : List Fn} {p : Fn → Prop} :
    (∀ entry ∈ symbolsFunctions (writeSymbols sectionName rom bounds funcs), p entry) ↔
      (∀ line ∈ symbolsHeader sectionName rom bounds, ∀ entry ∈ lineFunctions line, p entry) ∧
        ∀ fn ∈ funcs, ∀ entry ∈ lineFunctions (functionLine fn), p entry := by
  rw [symbolsFunctions_writeSymbols, List.forall_mem_append]
  refine and_congr ?_ ?_
  · simp only [List.mem_flatMap, forall_exists_index, and_imp]
    exact ⟨fun all line isLine entry => all entry line isLine,
      fun all entry line isLine => all line isLine entry⟩
  · simp only [List.mem_flatMap, forall_exists_index, and_imp]
    exact ⟨fun all fn isFn entry => all entry fn isFn,
      fun all entry fn isFn => all fn isFn entry⟩

/-! ## The pattern before a last quote -/

section Quote

/-- What the pattern asks for behind the quote that closes a name. -/
def matchNumbers (name text : Text) : Option (Text × Text × Text) := do
  let text ← Search.dropPrefix? ", vram = 0x".toList text
  let (vram, text) ← hexRun text
  let text ← Search.dropPrefix? ", size = 0x".toList text
  let (size, _) ← hexRun text
  return (name, vram, size)

/-- What the pattern asks for behind the quote that opens a name. -/
def matchNamed (text : Text) : Option (Text × Text × Text) :=
  if (text.takeWhile (· ≠ '"')).isEmpty then none
  else (Search.dropPrefix? ['"'] (text.dropWhile (· ≠ '"'))).bind
    (matchNumbers (text.takeWhile (· ≠ '"')))

theorem matchFunction_eq (text : Text) : matchFunction text =
    (Search.dropPrefix? "name = ".toList text).bind fun text =>
      (Search.dropPrefix? ['"'] text).bind matchNamed := by
  have opening : "name = \"".toList = "name = ".toList ++ ['"'] := by decide
  have closing : "\", vram = 0x".toList = ['"'] ++ ", vram = 0x".toList := by decide
  unfold matchFunction
  rw [opening, closing]
  simp only [Search.dropPrefix?_append_pattern, Option.bind_eq_bind, Option.bind_assoc]
  rfl

theorem hexRun_append_quote (text rest : Text) :
    hexRun (text ++ '"' :: rest) =
      (hexRun text).map (fun run => (run.1, run.2 ++ '"' :: rest)) := by
  unfold hexRun
  simp only [Text.takeWhile_append_stop (show isHexDigit '"' = false by decide),
    Text.dropWhile_append_stop (show isHexDigit '"' = false by decide)]
  split <;> rfl

/-- Behind a name the pattern holds no further quote. -/
theorem matchNumbers_append_quote (name text rest : Text) :
    matchNumbers name (text ++ '"' :: rest) = matchNumbers name text := by
  unfold matchNumbers
  rw [Search.dropPrefix?_append_cons (by decide)]
  cases Search.dropPrefix? ", vram = 0x".toList text with
  | none => rfl
  | some text =>
      simp only [Option.map_some, Option.bind_eq_bind, Option.bind_some, hexRun_append_quote]
      cases hexRun text with
      | none => rfl
      | some run =>
          simp only [Option.map_some, Option.bind_some]
          rw [Search.dropPrefix?_append_cons (by decide)]
          cases Search.dropPrefix? ", size = 0x".toList run.2 with
          | none => rfl
          | some text =>
              simp only [Option.map_some, Option.bind_some, hexRun_append_quote]
              cases hexRun text <;> rfl

/-- Without a closing quote there is no name. -/
theorem matchNamed_of_no_quote {text : Text} (plain : '"' ∉ text) : matchNamed text = none := by
  have all : text.dropWhile (· ≠ '"') = [] := by
    rw [List.dropWhile_eq_nil_iff]
    intro symbol member
    exact decide_eq_true (fun same => plain (same ▸ member))
  unfold matchNamed
  rw [all]
  split <;> rfl

/-- The pattern sees what follows a quote only where that quote closes its name. -/
theorem matchFunction_append_quote (text : Text) :
    (∀ rest, '"' ∉ rest → matchFunction (text ++ '"' :: rest) = matchFunction text) ∨
      ∃ own, own ≠ [] ∧ '"' ∉ own ∧ text = "name = \"".toList ++ own := by
  simp only [matchFunction_eq, Search.dropPrefix?_append_cons
    (show '"' ∉ "name = ".toList by decide)]
  cases opened : Search.dropPrefix? "name = ".toList text with
  | none => exact Or.inl fun rest _ => rfl
  | some behind =>
      cases behind with
      | nil => exact Or.inl fun rest plain => matchNamed_of_no_quote plain
      | cons symbol behind =>
          by_cases quote : '"' = symbol
          · subst quote
            have reads : ∀ more : Text, Search.dropPrefix? ['"'] ('"' :: more) = some more :=
              fun _ => rfl
            simp only [Option.map_some, Option.bind_some, List.cons_append, reads]
            by_cases closes : '"' ∈ behind
            · left
              intro rest _
              unfold matchNamed
              rw [Text.takeWhile_append_stop (by decide), Text.dropWhile_append_stop (by decide)]
              cases left : behind.dropWhile (· ≠ '"') with
              | nil =>
                  rw [List.dropWhile_eq_nil_iff] at left
                  exact absurd rfl (of_decide_eq_true (left '"' closes))
              | cons head more =>
                  have head_eq : '"' = head := by
                    have stops := List.head_dropWhile_not (fun symbol => decide (symbol ≠ '"'))
                      (by rw [left]; simp)
                    simp only [left, List.head_cons] at stops
                    exact (Decidable.not_not.mp (of_decide_eq_false stops)).symm
                  subst head_eq
                  simp only [List.cons_append, reads, Option.bind_some,
                    matchNumbers_append_quote]
            · by_cases empty : behind = []
              · left
                intro rest _
                rw [empty]
                rfl
              · right
                refine ⟨behind, empty, closes, ?_⟩
                rw [Search.dropPrefix?_eq_some.mp opened]
                rfl
          · left
            intro rest _
            have fails : ∀ more : Text, Search.dropPrefix? ['"'] (symbol :: more) = none :=
              fun _ => if_neg quote
            simp only [Option.map_some, Option.bind_some, List.cons_append, fails]

/-- The quote that closes a name is followed by its numbers. -/
theorem matchFunction_named {own : Text} (nonempty : own ≠ []) (plain : '"' ∉ own)
    (rest : Text) :
    matchFunction ("name = \"".toList ++ own ++ '"' :: rest) = matchNumbers own rest := by
  have opening : "name = \"".toList = "name = ".toList ++ ['"'] := by decide
  have opened : Search.dropPrefix? "name = ".toList
      ("name = ".toList ++ ('"' :: (own ++ '"' :: rest))) =
        some ('"' :: (own ++ '"' :: rest)) := Search.dropPrefix?_eq_some.mpr rfl
  have isName : ∀ symbol ∈ own, decide (symbol ≠ '"') = true := fun symbol member =>
    decide_eq_true (fun same => plain (same ▸ member))
  have name : (own ++ '"' :: rest).takeWhile (· ≠ '"') = own := by
    rw [Text.takeWhile_append_stop (by decide)]
    exact List.takeWhile_eq_self_iff.mpr isName
  have behind : (own ++ '"' :: rest).dropWhile (· ≠ '"') = '"' :: rest := by
    rw [Text.dropWhile_append_stop (by decide), List.dropWhile_eq_nil_iff.mpr isName]
    rfl
  rw [matchFunction_eq, opening, List.append_assoc, List.append_assoc, List.singleton_append,
    opened, Option.bind_some]
  show matchNamed (own ++ '"' :: rest) = _
  unfold matchNamed
  rw [name, behind, if_neg (by simpa using nonempty)]
  rfl

theorem matchFunction_of_no_quote {text : Text} (plain : '"' ∉ text) :
    matchFunction text = none := by
  rw [matchFunction_eq]
  cases opened : Search.dropPrefix? "name = ".toList text with
  | none => rfl
  | some behind =>
      rw [Search.dropPrefix?_eq_some.mp opened] at plain
      cases behind with
      | nil => rfl
      | cons symbol behind =>
          have different : '"' ≠ symbol := fun same =>
            plain (List.mem_append_right _ (same ▸ List.mem_cons_self))
          show (Search.dropPrefix? ['"'] (symbol :: behind)).bind matchNamed = none
          rw [Search.dropPrefix?, if_neg different]
          rfl

/-- What `re.search` finds in a line. -/
def firstFunction (line : Text) : Option (Text × Text × Text) :=
  (Search.firstMatch matchFunction line).map Prod.snd

theorem firstFunction_cons (symbol : Char) (line : Text) :
    firstFunction (symbol :: line) =
      (matchFunction (symbol :: line)).or (firstFunction line) :=
  Search.firstMatch_cons_snd matchFunction symbol line

theorem firstFunction_of_no_quote {line : Text} (plain : '"' ∉ line) :
    firstFunction line = none := by
  induction line with
  | nil => rfl
  | cons symbol line inductionHypothesis =>
      rw [firstFunction_cons, matchFunction_of_no_quote plain,
        inductionHypothesis (List.not_mem_of_not_mem_cons plain)]
      rfl

/-- One quote does not enclose a name. -/
theorem firstFunction_of_one_quote {line rest : Text} (linePlain : '"' ∉ line)
    (restPlain : '"' ∉ rest) : firstFunction (line ++ '"' :: rest) = none := by
  induction line with
  | nil =>
      show firstFunction ('"' :: rest) = none
      rw [firstFunction_cons, firstFunction_of_no_quote restPlain]
      rfl
  | cons symbol line inductionHypothesis =>
      have tail := inductionHypothesis (List.not_mem_of_not_mem_cons linePlain)
      have here : matchFunction (symbol :: line ++ '"' :: rest) = none := by
        rcases matchFunction_append_quote (symbol :: line) with unseen | ⟨own, _, _, same⟩
        · rw [unseen rest restPlain]
          exact matchFunction_of_no_quote linePlain
        · rw [same] at linePlain
          exact absurd (List.mem_append_left own (by decide)) linePlain
      rw [List.cons_append] at here ⊢
      rw [firstFunction_cons, here, tail]
      rfl

/-- A match starts with its first letter. -/
theorem firstFunction_skip {skipped : Text} (absent : 'n' ∉ skipped) (line : Text) :
    firstFunction (skipped ++ line) = firstFunction line := by
  induction skipped with
  | nil => rfl
  | cons symbol skipped inductionHypothesis =>
      obtain ⟨different, tailAbsent⟩ := List.ne_and_not_mem_of_not_mem_cons absent
      have here : matchFunction (symbol :: (skipped ++ line)) = none := by
        rw [matchFunction_eq]
        show (if 'n' = symbol then _ else none : Option Text).bind _ = none
        rw [if_neg different]
        rfl
      rw [List.cons_append, firstFunction_cons, here, inductionHypothesis tailAbsent]
      rfl

/-- The search sees what follows the last quote of a line only in the entry whose name
that quote closes. -/
theorem firstFunction_append_quote (line : Text) :
    (∀ rest, '"' ∉ rest → firstFunction (line ++ '"' :: rest) = firstFunction line) ∨
      ∃ own, ∀ rest, '"' ∉ rest →
        firstFunction (line ++ '"' :: rest) = matchNumbers own rest := by
  induction line with
  | nil =>
      left
      intro rest plain
      exact firstFunction_of_one_quote List.not_mem_nil plain
  | cons symbol line inductionHypothesis =>
      rcases matchFunction_append_quote (symbol :: line) with unseen | ⟨own, nonempty, plain, same⟩
      · have here : ∀ rest, '"' ∉ rest → firstFunction (symbol :: line ++ '"' :: rest) =
            (matchFunction (symbol :: line)).or (firstFunction (line ++ '"' :: rest)) := by
          intro rest restPlain
          rw [← unseen rest restPlain, List.cons_append, firstFunction_cons]
        cases found : matchFunction (symbol :: line) with
        | some result =>
            left
            intro rest restPlain
            rw [here rest restPlain, firstFunction_cons, found]
            rfl
        | none =>
            rcases inductionHypothesis with tail | ⟨own, tail⟩
            · left
              intro rest restPlain
              rw [here rest restPlain, firstFunction_cons, found, tail rest restPlain]
            · right
              refine ⟨own, fun rest restPlain => ?_⟩
              rw [here rest restPlain, found, ← tail rest restPlain]
              rfl
      · right
        refine ⟨own, fun rest restPlain => ?_⟩
        have later : firstFunction ("ame = \"".toList ++ (own ++ '"' :: rest)) = none := by
          rw [firstFunction_skip (by decide)]
          exact firstFunction_of_one_quote plain restPlain
        have named := matchFunction_named nonempty plain rest
        rw [← same] at named
        have split : line ++ '"' :: rest = "ame = \"".toList ++ (own ++ '"' :: rest) := by
          rw [← List.append_assoc, (List.cons.inj same).2]
          rfl
        rw [List.cons_append] at named ⊢
        rw [firstFunction_cons, named, split, later, Option.or_none]

end Quote

/-! ## The line of a function -/

/-- The function of a match. -/
def fnOfMatch (found : Text × Text × Text) : Option Fn := do
  let vram ← int16 found.2.1
  let size ← int16 found.2.2
  return ⟨found.1, vram, size⟩

theorem functionOfLine_eq (line : Text) :
    functionOfLine line = (firstFunction line).bind fnOfMatch := by
  unfold functionOfLine firstFunction
  cases Search.firstMatch matchFunction line <;> rfl

/-- A function line behind the quote that closes its name. -/
def numbersText (vram size : Int) : Text :=
  ", vram = ".toList ++ fmtAltHex vram ++ ", size = ".toList ++ fmtAltHex size ++
    " \x7d,".toList

theorem functionLine_eq (fn : Fn) : functionLine fn =
    ("    \x7b name = \"".toList ++ fn.name) ++ '"' :: numbersText fn.vram fn.size := by
  have quote : "\", vram = ".toList = '"' :: ", vram = ".toList := by decide
  unfold functionLine numbersText
  rw [quote]
  simp only [List.append_assoc, List.cons_append]

theorem symbol_of_mem_fmtAltHex {value : Int} {symbol : Char}
    (member : symbol ∈ fmtAltHex value) :
    isHexDigit symbol = true ∨ symbol = 'x' ∨ symbol = '-' := by
  rcases List.mem_append.mp member with sign | number
  · split at sign
    · exact Or.inr (Or.inr (List.mem_singleton.mp sign))
    · cases sign
  · rcases List.mem_cons.mp number with rfl | number
    · exact Or.inl rfl
    · rcases List.mem_cons.mp number with rfl | digit
      · exact Or.inr (Or.inl rfl)
      · exact Or.inl (isHexDigit_of_mem_toDigits digit)

/-- No quote and no line break. -/
def quotable (symbol : Char) : Bool := symbol != '"' && symbol != '\n' && symbol != '\r'

theorem quotable_of_mem_fmtAltHex {value : Int} {symbol : Char}
    (member : symbol ∈ fmtAltHex value) : quotable symbol = true := by
  have shape := symbol_of_mem_fmtAltHex member
  obtain ⟨_, notFeed, notReturn, _⟩ := plain_of_number_symbol shape
  have notQuote : symbol ≠ '"' := by
    rintro rfl
    revert shape
    decide
  simp [quotable, notQuote, notFeed, notReturn]

theorem quotable_of_mem_numbersText {vram size : Int} {symbol : Char}
    (member : symbol ∈ numbersText vram size) : quotable symbol = true := by
  have opening : ", vram = ".toList.all quotable = true := by decide
  have between : ", size = ".toList.all quotable = true := by decide
  have closing : " \x7d,".toList.all quotable = true := by decide
  rw [List.all_eq_true] at opening between closing
  unfold numbersText at member
  rcases List.mem_append.mp member with member | inClosing
  · rcases List.mem_append.mp member with member | inSize
    · rcases List.mem_append.mp member with member | inBetween
      · rcases List.mem_append.mp member with inOpening | inVram
        · exact opening symbol inOpening
        · exact quotable_of_mem_fmtAltHex inVram
      · exact between symbol inBetween
    · exact quotable_of_mem_fmtAltHex inSize
  · exact closing symbol inClosing

theorem hexRun_toDigits (value : Nat) {symbol : Char} (stops : isHexDigit symbol = false)
    (rest : Text) : hexRun (Nat.toDigits 16 value ++ symbol :: rest) =
      some (Nat.toDigits 16 value, symbol :: rest) := by
  have all : (Nat.toDigits 16 value).takeWhile isHexDigit = Nat.toDigits 16 value :=
    List.takeWhile_eq_self_iff.mpr (fun _ => isHexDigit_of_mem_toDigits)
  have left : (Nat.toDigits 16 value).dropWhile isHexDigit = [] :=
    List.dropWhile_eq_nil_iff.mpr (fun _ => isHexDigit_of_mem_toDigits)
  have nonempty : (Nat.toDigits 16 value).isEmpty = false := by
    simp [Nat.toDigits_ne_nil]
  unfold hexRun
  simp only [Text.takeWhile_append_stop stops, Text.dropWhile_append_stop stops, all, left,
    nonempty, List.nil_append]
  rfl

theorem fmtAltHex_of_nonneg {value : Int} (nonneg : 0 ≤ value) :
    fmtAltHex value = '0' :: 'x' :: Nat.toDigits 16 value.natAbs := by
  rw [fmtAltHex, if_neg (not_lt.mpr nonneg)]
  rfl

theorem fmtAltHex_of_negative {value : Int} (negative : value < 0) :
    fmtAltHex value = '-' :: '0' :: 'x' :: Nat.toDigits 16 value.natAbs := by
  rw [fmtAltHex, if_pos negative]
  rfl

/-- The pattern holds a number's `0x`, which a sign comes before. -/
theorem dropPrefix?_fmtAltHex {label labelHex : Text} (prefixed : labelHex = label ++ ['0', 'x'])
    (value : Int) (rest : Text) :
    Search.dropPrefix? labelHex (label ++ (fmtAltHex value ++ rest)) =
      if value < 0 then none else some (Nat.toDigits 16 value.natAbs ++ rest) := by
  have opened : Search.dropPrefix? label (label ++ (fmtAltHex value ++ rest)) =
      some (fmtAltHex value ++ rest) := Search.dropPrefix?_eq_some.mpr rfl
  rw [prefixed, Search.dropPrefix?_append_pattern, opened, Option.bind_some]
  by_cases negative : value < 0
  · rw [if_pos negative, fmtAltHex_of_negative negative]
    rfl
  · rw [if_neg negative, fmtAltHex_of_nonneg (not_lt.mp negative)]
    rfl

/-- The numbers the generator writes are read back, unless the address is negative. -/
theorem matchNumbers_numbersText (name : Text) (vram : Int) {size : Int} (nonneg : 0 ≤ size) :
    (matchNumbers name (numbersText vram size)).bind fnOfMatch =
      if vram < 0 then none else some ⟨name, vram, size⟩ := by
  have vramLabel : ", vram = 0x".toList = ", vram = ".toList ++ ['0', 'x'] := by decide
  have sizeLabel : ", size = 0x".toList = ", size = ".toList ++ ['0', 'x'] := by decide
  have comma : ", size = ".toList = ',' :: " size = ".toList := by decide
  have blank : " \x7d,".toList = ' ' :: "\x7d,".toList := by decide
  unfold matchNumbers numbersText
  rw [List.append_assoc, List.append_assoc, List.append_assoc, dropPrefix?_fmtAltHex vramLabel]
  by_cases negative : vram < 0
  · rw [if_pos negative, if_pos negative]
    rfl
  · have vramRun := hexRun_toDigits vram.natAbs (show isHexDigit ',' = false by decide)
      (" size = ".toList ++ (fmtAltHex size ++ " \x7d,".toList))
    have sizeRun := hexRun_toDigits size.natAbs (show isHexDigit ' ' = false by decide)
      "\x7d,".toList
    rw [← List.cons_append, ← comma] at vramRun
    rw [← blank] at sizeRun
    rw [if_neg negative, if_neg negative]
    simp only [Option.bind_eq_bind, Option.bind_some, vramRun, dropPrefix?_fmtAltHex sizeLabel,
      if_neg (not_lt.mpr nonneg), sizeRun, Option.pure_def, fnOfMatch, int16_toDigits,
      Int.natAbs_of_nonneg nonneg, Int.natAbs_of_nonneg (not_lt.mp negative)]

/-- The functions read back from the line of a function: its own entry, which has the
written size, and entries in its name, which know nothing of the size. -/
theorem lineFunctions_functionLine (name : Text) (vram : Int) :
    ∃ (others : List Fn) (own : Option Text), ∀ size, 0 ≤ size →
      lineFunctions (functionLine ⟨name, vram, size⟩) =
        others ++ own.toList.map (fun own => ⟨own, vram, size⟩) := by
  obtain ⟨lines, last, _, oneLine, split⟩ :=
    exists_fileLines ("    \x7b name = \"".toList ++ name)
  have read : ∀ size, lineFunctions (functionLine ⟨name, vram, size⟩) =
      lines.filterMap functionOfLine ++
        ((firstFunction (last ++ '"' :: numbersText vram size)).bind fnOfMatch).toList := by
    intro size
    have noReturn : ∀ symbol ∈ '"' :: (numbersText vram size ++ ['\n']), symbol ≠ '\r' := by
      rintro symbol member rfl
      simp only [List.mem_cons, List.mem_append, List.not_mem_nil, or_false] at member
      rcases member with quote | inNumbers | feed
      · exact absurd quote (by decide)
      · exact absurd (quotable_of_mem_numbersText inNumbers) (by decide)
      · exact absurd feed (by decide)
    have lineOneLine : Text.OneLine isNewline (last ++ '"' :: numbersText vram size) := by
      intro symbol member
      rcases List.mem_append.mp member with inLast | inRest
      · exact oneLine symbol inLast
      · rcases List.mem_cons.mp inRest with rfl | inNumbers
        · rfl
        · have kept := quotable_of_mem_numbersText inNumbers
          simp only [quotable, Bool.and_eq_true, bne_iff_ne] at kept
          simpa [isNewline] using kept.1.2
    have linesEq : fileLines (functionLine ⟨name, vram, size⟩ ++ ['\n']) =
        lines ++ [last ++ '"' :: numbersText vram size] := by
      rw [functionLine_eq, List.append_assoc, List.cons_append, split '"' _ (by decide),
        universalNewlines_eq_self noReturn, ← List.cons_append, ← List.append_assoc,
        Text.linesBy_append_break lineOneLine rfl]
      rfl
    show (fileLines _).filterMap functionOfLine = _
    rw [linesEq, List.filterMap_append, ← functionOfLine_eq]
    rfl
  have plain : ∀ size, '"' ∉ numbersText vram size := fun size member =>
    absurd (quotable_of_mem_numbersText member) (by decide)
  rcases firstFunction_append_quote last with unseen | ⟨own, closed⟩
  · refine ⟨lines.filterMap functionOfLine ++ ((firstFunction last).bind fnOfMatch).toList, none,
      fun size _ => ?_⟩
    rw [read size, unseen _ (plain size)]
    exact (List.append_nil _).symm
  · refine ⟨lines.filterMap functionOfLine, if vram < 0 then none else some own,
      fun size nonneg => ?_⟩
    rw [read size, closed _ (plain size), matchNumbers_numbersText own vram nonneg]
    by_cases negative : vram < 0
    · rw [if_pos negative, if_pos negative]
      rfl
    · rw [if_neg negative, if_neg negative]
      rfl

/-! ## The sizes file -/

/-- The fixer's lines start with a comment, whatever the file they are appended to. -/
theorem unlines_fixesHeader (lines : List Text) :
    ∃ rest, Text.unlines '\n' (fixesHeader ++ lines) = '#' :: rest := by
  have first : "# auto-extended by tools/fix_truncated_delay_slots.py: function ends with a".toList =
      '#' :: " auto-extended by tools/fix_truncated_delay_slots.py: function ends with a".toList := by
    decide +kernel
  unfold fixesHeader Text.unlines
  rw [List.cons_append, List.flatMap_cons, first]
  exact ⟨_, rfl⟩

/-- The next generation reads the fixer's entries behind those of the file. -/
theorem loadSizes_appendFixes {sizes : Option Text} {overrides : Dict Int Int}
    {fixed : List (Int × Int)} (loaded : loadSizes sizes = .ok overrides)
    (nonneg : ∀ entry ∈ fixed, 0 ≤ entry.1 ∧ 0 ≤ entry.2) :
    loadSizes (appendFixes sizes fixed) = .ok (Dict.writes overrides fixed) := by
  by_cases nothing : fixed = []
  · rw [nothing]
    exact loaded
  have read : ∀ file : Text, ∀ entries, (dataLines file).mapM parseSizeLine = .ok entries →
      loadSizes (some (file ++ Text.unlines '\n' (fixesHeader ++ fixed.map sizeEntry))) =
        .ok (Dict.writes (Dict.writes [] entries) fixed) := by
    intro file entries parsed
    obtain ⟨rest, comment⟩ := unlines_fixesHeader (fixed.map sizeEntry)
    have data := dataLines_fixes nonneg
    rw [comment] at data ⊢
    unfold loadSizes
    simp only
    rw [dataLines_append_comment, data, List.mapM_append, parsed, mapM_parseSizeLine nonneg]
    show Except.ok (Dict.writes [] (entries ++ fixed)) = _
    unfold Dict.writes
    rw [List.foldl_append]
  have appended : appendFixes sizes fixed =
      some (sizes.getD [] ++ Text.unlines '\n' (fixesHeader ++ fixed.map sizeEntry)) := by
    rw [appendFixes, if_neg (by simpa using nothing)]
  rw [appended]
  cases sizes with
  | none =>
      cases loaded
      exact read [] [] rfl
  | some file =>
      obtain ⟨entries, parsed, same⟩ := Outcome.bind_eq_ok loaded
      cases same
      exact read file entries parsed

end StadiumRecomp.Symbols
