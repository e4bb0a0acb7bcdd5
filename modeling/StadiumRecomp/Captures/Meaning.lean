import StadiumRecomp.Captures.Idempotence
import StadiumRecomp.Lib.TomlArray

/-!
Contract: the array's meaning to TOML before and after a run.

Owns: which arrays the tool can rebuild without loss, and that for those the new
array holds the old values and the captured addresses.

Does not own: the rest of the TOML document, which stays byte for byte.
-/

set_option autoImplicit false

namespace StadiumRecomp.Captures

open StadiumRecomp.Lib
open StadiumRecomp.Lib.PyInt
open StadiumRecomp.Lib.PyText

/-! ## The array in a document -/

/-- At `before`'s end stands an assignment of an integer array to the name, with
`inner` between its brackets and `after` behind it. -/
def TomlArrayAt (text before inner after : Text) (values : List Int) : Prop :=
  ∃ left right : Text, (∀ symbol ∈ left, TomlArray.isBlank symbol = true) ∧
    (∀ symbol ∈ right, TomlArray.isBlank symbol = true) ∧
    text = before ++ assignmentFront left right ++ inner ++ ']' :: after ∧
    TomlArray.values inner = some values

/-- The blank in front of and behind the equals sign of a written assignment. -/
theorem isBlank_space : ∀ symbol ∈ [' '], TomlArray.isBlank symbol = true :=
  List.forall_mem_singleton.mpr rfl

/-- The addresses a manifest gives to fold. -/
def foldableAddrs (misses : List Miss) : List Int :=
  misses.filterMap (fun miss =>
    if miss.skipReason = none then int16 miss.missedAddr else none)

/-- A run leaves the text around the array, and an array with the old values and
the foldable addresses. -/
def KeepsArray (misses : List Miss) (file before after : Text) (values : List Int) : Prop :=
  ∃ once inner newValues, foldCaptures misses file = .ok once ∧
    TomlArrayAt once before inner after newValues ∧
    ∀ value, value ∈ newValues ↔ value ∈ values ∨ value ∈ foldableAddrs misses

/-! ## Arrays the tool can rebuild -/

/-- Nothing but blanks in front of the first comment mark. -/
def OnlyComment (line : Text) : Prop :=
  ∀ symbol ∈ Text.cutAt isHash line, pySpace symbol = true

instance (line : Text) : Decidable (OnlyComment line) :=
  decidable_of_iff _ List.all_iff_forall_prop

/-- A line of the region holds the address the tool finds on it, with its comma,
and nothing when it finds none. -/
def HoldsAddress (line : Text) : Prop :=
  match addrOfLine line with
  | none => OnlyComment line
  | some addr => TomlArray.run .beforeValue (line ++ ['\n']) = some (.beforeValue, [addr])

instance (line : Text) : Decidable (HoldsAddress line) :=
  match read : addrOfLine line with
  | none => decidable_of_iff (OnlyComment line) (by simp [HoldsAddress, read])
  | some addr => decidable_of_iff
      (TomlArray.run .beforeValue (line ++ ['\n']) = some (.beforeValue, [addr]))
      (by simp [HoldsAddress, read])

/-- Marker lines hold no value and region lines hold their addresses. -/
def RegionAsWritten : Bool → List Text → Prop
  | _, [] => True
  | inRegion, line :: rest =>
      if contains beginMarker line then OnlyComment line ∧ RegionAsWritten true rest
      else if contains endMarker line then OnlyComment line ∧ RegionAsWritten false rest
      else (inRegion = true → HoldsAddress line) ∧ RegionAsWritten inRegion rest

instance decideRegionAsWritten : (inRegion : Bool) → (lines : List Text) →
    Decidable (RegionAsWritten inRegion lines)
  | _, [] => isTrue trivial
  | inRegion, line :: rest =>
      have := decideRegionAsWritten true rest
      have := decideRegionAsWritten false rest
      have := decideRegionAsWritten inRegion rest
      inferInstanceAs (Decidable
        (if contains beginMarker line then OnlyComment line ∧ RegionAsWritten true rest
        else if contains endMarker line then OnlyComment line ∧ RegionAsWritten false rest
        else (inRegion = true → HoldsAddress line) ∧ RegionAsWritten inRegion rest))

/-- The manifest's addresses are hexadecimal; those to fold are not negative and
fit 64 bits, and their comments hold no control character. -/
def PlainCaptures (misses : List Miss) : Prop :=
  ∀ miss ∈ misses, ∃ addr, int16 miss.missedAddr = some addr ∧
    (miss.skipReason = none → 0 ≤ addr ∧ TomlArray.inRange addr = true ∧
      ∀ symbol ∈ miss.comment, TomlArray.isCommentSymbol symbol = true)

/-! ## Lines of the array -/

/-- A line without values leaves the reader where it was. -/
theorem run_onlyComment {phase last : TomlArray.Phase} {line : Text} {read : List Int}
    (lineStart : TomlArray.LineStart phase) (oneLine : '\n' ∉ line)
    (only : OnlyComment line)
    (ran : TomlArray.run phase (line ++ ['\n']) = some (last, read)) :
    last = phase ∧ read = [] := by
  have lineBreak : TomlArray.step phase '\n' = some (phase, []) := by
    rcases lineStart with rfl | rfl <;> rfl
  have opened : TomlArray.step phase '#' = some (.comment phase, []) := by
    rcases lineStart with rfl | rfl <;> rfl
  rcases Text.cutAt_cases isHash line with whole | ⟨mark, rest, isMark, parts⟩
  · obtain ⟨_, _, _, ranFront, ranBreak, rfl⟩ := TomlArray.run_append.mp ran
    obtain ⟨rfl, rfl⟩ := TomlArray.run_blanks lineStart (whole ▸ only) ranFront
    obtain ⟨_, _, _, stepped, ended, rfl⟩ := TomlArray.run_cons.mp ranBreak
    rw [lineBreak] at stepped
    cases stepped
    cases ended
    exact ⟨rfl, rfl⟩
  · have restOneLine : '\n' ∉ rest := by
      intro member
      apply oneLine
      rw [parts]
      simp [member]
    have hash : mark = '#' := by simpa [isHash] using isMark
    subst hash
    rw [parts, List.append_assoc, List.cons_append] at ran
    obtain ⟨_, _, _, ranFront, ranBack, rfl⟩ := TomlArray.run_append.mp ran
    obtain ⟨rfl, rfl⟩ := TomlArray.run_blanks lineStart only ranFront
    obtain ⟨_, _, _, stepped, ranRest, rfl⟩ := TomlArray.run_cons.mp ranBack
    rw [opened] at stepped
    cases stepped
    obtain ⟨_, _, _, ranComment, ranBreak, rfl⟩ := TomlArray.run_append.mp ranRest
    obtain ⟨rfl, rfl, _⟩ := (TomlArray.run_comment restOneLine).mp ranComment
    cases ranBreak
    exact ⟨rfl, rfl⟩

/-- The comment of a line that TOML reads holds no control character. -/
theorem commentOfLine_plain {phase last : TomlArray.Phase} {line : Text} {read : List Int}
    (oneLine : '\n' ∉ line)
    (ran : TomlArray.run phase (line ++ ['\n']) = some (last, read)) :
    ∀ symbol ∈ commentOfLine line, TomlArray.isCommentSymbol symbol = true := by
  intro symbol member
  unfold commentOfLine at member
  split at member
  next left right split =>
    obtain ⟨mark, isMark, parts, _⟩ := Text.splitFirst_eq_some split
    have hash : mark = '#' := by simpa [isHash] using isMark
    have rightOneLine : '\n' ∉ right := by
      intro inRight
      apply oneLine
      rw [parts]
      simp [inRight]
    rw [parts, hash, List.append_assoc, List.cons_append] at ran
    obtain ⟨_, _, _, _, ranBack, _⟩ := TomlArray.run_append.mp ran
    obtain ⟨next, _, _, stepped, ranRest, _⟩ := TomlArray.run_cons.mp ranBack
    have inComment : ∃ back, next = .comment back := by
      rcases TomlArray.step_cases stepped with ⟨back, _, _, ⟨isBreak, _⟩ | ⟨_, _, rfl⟩⟩ |
        ⟨separates, _⟩ | ⟨_, _, rfl⟩ | ⟨isComma, _⟩ | ⟨inToken, _⟩
      · exact absurd isBreak (by decide)
      · exact ⟨back, rfl⟩
      · exact absurd separates (by decide)
      · exact ⟨_, rfl⟩
      · exact absurd isComma (by decide)
      · exact absurd inToken (by decide)
    obtain ⟨back, rfl⟩ := inComment
    obtain ⟨_, _, _, ranComment, _, _⟩ := TomlArray.run_append.mp ranRest
    exact ((TomlArray.run_comment rightOneLine).mp ranComment).2.2 symbol
      (Text.mem_of_mem_strip member)
  next => cases member

/-! ## Manual and managed values -/

/-- No comment of a managed entry holds a control character. -/
def CleanComments (folded : Dict Int Text) : Prop :=
  ∀ entry ∈ folded, ∀ symbol ∈ entry.2, TomlArray.isCommentSymbol symbol = true

/-- Parsing from `before` to `after` parts what TOML reads into the values of the
kept lines, which it reads between the same phases, and the managed addresses. -/
structure Parts (phase last : TomlArray.Phase) (read : List Int) (before after : Existing)
    (kept : List Text) (manual managed : List Int) : Prop where
  preamble : after.preamble = before.preamble ++ kept
  ranKept : TomlArray.run phase (Text.unlines '\n' kept) = some (last, manual)
  values : ∀ value, value ∈ read ↔ value ∈ manual ∨ value ∈ managed
  keys : ∀ addr, addr ∈ after.folded.map Prod.fst ↔
    addr ∈ before.folded.map Prod.fst ∨ addr ∈ managed
  clean : CleanComments before.folded → CleanComments after.folded

theorem Parts.refl (phase : TomlArray.Phase) (state : Existing) :
    Parts phase phase [] state state [] [] [] where
  preamble := by simp
  ranKept := rfl
  values := by simp
  keys := by simp
  clean := id

theorem Parts.trans {phase middle last : TomlArray.Phase} {first second : List Int}
    {before between after : Existing} {kept more : List Text}
    {manual manualMore managed managedMore : List Int}
    (front : Parts phase middle first before between kept manual managed)
    (back : Parts middle last second between after more manualMore managedMore) :
    Parts phase last (first ++ second) before after (kept ++ more) (manual ++ manualMore)
      (managed ++ managedMore) where
  preamble := by rw [back.preamble, front.preamble, List.append_assoc]
  ranKept := by
    have split : Text.unlines '\n' (kept ++ more) =
        Text.unlines '\n' kept ++ Text.unlines '\n' more := by
      simp [Text.unlines]
    rw [split]
    exact TomlArray.run_append.mpr ⟨middle, manual, manualMore, front.ranKept, back.ranKept, rfl⟩
  values := by
    intro value
    simp only [List.mem_append, front.values, back.values]
    tauto
  keys := by
    intro addr
    rw [back.keys, front.keys, List.mem_append, or_assoc]
  clean := fun cleanBefore => back.clean (front.clean cleanBefore)

/-- A line without values that is not kept. -/
theorem parts_of_dropped {phase last : TomlArray.Phase} {line : Text} {read : List Int}
    {before after : Existing} (lineStart : TomlArray.LineStart phase)
    (oneLine : '\n' ∉ line) (only : OnlyComment line)
    (ran : TomlArray.run phase (line ++ ['\n']) = some (last, read))
    (samePreamble : after.preamble = before.preamble)
    (sameFolded : after.folded = before.folded) :
    Parts phase last read before after [] [] [] := by
  obtain ⟨rfl, rfl⟩ := run_onlyComment lineStart oneLine only ran
  exact ⟨by simp [samePreamble], rfl, by simp, by simp [sameFolded], by rw [sameFolded]; exact id⟩

/-- A region line with an address. -/
theorem parts_of_entry {phase last : TomlArray.Phase} {line : Text} {read : List Int}
    {before : Existing} {addr : Int} (lineStart : TomlArray.LineStart phase)
    (oneLine : '\n' ∉ line)
    (holds : TomlArray.run .beforeValue (line ++ ['\n']) = some (.beforeValue, [addr]))
    (ran : TomlArray.run phase (line ++ ['\n']) = some (last, read)) :
    Parts phase last read before
      { before with folded := before.folded.set addr (commentOfLine line) } [] [] [addr] := by
  have atStart : phase = .beforeValue := by
    rcases lineStart with atStart | rfl
    · exact atStart
    · rw [TomlArray.run_afterValue_of_value oneLine holds] at ran
      cases ran
  subst atStart
  rw [holds] at ran
  cases ran
  refine ⟨by simp, rfl, by simp, ?_, ?_⟩
  · intro other
    rw [Dict.mem_keys_set, List.mem_singleton, or_comm]
  · intro clean entry member
    rcases Dict.mem_set member with rfl | earlier
    · exact commentOfLine_plain oneLine holds
    · exact clean entry earlier

/-- One line of an array whose region is as written. -/
theorem parts_parseLine {phase last : TomlArray.Phase} {line : Text} {rest : List Text}
    {read : List Int} {state : Existing} (lineStart : TomlArray.LineStart phase)
    (oneLine : '\n' ∉ line) (written : RegionAsWritten state.inRegion (line :: rest))
    (ran : TomlArray.run phase (line ++ ['\n']) = some (last, read)) :
    ∃ kept manual managed,
      Parts phase last read state (parseLine state line) kept manual managed ∧
      RegionAsWritten (parseLine state line).inRegion rest := by
  unfold RegionAsWritten at written
  unfold parseLine
  split at written
  next isBegin =>
    rw [if_pos isBegin]
    exact ⟨[], [], [], parts_of_dropped lineStart oneLine written.1 ran rfl rfl, written.2⟩
  next noBegin =>
    rw [if_neg noBegin]
    split at written
    next isEnd =>
      rw [if_pos isEnd]
      exact ⟨[], [], [], parts_of_dropped lineStart oneLine written.1 ran rfl rfl, written.2⟩
    next noEnd =>
      rw [if_neg noEnd]
      by_cases inRegion : state.inRegion = true
      · rw [if_pos inRegion]
        have holds := written.1 inRegion
        unfold HoldsAddress at holds
        cases read : addrOfLine line with
        | none =>
            rw [read] at holds
            exact ⟨[], [], [], parts_of_dropped lineStart oneLine holds ran rfl rfl, written.2⟩
        | some addr =>
            rw [read] at holds
            exact ⟨[], [], [addr], parts_of_entry lineStart oneLine holds ran, written.2⟩
      · rw [if_neg inRegion]
        refine ⟨[line], read, [], ⟨rfl, ?_, by simp, by simp, id⟩, written.2⟩
        simpa [Text.unlines] using ran

/-- All lines of an array whose region is as written. -/
theorem parts_foldl_parseLine {phase last : TomlArray.Phase} {lines : List Text}
    {read : List Int} {state : Existing} (lineStart : TomlArray.LineStart phase)
    (oneLine : ∀ line ∈ lines, '\n' ∉ line)
    (written : RegionAsWritten state.inRegion lines)
    (ran : TomlArray.run phase (Text.unlines '\n' lines) = some (last, read)) :
    ∃ kept manual managed,
      Parts phase last read state (lines.foldl parseLine state) kept manual managed := by
  induction lines generalizing phase state read with
  | nil =>
      cases ran
      exact ⟨[], [], [], Parts.refl _ state⟩
  | cons line rest inductionHypothesis =>
      have split : Text.unlines '\n' (line :: rest) =
          (line ++ ['\n']) ++ Text.unlines '\n' rest := by
        simp [Text.unlines]
      rw [split] at ran
      obtain ⟨middle, first, second, ranLine, ranRest, rfl⟩ := TomlArray.run_append.mp ran
      obtain ⟨kept, manual, managed, front, writtenRest⟩ :=
        parts_parseLine lineStart (oneLine line List.mem_cons_self) written ranLine
      obtain ⟨more, manualMore, managedMore, back⟩ := inductionHypothesis
        (TomlArray.lineStart_of_run ranLine lineStart.proper)
        (fun other member => oneLine other (List.mem_cons_of_mem _ member)) writtenRest ranRest
      exact ⟨kept ++ more, manual ++ manualMore, managed ++ managedMore, front.trans back⟩

/-! ## The rebuilt body -/

/-- Every line boundary of the body is a newline. -/
def NewlineBoundaries (body : Text) : Prop :=
  ∀ symbol ∈ body, isLineBoundary symbol = true → symbol = '\n'

instance (body : Text) : Decidable (NewlineBoundaries body) :=
  decidable_of_iff _ List.all_iff_forall_prop

/-- The lines of a body, each ended by a newline, are read like the body. -/
theorem run_splitlines {body : Text} {values : List Int}
    (boundaries : NewlineBoundaries body) (valid : TomlArray.values body = some values) :
    ∃ last, TomlArray.LineStart last ∧
      TomlArray.run .beforeValue (body ++ ['\n']) = some (last, values) ∧
      TomlArray.run .beforeValue (Text.unlines '\n' (splitlines body)) =
        some (last, values) := by
  obtain ⟨last, lineStart, ran⟩ := TomlArray.run_of_values valid
  refine ⟨last, lineStart, ran, ?_⟩
  unfold splitlines
  rcases Text.unlines_linesBy boundaries with ⟨same, shape⟩ | ended
  · -- The break behind the last line is there already, and a second one adds nothing.
    rw [same]
    obtain ⟨middle, first, second, ranBody, ranBreak, rfl⟩ := TomlArray.run_append.mp ran
    have middleStart : TomlArray.LineStart middle := by
      rcases shape with rfl | ⟨front, rfl⟩
      · cases ranBody
        exact Or.inl rfl
      · exact TomlArray.lineStart_of_run ranBody trivial
    have blank : ∀ symbol ∈ ['\n'], pySpace symbol = true := List.forall_mem_singleton.mpr rfl
    obtain ⟨rfl, rfl⟩ := TomlArray.run_blanks middleStart blank ranBreak
    rw [List.append_nil]
    exact ranBody
  · rw [ended]
    exact ran

/-- Trimmed blank lines carry no value. -/
theorem run_preambleOf {inner : Text} {last : TomlArray.Phase} {manual : List Int}
    (ran : TomlArray.run .beforeValue (Text.unlines '\n' (parseLines inner).preamble) =
      some (last, manual)) :
    TomlArray.run .beforeValue (Text.unlines '\n' (preambleOf inner)) =
      some (last, manual) := by
  set lines := (parseLines inner).preamble
  have parts : lines = preambleOf inner ++ lines.rtakeWhile isBlankLine :=
    (List.rdropWhile_append_rtakeWhile).symm
  have split : Text.unlines '\n' lines = Text.unlines '\n' (preambleOf inner) ++
      Text.unlines '\n' (lines.rtakeWhile isBlankLine) := by
    conv_lhs => rw [parts]
    simp [Text.unlines]
  have blank : ∀ symbol ∈ Text.unlines '\n' (lines.rtakeWhile isBlankLine),
      pySpace symbol = true := by
    intro symbol member
    obtain ⟨line, isLine, inLine⟩ := List.mem_flatMap.mp member
    have lineBlank := List.mem_rtakeWhile_imp isLine
    rcases List.mem_append.mp inLine with inside | isBreak
    · exact Text.forall_of_strip_eq_nil (by simpa [isBlankLine] using lineBlank) symbol inside
    · rw [List.mem_singleton.mp isBreak]
      decide
  rw [split] at ran
  obtain ⟨middle, first, second, ranFront, ranBack, rfl⟩ := TomlArray.run_append.mp ran
  have middleStart := TomlArray.lineStart_of_run_unlines (Or.inl rfl) ranFront
  obtain ⟨rfl, rfl⟩ := TomlArray.run_blanks middleStart blank ranBack
  rw [List.append_nil]
  exact ranFront

theorem integer_fmtHEX08 {addr : Nat} (small : TomlArray.inRange addr = true) :
    TomlArray.integer (fmtHEX08 addr) = some (addr : Int) := by
  have digits := natLiteral_hexPadded keepsDigits_toUpper rfl 8 addr
  unfold TomlArray.integer TomlArray.literal fmtHEX08
  simp only [digits, Option.map_some]
  exact Option.filter_eq_some_iff.mpr ⟨rfl, small⟩

theorem isValueSymbol_of_isHexDigit {symbol : Char} (hex : isHexDigit symbol = true) :
    TomlArray.isValueSymbol symbol = true := by
  unfold isHexDigit digitVal at hex
  unfold TomlArray.isValueSymbol
  generalize symbol.toNat = code at hex ⊢
  simp only at hex
  split at hex
  next digit => simp [digit]
  next =>
    split at hex
    next lower => simp [lower]
    next =>
      split at hex
      next upper => simp [upper]
      next => simp at hex

theorem mem_fmtHEX08_value {addr : Nat} {symbol : Char} (member : symbol ∈ fmtHEX08 addr) :
    TomlArray.isValueSymbol symbol = true := by
  rcases mem_fmtHEX08 member with hex | rfl | rfl
  · exact isValueSymbol_of_isHexDigit hex
  · decide
  · decide

/-- A written entry adds its address. -/
theorem run_entryText {addr : Nat} {comment : Text} (small : TomlArray.inRange addr = true)
    (plain : ∀ symbol ∈ comment, TomlArray.isCommentSymbol symbol = true) :
    TomlArray.run .beforeValue (entryText addr comment ++ ['\n']) =
      some (.beforeValue, [(addr : Int)]) := by
  have noBreak : '\n' ∉ comment := by
    intro member
    exact absurd (plain _ member) (by decide)
  have margin : TomlArray.run .beforeValue (Text.ascii "    ") = some (.beforeValue, []) := by
    decide
  have number := TomlArray.run_entry (List.cons_ne_nil _ _)
    (fun _ => mem_fmtHEX08_value) (integer_fmtHEX08 small)
  have front : TomlArray.run .beforeValue (Text.ascii "    " ++ (fmtHEX08 addr ++ [','])) =
      some (.beforeValue, [(addr : Int)]) :=
    TomlArray.run_append.mpr ⟨_, [], _, margin, number, rfl⟩
  have suffix : TomlArray.run .beforeValue
      ((if comment = [] then [] else Text.ascii "  # " ++ comment) ++ ['\n']) =
        some (.beforeValue, []) := by
    split
    next => decide
    next =>
      have opened : TomlArray.run .beforeValue (Text.ascii "  # ") =
          some (.comment .beforeValue, []) := by
        decide
      have inComment := (TomlArray.run_comment noBreak).mpr
        ⟨(rfl : TomlArray.Phase.comment .beforeValue = _), (rfl : ([] : List Int) = []), plain⟩
      exact TomlArray.run_append.mpr ⟨_, [], [],
        TomlArray.run_append.mpr ⟨_, [], [], opened, inComment, rfl⟩, rfl, rfl⟩
  have shape : entryText addr comment ++ ['\n'] =
      (Text.ascii "    " ++ (fmtHEX08 addr ++ [','])) ++
        ((if comment = [] then [] else Text.ascii "  # " ++ comment) ++ ['\n']) := by
    simp [entryText]
  rw [shape]
  exact TomlArray.run_append.mpr ⟨_, _, [], front, suffix, by simp⟩

/-- Written entries add their addresses, in order. -/
theorem run_entries (comments : Int → Text) {addrs : List Int}
    (plain : ∀ addr ∈ addrs, 0 ≤ addr ∧ TomlArray.inRange addr = true ∧
      ∀ symbol ∈ comments addr, TomlArray.isCommentSymbol symbol = true) :
    TomlArray.run .beforeValue (Text.unlines '\n'
      (addrs.map (fun addr => entryText addr (comments addr)))) =
        some (.beforeValue, addrs) := by
  induction addrs with
  | nil => rfl
  | cons addr rest inductionHypothesis =>
      obtain ⟨nonneg, small, plainComment⟩ := plain addr List.mem_cons_self
      obtain ⟨value, rfl⟩ := Int.eq_ofNat_of_zero_le nonneg
      have tail := inductionHypothesis
        (fun other member => plain other (List.mem_cons_of_mem _ member))
      have split : Text.unlines '\n' (((value : Int) :: rest).map
            (fun addr => entryText addr (comments addr))) =
          (entryText value (comments value) ++ ['\n']) ++
            Text.unlines '\n' (rest.map (fun addr => entryText addr (comments addr))) := by
        simp [Text.unlines]
      rw [split]
      exact TomlArray.run_append.mpr ⟨.beforeValue, [(value : Int)], rest,
        run_entryText small plainComment, tail, rfl⟩

theorem run_markerLine {phase : TomlArray.Phase} (lineStart : TomlArray.LineStart phase)
    {marker : Text} (isMarker : marker = beginMarker ∨ marker = endMarker) :
    TomlArray.run phase (markerLine marker ++ ['\n']) = some (phase, []) := by
  rcases lineStart with rfl | rfl <;> rcases isMarker with rfl | rfl <;> decide +kernel

/-- The values of a written body: those of the kept lines, then the managed ones. -/
theorem values_written {kept : List Text} {folded : Dict Int Text} {last : TomlArray.Phase}
    {manual : List Int}
    (ranKept : TomlArray.run .beforeValue (Text.unlines '\n' kept) = some (last, manual))
    (room : last = .beforeValue ∨ sortedAddrs folded = [])
    (plain : ∀ addr ∈ sortedAddrs folded, 0 ≤ addr ∧ TomlArray.inRange addr = true ∧
      ∀ symbol ∈ (Dict.get? folded addr).getD [], TomlArray.isCommentSymbol symbol = true) :
    TomlArray.values ('\n' :: Text.unlines '\n' (innerLines kept folded)) =
      some (manual ++ sortedAddrs folded) := by
  have lineStart := TomlArray.lineStart_of_run_unlines (Or.inl rfl) ranKept
  have entries : TomlArray.run last
      (Text.unlines '\n' ((sortedAddrs folded).map (entryLine folded))) =
        some (last, sortedAddrs folded) := by
    rcases room with rfl | none
    · exact run_entries (fun addr => (Dict.get? folded addr).getD []) plain
    · rw [none]
      rfl
  have shape : '\n' :: Text.unlines '\n' (innerLines kept folded) =
      ['\n'] ++ (Text.unlines '\n' kept ++ ((markerLine beginMarker ++ ['\n']) ++
        (Text.unlines '\n' ((sortedAddrs folded).map (entryLine folded)) ++
          (markerLine endMarker ++ ['\n'])))) := by
    simp [innerLines, Text.unlines]
  apply TomlArray.values_of_run lineStart
  rw [shape]
  refine TomlArray.run_append.mpr ⟨.beforeValue, [], _, rfl, ?_, rfl⟩
  refine TomlArray.run_append.mpr ⟨last, manual, _, ranKept, ?_, rfl⟩
  refine TomlArray.run_append.mpr
    ⟨last, [], _, run_markerLine lineStart (Or.inl rfl), ?_, rfl⟩
  exact TomlArray.run_append.mpr
    ⟨last, sortedAddrs folded, [], entries, run_markerLine lineStart (Or.inr rfl),
      (List.append_nil _).symm⟩

/-! ## The run -/

/-- A manifest of hexadecimal addresses loads, with exactly its foldable ones. -/
theorem loadFoldable_keys {misses : List Miss} (before : Foldable)
    (parses : ∀ miss ∈ misses, ∃ addr, int16 miss.missedAddr = some addr) :
    ∃ found, misses.foldlM addMiss before = .ok found ∧
      ∀ addr, addr ∈ found.fold.map Prod.fst ↔
        addr ∈ before.fold.map Prod.fst ∨ addr ∈ foldableAddrs misses := by
  induction misses generalizing before with
  | nil => exact ⟨before, rfl, by simp [foldableAddrs]⟩
  | cons miss rest inductionHypothesis =>
      obtain ⟨own, read⟩ := parses miss List.mem_cons_self
      have restParses : ∀ other ∈ rest, ∃ addr, int16 other.missedAddr = some addr :=
        fun other member => parses other (List.mem_cons_of_mem _ member)
      have added : ∃ middle, addMiss before miss = .ok middle ∧
          ∀ addr, addr ∈ middle.fold.map Prod.fst ↔
            addr ∈ before.fold.map Prod.fst ∨ (miss.skipReason = none ∧ own = addr) := by
        cases reason : miss.skipReason with
        | some text =>
            refine ⟨_, by simp only [addMiss, read, reason]; rfl, by simp⟩
        | none =>
            refine ⟨_, by simp only [addMiss, read, reason]; rfl, ?_⟩
            intro addr
            simp only [Dict.mem_keys_set, true_and]
            rw [or_comm, eq_comm]
      obtain ⟨middle, addedOk, middleKeys⟩ := added
      obtain ⟨found, loaded, keys⟩ := inductionHypothesis middle restParses
      refine ⟨found, ?_, ?_⟩
      · rw [List.foldlM_cons, addedOk]
        exact loaded
      · intro addr
        have own : addr ∈ foldableAddrs (miss :: rest) ↔
            (miss.skipReason = none ∧ own = addr) ∨ addr ∈ foldableAddrs rest := by
          unfold foldableAddrs
          by_cases kept : miss.skipReason = none
          · simp only [kept, if_true, read, List.filterMap_cons, List.mem_cons, true_and]
            rw [eq_comm]
          · simp only [kept, if_false, List.filterMap_cons, false_and, false_or]
        rw [keys, middleKeys, or_assoc, own]

/-- Everything written into the region is readable to TOML. -/
theorem managed_readable {misses : List Miss} {found : Foldable} {inner : Text}
    {phase last : TomlArray.Phase} {values manual managed : List Int} {kept : List Text}
    (captures : PlainCaptures misses) (loaded : loadFoldable misses = .ok found)
    (ran : TomlArray.run phase (Text.unlines '\n' (splitlines inner)) = some (last, values))
    (parts : Parts phase last values ⟨false, [], []⟩ (parseLines inner) kept manual managed) :
    ∀ addr ∈ sortedAddrs (Dict.writes (foldedOf inner) found.fold),
      0 ≤ addr ∧ TomlArray.inRange addr = true ∧
      ∀ symbol ∈ (Dict.get? (Dict.writes (foldedOf inner) found.fold) addr).getD [],
        TomlArray.isCommentSymbol symbol = true := by
  intro addr isKey
  rw [mem_sortedAddrs, ← Dict.isSome_get?_iff] at isKey
  obtain ⟨comment, present⟩ := Option.isSome_iff_exists.mp isKey
  rw [present, Option.getD_some]
  rcases Dict.mem_writes (Dict.mem_of_get? present) with captured | existing
  · rcases mem_loadFoldable loaded captured with impossible | ⟨miss, inMisses, kept, read, same⟩
    · cases impossible
    · obtain ⟨other, otherRead, plain⟩ := captures miss inMisses
      simp only at read same
      rw [read] at otherRead
      cases otherRead
      rw [same]
      exact plain kept
  · obtain ⟨line, _, _, read, _⟩ := mem_foldedOf existing
    have isManaged : addr ∈ managed := by
      have key := (parts.keys addr).mp (List.mem_map_of_mem existing)
      simpa using key
    refine ⟨addrOfLine_nonneg read, ?_, ?_⟩
    · exact TomlArray.inRange_of_run ran addr ((parts.values addr).mpr (Or.inr isManaged))
    · have none : CleanComments [] := by
        intro entry impossible
        cases impossible
      exact parts.clean none _ existing

/-- Folding keeps the array's meaning: for an array the tool locates, with a
region as it writes it and a comma behind the last value, the new array holds the
old values and the foldable addresses, and nothing around it changes. -/
theorem foldCaptures_keepsArray {misses : List Miss} {file before inner after : Text}
    {values : List Int} (array : TomlArrayAt file before inner after values)
    (firstMatch : ∀ start < before.length, matchAssignment (file.drop start) = none)
    (noClose : ']' ∉ inner) (noReturn : '\r' ∉ file) (boundaries : NewlineBoundaries inner)
    (written : RegionAsWritten false (splitlines inner))
    (comma : (∃ read, TomlArray.run .beforeValue inner = some (.beforeValue, read)) ∨
      (foldedOf inner = [] ∧ foldableAddrs misses = []))
    (captures : PlainCaptures misses) : KeepsArray misses file before after values := by
  obtain ⟨left, right, leftBlank, rightBlank, shape, valid⟩ := array
  have read : universalNewlines file = file := by
    apply universalNewlines_eq_self
    rintro symbol member rfl
    exact noReturn member
  have located : findArrayBlock file = .ok ⟨before, inner, after⟩ := by
    rw [findArrayBlock_assignment
      (fun symbol member => TomlArray.pySpace_of_isBlank (leftBlank symbol member))
      (fun symbol member => TomlArray.pySpace_of_isBlank (rightBlank symbol member))
      (by rw [shape, List.append_assoc]) firstMatch,
      Text.splitFirst_append (isClose_eq_false_of_not_mem noClose) rfl]
  obtain ⟨found, loaded, captured⟩ := loadFoldable_keys ⟨[], []⟩
    (fun miss member => (captures miss member).imp (fun _ => And.left))
  -- What TOML reads from the lines is parted into kept lines and managed entries.
  obtain ⟨last, lineStart, ranBody, ranLines⟩ := run_splitlines boundaries valid
  have oneLine : ∀ line ∈ splitlines inner, '\n' ∉ line := by
    intro line member breaks
    exact absurd (oneLine_of_mem_splitlines member _ breaks) (by decide)
  have startWritten : RegionAsWritten (Existing.mk false [] []).inRegion (splitlines inner) :=
    written
  obtain ⟨kept, manual, managed, parts⟩ :=
    parts_foldl_parseLine (Or.inl rfl) oneLine startWritten ranLines
  have keptEq : (parseLines inner).preamble = kept := parts.preamble
  have ranKept := run_preambleOf (keptEq ▸ parts.ranKept)
  have managedKeys : ∀ addr, addr ∈ (foldedOf inner).map Prod.fst ↔ addr ∈ managed := by
    intro addr
    exact (parts.keys addr).trans (by simp)
  set merged := Dict.writes (foldedOf inner) found.fold with mergedEq
  have mergedKeys : ∀ addr, addr ∈ sortedAddrs merged ↔
      addr ∈ managed ∨ addr ∈ foldableAddrs misses := by
    intro addr
    rw [mem_sortedAddrs, mergedEq, Dict.mem_keys_writes, managedKeys, captured]
    simp
  have room : last = .beforeValue ∨ sortedAddrs merged = [] := by
    rcases comma with ⟨front, ranFront⟩ | ⟨noRegion, noCapture⟩
    · left
      have ended := TomlArray.run_append.mpr
        ⟨_, front, [], ranFront, (rfl : TomlArray.run .beforeValue ['\n'] = _), rfl⟩
      rw [ranBody] at ended
      cases ended
      rfl
    · right
      rw [List.eq_nil_iff_forall_not_mem]
      intro addr isKey
      rw [mergedKeys, ← managedKeys, noRegion, noCapture] at isKey
      simp at isKey
  have newValues := values_written ranKept room
    (managed_readable captures loaded ranLines parts)
  set newText := before ++ renderBlock (preambleOf inner) merged ++ after with newTextEq
  have spliced : foldText found.fold (universalNewlines file) = .ok newText := by
    unfold foldText
    rw [read, located]
    rfl
  have once : foldCaptures misses file = .ok newText := by
    rw [foldCaptures_of_ok loaded spliced, read]
    split
    next same => rw [same]
    next => rfl
  refine ⟨newText, '\n' :: Text.unlines '\n' (innerLines (preambleOf inner) merged),
    manual ++ sortedAddrs merged, once, ⟨[' '], [' '], isBlank_space, isBlank_space, ?_, newValues⟩,
    ?_⟩
  · rw [newTextEq, ← openLine_eq]
    simp [renderBlock, Text.unlines]
  · intro value
    rw [List.mem_append, mergedKeys, parts.values, or_assoc]

/-! ## Arrays -/

/-- A file around an array. -/
def arrayFile (before inner after : Text) : Text :=
  before ++ assignmentFront [' '] [' '] ++ inner ++ ']' :: after

/-- A manual entry and a region with one entry. -/
def managedInner : Text :=
  Text.unlines '\n' [[], Text.ascii "    0x80001000,  # boot", markerLine beginMarker,
    Text.ascii "    0x80002000,  # interior hit_count=1", markerLine endMarker]

theorem foldCaptures_keepsArray_example :
    KeepsArray [interiorMiss] (arrayFile (Text.ascii "name = 1\n") managedInner ['\n'])
      (Text.ascii "name = 1\n") ['\n'] [0x80001000, 0x80002000] := by
  have captures : PlainCaptures [interiorMiss] := by
    intro miss member
    rw [List.mem_singleton.mp member]
    exact ⟨0x80001234, by decide +kernel, fun _ => ⟨by decide +kernel, by decide +kernel,
      List.all_iff_forall_prop.mp (by decide +kernel)⟩⟩
  have noClose : ']' ∉ managedInner := by decide +kernel
  exact foldCaptures_keepsArray
    ⟨[' '], [' '], isBlank_space, isBlank_space, rfl, by decide +kernel⟩
    (by decide +kernel) noClose (by decide +kernel)
    (by decide +kernel) (by decide +kernel)
    (Or.inl ⟨[0x80001000, 0x80002000], by decide +kernel⟩) captures

/-- The values of the array between two texts, as TOML reads them. -/
def rereadArray (before after text : Text) : Option (List Int) := do
  let rest ← Search.dropPrefix? before text
  let opened ← matchAssignment rest
  let inner ← Search.dropPrefix? (']' :: after).reverse opened.reverse
  TomlArray.values inner.reverse

theorem rereadArray_of_tomlArrayAt {text before inner after : Text} {values : List Int}
    (array : TomlArrayAt text before inner after values) :
    rereadArray before after text = some values := by
  obtain ⟨left, right, leftBlank, rightBlank, rfl, valid⟩ := array
  have front : Search.dropPrefix? before
      (before ++ assignmentFront left right ++ inner ++ ']' :: after) =
        some (assignmentFront left right ++ (inner ++ ']' :: after)) := by
    rw [Search.dropPrefix?_eq_some]
    simp
  have opened : matchAssignment (assignmentFront left right ++ (inner ++ ']' :: after)) =
      some (inner ++ ']' :: after) :=
    matchAssignment_eq_some.mpr ⟨left, right,
      fun symbol member => TomlArray.pySpace_of_isBlank (leftBlank symbol member),
      fun symbol member => TomlArray.pySpace_of_isBlank (rightBlank symbol member), rfl⟩
  have closed : Search.dropPrefix? (']' :: after).reverse (inner ++ ']' :: after).reverse =
      some inner.reverse := by
    rw [Search.dropPrefix?_eq_some, List.reverse_append]
  simp only [rereadArray, front, opened, closed, Option.bind_eq_bind, Option.bind_some,
    List.reverse_reverse]
  exact valid

/-- `KeepsArray`, computed. -/
def checkKeepsArray (misses : List Miss) (file before after : Text) (values : List Int) :
    Bool :=
  match foldCaptures misses file with
  | .error _ => false
  | .ok once =>
      match rereadArray before after once with
      | none => false
      | some newValues =>
          newValues.all (· ∈ values ++ foldableAddrs misses) &&
            (values ++ foldableAddrs misses).all (· ∈ newValues)

theorem checkKeepsArray_of_keepsArray {misses : List Miss} {file before after : Text}
    {values : List Int} (keeps : KeepsArray misses file before after values) :
    checkKeepsArray misses file before after values = true := by
  obtain ⟨once, inner, newValues, folded, array, same⟩ := keeps
  unfold checkKeepsArray
  simp only [folded, rereadArray_of_tomlArrayAt array, Bool.and_eq_true, List.all_eq_true,
    decide_eq_true_eq, List.mem_append]
  exact ⟨fun value => (same value).mp, fun value => (same value).mpr⟩

/-- A file with a valid array that a run does not keep. -/
def Loses (misses : List Miss) (before inner after : Text) (values : List Int) : Prop :=
  TomlArrayAt (arrayFile before inner after) before inner after values ∧
    ¬ KeepsArray misses (arrayFile before inner after) before after values

theorem loses_of_check {misses : List Miss} {before inner after : Text} {values : List Int}
    (valid : TomlArray.values inner = some values)
    (fails : checkKeepsArray misses (arrayFile before inner after) before after values = false) :
    Loses misses before inner after values := by
  refine ⟨⟨[' '], [' '], isBlank_space, isBlank_space, rfl, valid⟩, ?_⟩
  intro keeps
  rw [checkKeepsArray_of_keepsArray keeps] at fails
  cases fails

/-- Arrays and captures that a run does not keep, one for each condition. -/
theorem foldCaptures_loses_arrays :
    -- no comma behind the last value
    Loses [interiorMiss] [] (Text.ascii "0x80001000") ['\n'] [0x80001000] ∧
    -- the name in an earlier comment
    Loses [] (Text.ascii "# force_function_vrams = []\n") (Text.ascii "1,") ['\n'] [1] ∧
    -- a bracket in a comment of the array
    Loses [] [] (Text.ascii "\n# [old]\n1,\n") ['\n'] [1] ∧
    -- carriage returns around the array
    Loses [] (Text.ascii "name = 1\r\n") [] ['\n'] [] ∧
    -- a line separator in a comment of the array
    Loses [] [] (Text.ascii "# a" ++ Char.ofNat 0x2028 :: Text.ascii "b\n1,") ['\n'] [1] ∧
    -- a value in front of a marker
    Loses [] [] (Text.unlines '\n' [Text.ascii "1, " ++ beginMarker]) ['\n'] [1] ∧
    -- two values on a line of the region
    Loses [] [] (Text.unlines '\n' [[], beginMarker, Text.ascii "0x1, 0x2,"]) ['\n'] [1, 2] ∧
    -- a negative address
    Loses [{ interiorMiss with missedAddr := Text.ascii "-5" }] [] [] ['\n'] [] ∧
    -- a line break in a captured comment
    Loses [{ interiorMiss with classification := some ['\n'] }] [] [] ['\n'] [] := by
  refine ⟨?_, ?_, ?_, ?_, ?_, ?_, ?_, ?_, ?_⟩ <;>
    exact loses_of_check (by decide +kernel) (by decide +kernel)

end StadiumRecomp.Captures
