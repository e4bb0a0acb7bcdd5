import StadiumRecomp.Captures.Locate

/-!
Contract: what `parse_existing` makes of the lines between the brackets.

Owns: marker lines, lines outside the managed region, the lines the tool writes
into the region, what parsing a written array body gives back, and the parts of a
completed run.

Does not own: the text around the array.
-/

set_option autoImplicit false

namespace StadiumRecomp.Captures

open StadiumRecomp.Lib
open StadiumRecomp.Lib.PyInt
open StadiumRecomp.Lib.PyText

/-! ## Lines -/

/-- A line with neither marker. -/
def Markerless (line : Text) : Prop :=
  contains beginMarker line = false ∧ contains endMarker line = false

instance (line : Text) : Decidable (Markerless line) :=
  inferInstanceAs (Decidable (_ ∧ _))

theorem contains_eq_true_iff (marker line : Text) :
    contains marker line = true ↔ marker <:+: line := by
  unfold contains
  cases found : Search.indexOf? marker line with
  | none =>
      have absent := Search.indexOf?_eq_none_iff.mp found
      simp [absent]
  | some position =>
      have present : marker <:+: line := by
        by_contra absent
        rw [Search.indexOf?_eq_none_iff.mpr absent] at found
        cases found
      simp [present]

/-- A line of a text has no line boundary in it. -/
theorem oneLine_of_mem_splitlines {text line : Text} (member : line ∈ splitlines text) :
    Text.OneLine isLineBoundary line :=
  Text.oneLine_of_mem_linesBy member

/-- Outside the region, lines without markers are kept. -/
theorem foldl_parseLine_markerless {lines : List Text}
    (markerless : ∀ line ∈ lines, Markerless line) (state : Existing)
    (outside : state.inRegion = false) :
    lines.foldl parseLine state = { state with preamble := state.preamble ++ lines } := by
  induction lines generalizing state with
  | nil => simp
  | cons line rest inductionHypothesis =>
      obtain ⟨noBegin, noEnd⟩ := markerless line List.mem_cons_self
      have step : parseLine state line =
          { state with preamble := state.preamble ++ [line] } := by
        simp [parseLine, noBegin, noEnd, outside]
      have tail := inductionHypothesis
        (fun other member => markerless other (List.mem_cons_of_mem _ member))
        { state with preamble := state.preamble ++ [line] } outside
      rw [List.foldl_cons, step, tail]
      simp

/-- One line never drops what was kept before it. -/
theorem parseLine_preamble (state : Existing) (line : Text) :
    (parseLine state line).preamble = state.preamble ∨
      ((parseLine state line).preamble = state.preamble ++ [line] ∧ Markerless line) := by
  unfold parseLine
  split
  next => exact Or.inl rfl
  next noBegin =>
    split
    next => exact Or.inl rfl
    next noEnd =>
      split
      next =>
        left
        split <;> rfl
      next => exact Or.inr ⟨rfl, by simpa using noBegin, by simpa using noEnd⟩

/-- The kept lines are lines of the text without markers, after those kept
before. -/
theorem foldl_parseLine_preamble (lines : List Text) (state : Existing) :
    ∃ more, (lines.foldl parseLine state).preamble = state.preamble ++ more ∧
      ∀ line ∈ more, line ∈ lines ∧ Markerless line := by
  induction lines generalizing state with
  | nil => exact ⟨[], by simp, by simp⟩
  | cons line rest inductionHypothesis =>
      obtain ⟨more, kept, fromRest⟩ := inductionHypothesis (parseLine state line)
      have fromLines : ∀ other ∈ more, other ∈ line :: rest ∧ Markerless other :=
        fun other member => ⟨List.mem_cons_of_mem _ (fromRest other member).1,
          (fromRest other member).2⟩
      rcases parseLine_preamble state line with same | ⟨added, markerless⟩
      · exact ⟨more, by rw [List.foldl_cons, kept, same], fromLines⟩
      · refine ⟨line :: more, by rw [List.foldl_cons, kept, added]; simp, ?_⟩
        intro other member
        rcases List.mem_cons.mp member with rfl | inMore
        · exact ⟨List.mem_cons_self, markerless⟩
        · exact fromLines other inMore

/-- A preamble line is a markerless line of the array's text. -/
theorem mem_preambleOf {inner line : Text} (member : line ∈ preambleOf inner) :
    line ∈ splitlines inner ∧ Markerless line := by
  obtain ⟨more, kept, fromLines⟩ :=
    foldl_parseLine_preamble (splitlines inner) ⟨false, [], []⟩
  have inMore : line ∈ more := by
    have inKept := (List.rdropWhile_prefix _ _).subset member
    unfold parseLines at inKept
    rw [kept] at inKept
    simpa using inKept
  exact fromLines line inMore

/-! ## Managed entries -/

/-- A region line puts an entry into the map or leaves the map alone. -/
theorem parseLine_folded (state : Existing) (line : Text) :
    (parseLine state line).folded = state.folded ∨
      ∃ addr, addrOfLine line = some addr ∧ Markerless line ∧
        (parseLine state line).folded = state.folded.set addr (commentOfLine line) := by
  unfold parseLine
  split
  next => exact Or.inl rfl
  next noBegin =>
    split
    next => exact Or.inl rfl
    next noEnd =>
      split
      next =>
        split
        next addr read =>
          exact Or.inr ⟨addr, read, ⟨by simpa using noBegin, by simpa using noEnd⟩, rfl⟩
        next => exact Or.inl rfl
      next => exact Or.inl rfl

/-- Every managed entry was read from a markerless line. -/
theorem mem_foldl_parseLine_folded {lines : List Text} {state : Existing}
    {entry : Int × Text} (member : entry ∈ (lines.foldl parseLine state).folded) :
    entry ∈ state.folded ∨
      ∃ line ∈ lines, Markerless line ∧ addrOfLine line = some entry.1 ∧
        commentOfLine line = entry.2 := by
  induction lines generalizing state with
  | nil => exact Or.inl member
  | cons line rest inductionHypothesis =>
      rcases inductionHypothesis member with before | ⟨other, inRest, shape⟩
      · rcases parseLine_folded state line with same | ⟨addr, read, markerless, added⟩
        · exact Or.inl (same ▸ before)
        · rw [added] at before
          rcases Dict.mem_set before with rfl | earlier
          · exact Or.inr ⟨line, List.mem_cons_self, markerless, read, rfl⟩
          · exact Or.inl earlier
      · exact Or.inr ⟨other, List.mem_cons_of_mem _ inRest, shape⟩

theorem mem_foldedOf {inner : Text} {entry : Int × Text} (member : entry ∈ foldedOf inner) :
    ∃ line ∈ splitlines inner, Markerless line ∧ addrOfLine line = some entry.1 ∧
      commentOfLine line = entry.2 := by
  rcases mem_foldl_parseLine_folded member with impossible | fromLine
  · cases impossible
  · exact fromLine

theorem distinct_foldl_parseLine (lines : List Text) (state : Existing)
    (distinct : Dict.Distinct state.folded) :
    Dict.Distinct (lines.foldl parseLine state).folded := by
  induction lines generalizing state with
  | nil => exact distinct
  | cons line rest inductionHypothesis =>
      apply inductionHypothesis
      rcases parseLine_folded state line with same | ⟨addr, _, _, added⟩
      · rw [same]
        exact distinct
      · rw [added]
        exact distinct.set _ _

theorem distinct_foldedOf (inner : Text) : Dict.Distinct (foldedOf inner) :=
  distinct_foldl_parseLine _ _ Dict.Distinct.nil

/-- Comments are trimmed. -/
theorem strip_commentOfLine (line : Text) :
    Text.strip pySpace (commentOfLine line) = commentOfLine line := by
  unfold commentOfLine
  split
  next =>
    rw [Text.strip_eq_self_iff]
    exact ⟨fun symbol first => Text.head_strip first,
      fun symbol last => Text.getLast_strip last⟩
  next => rfl

theorem mem_of_mem_commentOfLine {line : Text} {symbol : Char}
    (member : symbol ∈ commentOfLine line) : symbol ∈ line := by
  unfold commentOfLine at member
  split at member
  next split =>
    obtain ⟨_, _, rfl, _⟩ := Text.splitFirst_eq_some split
    have inside := Text.mem_of_mem_strip member
    simp [inside]
  next => cases member

/-- An address read from a line is not negative: the pattern admits no sign. -/
theorem addrOfLine_nonneg {line : Text} {addr : Int} (read : addrOfLine line = some addr) :
    0 ≤ addr := by
  unfold addrOfLine at read
  obtain ⟨⟨_, literal⟩, matched, parsed⟩ := Option.bind_eq_some_iff.mp read
  obtain ⟨_, accepted, _⟩ := Search.firstMatch_eq_some_iff.mp matched
  unfold matchAddr at accepted
  obtain ⟨rest, _, accepted⟩ := Option.bind_eq_some_iff.mp accepted
  simp only at accepted
  split at accepted
  next => cases accepted
  next =>
    cases accepted
    have plain : ∀ symbol ∈ rest.takeWhile isHexDigit,
        pySpace symbol = false ∧ symbol ≠ '_' := by
      intro symbol member
      have hex := List.mem_takeWhile_imp member
      refine ⟨not_pySpace_of_isHexDigit hex, ?_⟩
      rintro rfl
      revert hex
      decide
    unfold int16 at parsed
    rw [List.cons_append, List.cons_append, List.nil_append, signed_hex rfl plain] at parsed
    obtain ⟨value, _, rfl⟩ := Option.map_eq_some_iff.mp parsed
    exact Int.natCast_nonneg value

/-! ## Written entries -/

/-- A comment that stays on its line: no line boundary, no closing bracket, and
no marker once a mark is put in front. -/
def PlainComment (comment : Text) : Prop :=
  Text.OneLine isLineBoundary comment ∧ ']' ∉ comment ∧
    Markerless (Text.ascii "# " ++ comment)

/-- An entry as the tool writes it. -/
def entryText (addr : Int) (comment : Text) : Text :=
  Text.ascii "    " ++ fmtHEX08 addr ++ ',' ::
    (if comment = [] then [] else Text.ascii "  # " ++ comment)

theorem entryLine_eq (folded : Dict Int Text) (addr : Int) :
    entryLine folded addr = entryText addr ((folded.get? addr).getD []) := rfl

theorem pySpace_of_isLineBoundary {symbol : Char} (breaks : isLineBoundary symbol = true) :
    pySpace symbol = true := by
  unfold isLineBoundary at breaks
  unfold pySpace
  generalize symbol.toNat = code at breaks ⊢
  simp at breaks ⊢
  omega

/-- The symbols of a written address. -/
theorem mem_fmtHEX08 {addr : Int} {symbol : Char} (member : symbol ∈ fmtHEX08 addr) :
    isHexDigit symbol = true ∨ symbol = 'x' ∨ symbol = '-' := by
  unfold fmtHEX08 at member
  simp only [List.mem_cons] at member
  rcases member with rfl | rfl | digit
  · exact Or.inl rfl
  · exact Or.inr (Or.inl rfl)
  · rcases symbol_of_mem_hexPadded keepsDigits_toUpper rfl rfl 8 addr digit with
      hex | ⟨_, sign⟩
    · exact Or.inl hex
    · exact Or.inr (Or.inr sign)

/-- What stands in front of a written comment is plain. -/
theorem entryFront_plain (addr : Int) {symbol : Char}
    (member : symbol ∈ Text.ascii "    " ++ fmtHEX08 addr ++ Text.ascii ",  ") :
    isLineBoundary symbol = false ∧ symbol ≠ '#' ∧ symbol ≠ ']' := by
  have outer : ∀ symbol ∈ Text.ascii "    " ++ Text.ascii ",  ",
      isLineBoundary symbol = false ∧ symbol ≠ '#' ∧ symbol ≠ ']' :=
    List.all_iff_forall_prop.mp (by decide)
  simp only [List.mem_append] at member outer
  rcases member with (margin | number) | comma
  · exact outer symbol (Or.inl margin)
  · rcases mem_fmtHEX08 number with hex | rfl | rfl
    · refine ⟨?_, ?_, ?_⟩
      · by_contra breaks
        have blank := pySpace_of_isLineBoundary ((Bool.not_eq_false _).mp breaks)
        rw [not_pySpace_of_isHexDigit hex] at blank
        cases blank
      · rintro rfl
        revert hex
        decide
      · rintro rfl
        revert hex
        decide
    · decide
    · decide
  · exact outer symbol (Or.inr comma)

/-- An entry is its plain front, cut before the blanks when it has no comment. -/
theorem entryText_shape (addr : Int) (comment : Text) :
    (comment = [] ∧ entryText addr comment =
        Text.ascii "    " ++ fmtHEX08 addr ++ [',']) ∨
      (comment ≠ [] ∧ entryText addr comment =
        (Text.ascii "    " ++ fmtHEX08 addr ++ Text.ascii ",  ") ++
          (Text.ascii "# " ++ comment)) := by
  have ending : Text.ascii "  # " = ' ' :: ' ' :: Text.ascii "# " := by decide
  have comma : Text.ascii ",  " = [',', ' ', ' '] := by decide
  unfold entryText
  by_cases empty : comment = []
  · exact Or.inl ⟨empty, by simp [empty]⟩
  · exact Or.inr ⟨empty, by simp [empty, ending, comma]⟩

theorem mem_comma {symbol : Char} (member : symbol ∈ [',']) :
    symbol ∈ Text.ascii ",  " := by
  rw [List.mem_singleton] at member
  rw [member]
  decide

theorem matchAddr_written (addr : Nat) (rest : Text) :
    matchAddr (fmtHEX08 addr ++ ',' :: rest) = some (fmtHEX08 addr) := by
  have digits : ∀ symbol ∈ (hexPadded 8 addr).map Char.toUpper,
      isHexDigit symbol = true := by
    intro symbol member
    rcases symbol_of_mem_hexPadded keepsDigits_toUpper rfl rfl 8 addr member with
      hex | ⟨negative, _⟩
    · exact hex
    · omega
  have taken : ((hexPadded 8 addr).map Char.toUpper ++ ',' :: rest).takeWhile isHexDigit =
      (hexPadded 8 addr).map Char.toUpper := by
    rw [List.takeWhile_append_of_pos digits, List.takeWhile_cons_of_neg (by decide),
      List.append_nil]
  have nonempty : (hexPadded 8 addr).map Char.toUpper ≠ [] := by
    intro empty
    have read := int16_fmtHEX08 addr
    rw [fmtHEX08, empty] at read
    revert read
    have noDigits : int16 ['0', 'x'] = none := by decide
    simp [noDigits]
  unfold matchAddr fmtHEX08
  simp only [Search.dropPrefix?, List.cons_append, if_true, Option.bind_eq_bind,
    Option.bind_some, taken]
  rw [if_neg (by simpa using nonempty)]
  rfl

/-- A written entry's address is read back. -/
theorem addrOfLine_entryText (addr : Nat) (comment : Text) :
    addrOfLine (entryText addr comment) = some (addr : Int) := by
  have matched : Search.firstMatch matchAddr (entryText addr comment) =
      some (4, fmtHEX08 addr) := by
    rw [Search.firstMatch_eq_some_iff]
    have margin : Text.ascii "    " = [' ', ' ', ' ', ' '] := by decide
    unfold entryText
    rw [margin]
    refine ⟨by simp, matchAddr_written addr _, ?_⟩
    intro earlier inside
    interval_cases earlier <;> rfl
  unfold addrOfLine
  rw [matched]
  exact int16_fmtHEX08 addr

/-- A written entry's comment is read back trimmed. -/
theorem commentOfLine_entryText (addr : Nat) (comment : Text) :
    commentOfLine (entryText addr comment) = Text.strip pySpace comment := by
  have noHash : ∀ symbol ∈ Text.ascii "    " ++ fmtHEX08 addr ++ Text.ascii ",  ",
      isHash symbol = false := by
    intro symbol member
    simpa [isHash] using (entryFront_plain addr member).2.1
  unfold commentOfLine
  rcases entryText_shape addr comment with ⟨rfl, shape⟩ | ⟨_, shape⟩
  · have absent : Text.splitFirst isHash (entryText addr []) = none := by
      rw [shape, Text.splitFirst_eq_none_iff]
      intro symbol member
      apply noHash
      rcases List.mem_append.mp member with front | comma
      · exact List.mem_append_left _ front
      · exact List.mem_append_right _ (mem_comma comma)
    rw [absent, Text.strip_nil]
  · have split : Text.splitFirst isHash (entryText addr comment) =
        some (Text.ascii "    " ++ fmtHEX08 addr ++ Text.ascii ",  ", ' ' :: comment) := by
      rw [shape]
      exact Text.splitFirst_append noHash rfl (' ' :: comment)
    have blank : ∀ symbol ∈ [' '], pySpace symbol = true := List.forall_mem_singleton.mpr rfl
    rw [split]
    exact Text.strip_append_left blank comment

/-- A text starting with a mark is found behind a front without that mark only
in what follows the front. -/
theorem infix_of_not_mem_front {mark : Char} {pattern front rest : Text}
    (absent : mark ∉ front) (found : mark :: pattern <:+: front ++ rest) :
    mark :: pattern <:+: rest := by
  induction front with
  | nil => exact found
  | cons head front inductionHypothesis =>
      rw [List.cons_append, List.infix_cons_iff] at found
      rcases found with here | later
      · obtain ⟨same, _⟩ := List.cons_prefix_cons.mp here
        exact absurd (same ▸ List.mem_cons_self) absent
      · exact inductionHypothesis (fun member => absent (List.mem_cons_of_mem _ member)) later

/-- A marker on a written entry would stand in its comment. -/
theorem markerless_entryText (addr : Int) {comment : Text}
    (plain : Markerless (Text.ascii "# " ++ comment)) :
    Markerless (entryText addr comment) := by
  have behind : ∀ pattern, contains ('#' :: pattern) (Text.ascii "# " ++ comment) = false →
      contains ('#' :: pattern) (entryText addr comment) = false := by
    intro pattern
    contrapose
    simp only [Bool.not_eq_false, contains_eq_true_iff]
    intro found
    have absent : '#' ∉ Text.ascii "    " ++ fmtHEX08 addr ++ Text.ascii ",  " :=
      fun member => (entryFront_plain addr member).2.1 rfl
    rcases entryText_shape addr comment with ⟨rfl, shape⟩ | ⟨_, shape⟩
    · exfalso
      rw [shape, ← List.append_nil (_ ++ [','])] at found
      have empty := infix_of_not_mem_front (fun member => absent (by
        rcases List.mem_append.mp member with front | comma
        · exact List.mem_append_left _ front
        · exact List.mem_append_right _ (mem_comma comma))) found
      simp at empty
    · rw [shape] at found
      exact infix_of_not_mem_front absent found
  exact ⟨behind beginMarker.tail plain.1, behind endMarker.tail plain.2⟩

/-- Line boundaries and brackets of an entry stand in its comment. -/
theorem mem_entryText_iff {addr : Int} {comment : Text} {symbol : Char}
    (special : isLineBoundary symbol = true ∨ symbol = ']') :
    symbol ∈ entryText addr comment ↔ symbol ∈ comment := by
  have notFront : symbol ∉ Text.ascii "    " ++ fmtHEX08 addr ++ Text.ascii ",  " := by
    intro inFront
    obtain ⟨noBoundary, _, noBracket⟩ := entryFront_plain addr inFront
    rcases special with boundary | bracket
    · rw [noBoundary] at boundary
      cases boundary
    · exact noBracket bracket
  have notMark : symbol ∉ Text.ascii "# " := by
    intro inMark
    have mark : Text.ascii "# " = ['#', ' '] := by decide
    rw [mark, List.mem_cons, List.mem_singleton] at inMark
    rcases inMark with rfl | rfl <;> revert special <;> decide
  rcases entryText_shape addr comment with ⟨rfl, shape⟩ | ⟨_, shape⟩
  · rw [shape]
    refine ⟨fun member => absurd ?_ notFront, fun impossible => by cases impossible⟩
    rcases List.mem_append.mp member with inFront | comma
    · exact List.mem_append_left _ inFront
    · exact List.mem_append_right _ (mem_comma comma)
  · rw [shape]
    refine ⟨fun member => ?_, fun inComment =>
      List.mem_append_right _ (List.mem_append_right _ inComment)⟩
    have behind := (List.mem_append.mp member).resolve_left notFront
    exact (List.mem_append.mp behind).resolve_left notMark

theorem entryText_plain {addr : Int} {comment : Text} (plain : PlainComment comment) :
    Text.OneLine isLineBoundary (entryText addr comment) := by
  intro symbol member
  by_contra boundary
  have breaks := (Bool.not_eq_false _).mp boundary
  exact boundary (plain.1 symbol ((mem_entryText_iff (Or.inl breaks)).mp member))

/-! ## Written regions -/

/-- Every entry reads back from its own line. -/
def ManagedPlain (folded : Dict Int Text) : Prop :=
  ∀ addr ∈ folded.map Prod.fst, 0 ≤ addr ∧ PlainComment ((folded.get? addr).getD [])

theorem mem_sortedAddrs {folded : Dict Int Text} {addr : Int} :
    addr ∈ sortedAddrs folded ↔ addr ∈ folded.map Prod.fst := by
  unfold sortedAddrs
  exact (List.perm_insertionSort _ _).mem_iff

theorem parseLine_beginMarker (state : Existing) :
    parseLine state (markerLine beginMarker) = { state with inRegion := true } := by
  have found : contains beginMarker (markerLine beginMarker) = true := by
    rw [contains_eq_true_iff]
    exact List.infix_append_of_infix_right (List.infix_refl _)
  simp [parseLine, found]

theorem parseLine_endMarker (state : Existing) :
    parseLine state (markerLine endMarker) = { state with inRegion := false } := by
  have found : contains endMarker (markerLine endMarker) = true := by
    rw [contains_eq_true_iff]
    exact List.infix_append_of_infix_right (List.infix_refl _)
  have noBegin : contains beginMarker (markerLine endMarker) = false := by decide +kernel
  simp [parseLine, found, noBegin]

/-- Only the lookups of the map show in what is written. -/
theorem renderBlock_congr {left right : Dict Int Text} (leftDistinct : Dict.Distinct left)
    (rightDistinct : Dict.Distinct right)
    (same : ∀ addr, Dict.get? left addr = Dict.get? right addr) (preamble : List Text) :
    renderBlock preamble left = renderBlock preamble right := by
  have keys : ∀ addr, addr ∈ left.map Prod.fst ↔ addr ∈ right.map Prod.fst := by
    intro addr
    rw [← Dict.isSome_get?_iff, ← Dict.isSome_get?_iff, same]
  have permuted : (left.map Prod.fst).Perm (right.map Prod.fst) :=
    (List.perm_ext_iff_of_nodup leftDistinct rightDistinct).mpr keys
  have sorted : sortedAddrs left = sortedAddrs right := by
    unfold sortedAddrs
    exact List.Perm.eq_of_pairwise (fun _ _ _ _ => Int.le_antisymm)
      (List.pairwise_insertionSort _ _) (List.pairwise_insertionSort _ _)
      ((List.perm_insertionSort _ _).trans
        (permuted.trans (List.perm_insertionSort _ _).symm))
  have lines : entryLine left = entryLine right := by
    funext addr
    rw [entryLine_eq, entryLine_eq, same]
  unfold renderBlock innerLines
  rw [sorted, lines]

/-! ## Runs -/

/-- One miss adds at most its own entry. -/
theorem mem_addMiss {before after : Foldable} {miss : Miss} {entry : Int × Text}
    (added : addMiss before miss = .ok after) (member : entry ∈ after.fold) :
    entry ∈ before.fold ∨ (miss.skipReason = none ∧
      int16 miss.missedAddr = some entry.1 ∧ entry.2 = miss.comment) := by
  unfold addMiss at added
  split at added
  next => cases added
  next addr read =>
    split at added
    next =>
      cases added
      exact Or.inl member
    next kept =>
      cases added
      rcases Dict.mem_set member with rfl | earlier
      · exact Or.inr ⟨kept, read, rfl⟩
      · exact Or.inl earlier

/-- Every entry to fold is some foldable miss. -/
theorem mem_loadFoldable {misses : List Miss} {before found : Foldable}
    (loaded : misses.foldlM addMiss before = .ok found) {entry : Int × Text}
    (member : entry ∈ found.fold) :
    entry ∈ before.fold ∨ ∃ miss ∈ misses, miss.skipReason = none ∧
      int16 miss.missedAddr = some entry.1 ∧ entry.2 = miss.comment := by
  induction misses generalizing before with
  | nil =>
      cases loaded
      exact Or.inl member
  | cons miss rest inductionHypothesis =>
      rw [List.foldlM_cons] at loaded
      obtain ⟨middle, added, loaded⟩ := Outcome.bind_eq_ok loaded
      rcases inductionHypothesis loaded with inMiddle | ⟨other, inRest, shape⟩
      · rcases mem_addMiss added inMiddle with inBefore | shape
        · exact Or.inl inBefore
        · exact Or.inr ⟨miss, List.mem_cons_self, shape⟩
      · exact Or.inr ⟨other, List.mem_cons_of_mem _ inRest, shape⟩

/-- What a completed run consists of. -/
theorem foldCaptures_eq_ok {misses : List Miss} {file once : Text}
    (folded : foldCaptures misses file = .ok once) :
    ∃ found newText, loadFoldable misses = .ok found ∧
      foldText found.fold (universalNewlines file) = .ok newText ∧
      once = if newText = universalNewlines file then file else newText := by
  unfold foldCaptures at folded
  obtain ⟨found, loaded, folded⟩ := Outcome.bind_eq_ok folded
  obtain ⟨newText, written, finish⟩ := Outcome.bind_eq_ok folded
  cases finish
  exact ⟨found, newText, loaded, written, rfl⟩

theorem foldCaptures_of_ok {misses : List Miss} {file newText : Text} {found : Foldable}
    (loaded : loadFoldable misses = .ok found)
    (written : foldText found.fold (universalNewlines file) = .ok newText) :
    foldCaptures misses file =
      .ok (if newText = universalNewlines file then file else newText) := by
  unfold foldCaptures
  rw [loaded]
  change (foldText found.fold (universalNewlines file) >>= _) = _
  rw [written]
  rfl

/-- What a completed splice consists of. -/
theorem foldText_eq_ok {fold : Dict Int Text} {text newText : Text}
    (written : foldText fold text = .ok newText) :
    ∃ block, findArrayBlock text = .ok block ∧
      newText = block.before ++ renderBlock (preambleOf block.inner)
        (Dict.writes (foldedOf block.inner) fold) ++ block.after := by
  unfold foldText at written
  obtain ⟨block, found, finish⟩ := Outcome.bind_eq_ok written
  cases finish
  exact ⟨block, found, rfl⟩

end StadiumRecomp.Captures
