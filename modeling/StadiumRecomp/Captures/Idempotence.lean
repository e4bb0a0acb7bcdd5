import StadiumRecomp.Captures.Reread

/-!
Contract: running the tool on the file it has just written.

Owns: the blank line each run puts after the opening bracket, which texts escape
it, and exactly which of these a second run leaves as they are.

Does not own: the TOML meaning of the array.
-/

set_option autoImplicit false

namespace StadiumRecomp.Captures

open StadiumRecomp.Lib
open StadiumRecomp.Lib.PyInt
open StadiumRecomp.Lib.PyText

/-- The array has nothing but blank lines outside the managed region. -/
def OutsideBlank (file : Text) : Prop :=
  ∀ block, findArrayBlock (universalNewlines file) = .ok block →
    preambleOf block.inner = []

/-- The entries the run writes read back. -/
def RegionReadsBack (misses : List Miss) (file : Text) : Prop :=
  ∀ found block, loadFoldable misses = .ok found →
    findArrayBlock (universalNewlines file) = .ok block →
      ReadsBack (foldedOf block.inner) found.fold

/-! ## Drift -/

/-- A text of newlines only commutes with a newline in front. -/
theorem eq_newline_of_shifted {kept shorter longer : Text}
    (same : kept ++ shorter = '\n' :: (kept ++ longer)) :
    ∀ symbol ∈ kept, symbol = '\n' := by
  induction kept with
  | nil => simp
  | cons head rest inductionHypothesis =>
      simp only [List.cons_append, List.cons.injEq] at same
      obtain ⟨rfl, tail⟩ := same
      intro symbol member
      rcases List.mem_cons.mp member with rfl | inRest
      · rfl
      · exact inductionHypothesis tail symbol inRest

/-- A non-empty preamble ends in a line that is not blank. -/
theorem preambleOf_last {inner : Text} (nonempty : preambleOf inner ≠ []) :
    isBlankLine ((preambleOf inner).getLast nonempty) = false := by
  exact (Bool.not_eq_true _).mp
    (List.rdropWhile_last_not isBlankLine (parseLines inner).preamble nonempty)

/-- A written non-empty preamble is not made of newlines only. -/
theorem exists_plain_symbol {inner : Text} (nonempty : preambleOf inner ≠ []) :
    ∃ symbol ∈ Text.unlines '\n' (preambleOf inner), symbol ≠ '\n' := by
  have plain := preambleOf_last nonempty
  by_contra none
  have allBreaks : ∀ symbol ∈ Text.unlines '\n' (preambleOf inner), symbol = '\n' := by
    intro symbol member
    by_contra different
    exact none ⟨symbol, member, different⟩
  have allBlank : ∀ symbol ∈ (preambleOf inner).getLast nonempty, pySpace symbol = true := by
    intro symbol member
    have inText : symbol ∈ Text.unlines '\n' (preambleOf inner) := by
      unfold Text.unlines
      rw [List.mem_flatMap]
      exact ⟨_, List.getLast_mem nonempty, List.mem_append_left _ member⟩
    rw [allBreaks symbol inText]
    decide
  have blank : isBlankLine ((preambleOf inner).getLast nonempty) = true := by
    unfold isBlankLine Text.strip
    rw [List.dropWhile_eq_nil_iff.mpr allBlank]
    rfl
  rw [plain] at blank
  cases blank

/-- A text written by a run, as far as its preamble. -/
def writtenFront (before : Text) (preamble : List Text) : Text :=
  before ++ openLine ++ '\n' :: Text.unlines '\n' preamble

theorem splitlines_unlines_append {lines : List Text}
    (oneLine : ∀ line ∈ lines, Text.OneLine isLineBoundary line) (rest : Text) :
    splitlines (Text.unlines '\n' lines ++ rest) = lines ++ splitlines rest :=
  Text.linesBy_unlines_append rfl lines oneLine rest

/-- Trimming stops at the last line that is kept. -/
theorem rdropWhile_append_of_getLast {lines : List Text} (nonempty : lines ≠ [])
    (kept : isBlankLine (lines.getLast nonempty) = false) (more : List Text) :
    (lines ++ more).rdropWhile isBlankLine = lines ++ more.rdropWhile isBlankLine := by
  induction more using List.reverseRecOn with
  | nil =>
      rw [List.append_nil, List.rdropWhile_nil, List.append_nil,
        List.rdropWhile_eq_self_iff]
      intro _
      simp [kept]
  | append_singleton rest line inductionHypothesis =>
      rw [← List.append_assoc, List.rdropWhile_concat, List.rdropWhile_concat]
      split
      next => exact inductionHypothesis
      next => rw [List.append_assoc]

/-- A written array starts with the lines of its preamble. -/
theorem renderBlock_front (before : Text) (preamble more : List Text)
    (folded : Dict Int Text) (after : Text) :
    before ++ renderBlock (preamble ++ more) folded ++ after =
      writtenFront before preamble ++
        (Text.unlines '\n' (innerLines more folded) ++ ']' :: after) := by
  simp [renderBlock, innerLines, writtenFront, Text.unlines]

/-- What a run makes of a text written by an earlier run: the preamble moves down
by one blank line. -/
theorem foldText_written {before inner rest newText : Text} (first : FirstAt before)
    (noClose : ']' ∉ inner) (nonempty : preambleOf inner ≠ []) (fold : Dict Int Text)
    (folded : foldText fold (writtenFront before (preambleOf inner) ++ rest) = .ok newText) :
    ∃ newRest, newText = writtenFront before ([] :: preambleOf inner) ++ newRest := by
  have linesPlain : ∀ line ∈ [] :: preambleOf inner,
      Text.OneLine isLineBoundary line ∧ Markerless line ∧ ']' ∉ line := by
    intro line member
    rcases List.mem_cons.mp member with rfl | member
    · have noSymbol : Text.OneLine isLineBoundary [] := by
        intro symbol impossible
        cases impossible
      exact ⟨noSymbol, by decide +kernel, by simp⟩
    · obtain ⟨inText, markerless⟩ := mem_preambleOf member
      refine ⟨oneLine_of_mem_splitlines inText, markerless, ?_⟩
      intro close
      exact noClose (Text.mem_of_mem_linesBy inText close)
  -- The block found again starts with an empty line and the old preamble.
  obtain ⟨block, found, written⟩ := Outcome.bind_eq_ok folded
  unfold writtenFront at found
  have reassociated : before ++ openLine ++ '\n' :: Text.unlines '\n' (preambleOf inner) ++
      rest = before ++ openLine ++
        (Text.unlines '\n' ([] :: preambleOf inner) ++ rest) := by
    simp [Text.unlines]
  have noCloseFront : ∀ symbol ∈ Text.unlines '\n' ([] :: preambleOf inner),
      isClose symbol = false := by
    apply isClose_eq_false_of_not_mem
    unfold Text.unlines
    intro close
    obtain ⟨line, member, inLine⟩ := List.mem_flatMap.mp close
    rcases List.mem_append.mp inLine with inside | isBreak
    · exact (linesPlain line member).2.2 inside
    · revert isBreak
      decide
  rw [reassociated, findArrayBlock_written first,
    Text.splitFirst_append_left noCloseFront] at found
  cases split : Text.splitFirst isClose rest with
  | none =>
      rw [split] at found
      cases found
  | some parts =>
      obtain ⟨innerRest, after⟩ := parts
      rw [split] at found
      simp only [Option.map_some] at found
      cases found
      cases written
      have lines : splitlines (Text.unlines '\n' ([] :: preambleOf inner) ++ innerRest) =
          ([] :: preambleOf inner) ++ splitlines innerRest :=
        splitlines_unlines_append (fun line member => (linesPlain line member).1) innerRest
      obtain ⟨more, kept, _⟩ := foldl_parseLine_preamble (splitlines innerRest)
        ⟨false, [] :: preambleOf inner, []⟩
      have preamble : (parseLines
          (Text.unlines '\n' ([] :: preambleOf inner) ++ innerRest)).preamble =
          ([] :: preambleOf inner) ++ more := by
        unfold parseLines
        rw [lines, List.foldl_append, foldl_parseLine_markerless
          (fun line member => (linesPlain line member).2.1) _ rfl]
        exact kept
      have trimmed : preambleOf
          (Text.unlines '\n' ([] :: preambleOf inner) ++ innerRest) =
          ([] :: preambleOf inner) ++ more.rdropWhile isBlankLine := by
        change (parseLines (Text.unlines '\n' ([] :: preambleOf inner) ++
          innerRest)).preamble.rdropWhile isBlankLine = _
        rw [preamble]
        apply rdropWhile_append_of_getLast (List.cons_ne_nil _ _)
        rw [List.getLast_cons nonempty]
        exact preambleOf_last nonempty
      rw [trimmed]
      exact ⟨_, renderBlock_front before _ _ _ after⟩

/-- A text written with a preamble is not written with the preamble moved down. -/
theorem writtenFront_ne {before inner rest newRest : Text}
    (nonempty : preambleOf inner ≠ []) :
    writtenFront before (preambleOf inner) ++ rest ≠
      writtenFront before ([] :: preambleOf inner) ++ newRest := by
  intro same
  obtain ⟨symbol, member, plain⟩ := exists_plain_symbol nonempty
  apply plain
  have shifted : Text.unlines '\n' (preambleOf inner) ++ rest =
      '\n' :: (Text.unlines '\n' (preambleOf inner) ++ newRest) := by
    simpa [writtenFront, Text.unlines] using same
  exact eq_newline_of_shifted shifted symbol member

/-- What stands before and after the array, and the kept lines, has no carriage
return if the text has none. -/
theorem block_plain {text : Text} {block : Block} (plain : '\r' ∉ text)
    (found : findArrayBlock text = .ok block) :
    '\r' ∉ block.before ∧ '\r' ∉ block.after ∧
      ∀ line ∈ preambleOf block.inner, '\r' ∉ line := by
  obtain ⟨left, right, _, _, equation, _, _⟩ := findArrayBlock_eq_ok found
  rw [equation] at plain
  simp only [List.mem_append, List.mem_cons, not_or] at plain
  refine ⟨plain.1.1.1, plain.2.2, fun line member inLine => ?_⟩
  exact plain.1.2 (Text.mem_of_mem_linesBy (mem_preambleOf member).1 inLine)

/-- A run that repeats itself on its own result kept no line. -/
theorem preambleOf_eq_nil_of_again {block : Block} {fold : Dict Int Text} {newText : Text}
    (front : '\r' ∉ writtenFront block.before (preambleOf block.inner))
    (noClose : ']' ∉ block.inner) (first : FirstAt block.before)
    (newTextEq : newText = block.before ++ renderBlock (preambleOf block.inner)
      (Dict.writes (foldedOf block.inner) fold) ++ block.after)
    (again : foldText fold (universalNewlines newText) = .ok newText) :
    preambleOf block.inner = [] := by
  by_contra nonempty
  have split := renderBlock_front block.before (preambleOf block.inner) []
    (Dict.writes (foldedOf block.inner) fold) block.after
  rw [List.append_nil, ← newTextEq] at split
  have read := universalNewlines_append front
    (Text.unlines '\n' (innerLines [] (Dict.writes (foldedOf block.inner) fold)) ++
      ']' :: block.after)
  rw [← split] at read
  rw [read] at again
  obtain ⟨moved, movedEq⟩ := foldText_written first noClose nonempty _ again
  exact writtenFront_ne nonempty (split.symm.trans movedEq)

/-! ## Repetition -/

/-- An entry read from the region is plain, markers aside. -/
theorem plain_of_mem_foldedOf {inner : Text} (noClose : ']' ∉ inner) {entry : Int × Text}
    (member : entry ∈ foldedOf inner) :
    0 ≤ entry.1 ∧ Text.OneLine isLineBoundary entry.2 ∧ ']' ∉ entry.2 ∧
      Text.strip pySpace entry.2 = entry.2 := by
  obtain ⟨line, inText, _, read, comment⟩ := mem_foldedOf member
  rw [← comment]
  refine ⟨addrOfLine_nonneg read, ?_, ?_, strip_commentOfLine line⟩
  · intro symbol inComment
    exact oneLine_of_mem_splitlines inText symbol (mem_of_mem_commentOfLine inComment)
  · intro inComment
    exact noClose (Text.mem_of_mem_linesBy inText (mem_of_mem_commentOfLine inComment))

/-- Which carriage returns and brackets stand between the brackets of a written
array. -/
theorem mem_innerLines_iff {preamble : List Text} {merged : Dict Int Text} {symbol : Char}
    (special : symbol = '\r' ∨ symbol = ']') :
    symbol ∈ Text.unlines '\n' (innerLines preamble merged) ↔
      (∃ line ∈ preamble, symbol ∈ line) ∨
        ∃ addr comment, merged.get? addr = some comment ∧ symbol ∈ comment := by
  have inEntry : ∀ addr comment, symbol ∈ entryText addr comment ↔ symbol ∈ comment := by
    intro addr comment
    apply mem_entryText_iff
    exact special.imp (fun same => by rw [same]; decide) id
  have notFeed : symbol ≠ '\n' := by rcases special with rfl | rfl <;> decide
  have notMarker : symbol ∉ markerLine beginMarker ∧ symbol ∉ markerLine endMarker := by
    rcases special with rfl | rfl <;> decide +kernel
  simp only [Text.unlines, List.mem_flatMap, List.mem_append, notFeed, or_false, innerLines,
    List.mem_cons, List.mem_map, List.not_mem_nil]
  constructor
  · rintro ⟨line, ((kept | rfl | ⟨addr, _, rfl⟩) | rfl), inLine⟩
    · exact Or.inl ⟨line, kept, inLine⟩
    · exact absurd inLine notMarker.1
    · rw [entryLine_eq, inEntry] at inLine
      cases present : merged.get? addr with
      | none =>
          rw [present] at inLine
          cases inLine
      | some comment =>
          rw [present] at inLine
          exact Or.inr ⟨addr, comment, present, inLine⟩
    · exact absurd inLine notMarker.2
  · rintro (⟨line, kept, inLine⟩ | ⟨addr, comment, present, inComment⟩)
    · exact ⟨line, Or.inl (Or.inl kept), inLine⟩
    · have isKey : addr ∈ sortedAddrs merged := by
        rw [mem_sortedAddrs, ← Dict.isSome_get?_iff, present]
        rfl
      refine ⟨entryLine merged addr, Or.inl (Or.inr (Or.inr ⟨addr, isKey, rfl⟩)), ?_⟩
      rw [entryLine_eq, inEntry, present]
      exact inComment

/-- Carriage returns in what a splice makes come from captured comments. -/
theorem return_mem_foldText_iff {fold : Dict Int Text} {text newText : Text}
    (plain : '\r' ∉ text) (written : foldText fold text = .ok newText) :
    '\r' ∈ newText ↔
      ∃ addr comment, Dict.lastWrite fold addr = some comment ∧ '\r' ∈ comment := by
  obtain ⟨block, located, newTextEq⟩ := foldText_eq_ok written
  obtain ⟨_, _, _, _, _, noClose, _⟩ := findArrayBlock_eq_ok located
  obtain ⟨before, after, preamble⟩ := block_plain plain located
  have opening : '\r' ∉ openLine := by decide
  have split : newText = block.before ++ openLine ++ '\n' ::
      (Text.unlines '\n' (innerLines (preambleOf block.inner)
        (Dict.writes (foldedOf block.inner) fold)) ++ ']' :: block.after) := by
    rw [newTextEq]
    simp [renderBlock, Text.unlines]
  have feed : ('\r' : Char) ≠ '\n' := by decide
  have close : ('\r' : Char) ≠ ']' := by decide
  rw [split]
  simp only [List.mem_append, List.mem_cons, before, opening, feed, close, after, or_false,
    false_or]
  rw [mem_innerLines_iff (Or.inl rfl)]
  constructor
  · rintro (⟨line, kept, inLine⟩ | ⟨addr, comment, present, inComment⟩)
    · exact absurd inLine (preamble line kept)
    · rw [Dict.get?_writes] at present
      cases captured : Dict.lastWrite fold addr with
      | some own =>
          rw [captured, Option.some_or, Option.some.injEq] at present
          exact ⟨addr, own, captured, by rw [present]; exact inComment⟩
      | none =>
          rw [captured, Option.none_or] at present
          have oneLine := (plain_of_mem_foldedOf noClose (Dict.mem_of_get? present)).2.1
          exact absurd (oneLine _ inComment) (by decide)
  · rintro ⟨addr, comment, captured, inComment⟩
    refine Or.inr ⟨addr, comment, ?_, inComment⟩
    rw [Dict.get?_writes, captured, Option.some_or]

/-- The second run leaves its file as it is exactly if the splice repeats itself on
what it made. -/
theorem stable_iff_again {misses : List Miss} {file once newText : Text} {found : Foldable}
    (loaded : loadFoldable misses = .ok found)
    (written : foldText found.fold (universalNewlines file) = .ok newText)
    (onceEq : once = if newText = universalNewlines file then file else newText) :
    foldCaptures misses once = .ok once ↔
      foldText found.fold (universalNewlines newText) = .ok newText := by
  have read : universalNewlines once = universalNewlines newText := by
    rw [onceEq]
    split
    next same => rw [same, universalNewlines_idem]
    next => rfl
  constructor
  · intro stable
    obtain ⟨found', again, loaded', rewritten, againEq⟩ := foldCaptures_eq_ok stable
    rw [loaded] at loaded'
    cases loaded'
    rw [read] at rewritten againEq
    -- Both runs write the same captured comments, and with them any carriage return.
    have returns := (return_mem_foldText_iff (not_mem_universalNewlines _) rewritten).trans
      (return_mem_foldText_iff (not_mem_universalNewlines _) written).symm
    have fixed : ∀ {text : Text}, '\r' ∉ text → universalNewlines text = text :=
      fun absent => universalNewlines_eq_self fun _ member same => absent (same ▸ member)
    have sameText : again = newText := by
      by_cases unchanged : again = universalNewlines newText
      · have noReturn : '\r' ∉ newText := by
          rw [← returns, unchanged]
          exact not_mem_universalNewlines newText
        rw [unchanged, fixed noReturn]
      · rw [if_neg unchanged] at againEq
        by_cases kept : newText = universalNewlines file
        · rw [if_pos kept] at onceEq
          have noReturn : '\r' ∉ again := by
            rw [returns, kept]
            exact not_mem_universalNewlines file
          rw [← againEq, onceEq] at noReturn ⊢
          rw [kept, fixed noReturn]
        · rw [if_neg kept] at onceEq
          exact againEq.symm.trans onceEq
    rw [rewritten, sameText]
  · intro again
    rw [foldCaptures_of_ok loaded (by rw [read]; exact again)]
    split
    next => rfl
    next changed =>
      rw [read] at changed
      rw [onceEq, if_neg]
      intro kept
      apply changed
      rw [kept, universalNewlines_idem]

/-- Lookups of what is merged, where only comments of the regions may differ. -/
theorem getD_agree {existing other fold : Dict Int Text}
    (oneLine : ∀ entry ∈ existing, Text.OneLine isLineBoundary entry.2)
    (otherLine : ∀ entry ∈ other, Text.OneLine isLineBoundary entry.2) (addr : Int) :
    ((Dict.writes existing fold).get? addr).getD [] =
        ((Dict.writes other fold).get? addr).getD [] ∨
      '\n' ∉ ((Dict.writes existing fold).get? addr).getD [] ∧
        '\n' ∉ ((Dict.writes other fold).get? addr).getD [] := by
  have plain : ∀ {region : Dict Int Text},
      (∀ entry ∈ region, Text.OneLine isLineBoundary entry.2) →
        '\n' ∉ (region.get? addr).getD [] := by
    intro region lines member
    cases present : region.get? addr with
    | none =>
        rw [present] at member
        cases member
    | some comment =>
        rw [present] at member
        exact absurd (lines _ (Dict.mem_of_get? present) _ member) (by decide)
  rw [Dict.get?_writes, Dict.get?_writes]
  cases Dict.lastWrite fold addr with
  | some comment => exact Or.inl rfl
  | none => exact Or.inr ⟨plain oneLine, plain otherLine⟩

/-- What the next run reads between the brackets of an array without kept lines. -/
def rereadInner (merged : Dict Int Text) : Text :=
  universalNewlines (Text.unlines '\n' ([] :: innerLines [] merged))

/-- What the next run reads of a whole text. -/
theorem universalNewlines_rendered {before after : Text} (merged : Dict Int Text)
    (beforePlain : '\r' ∉ before) (afterPlain : '\r' ∉ after) :
    universalNewlines (before ++ renderBlock [] merged ++ after) =
      before ++ openLine ++ (rereadInner merged ++ ']' :: after) := by
  have shape : before ++ renderBlock [] merged ++ after =
      before ++ openLine ++ (Text.unlines '\n' ([] :: innerLines [] merged) ++ ']' :: after) := by
    simp [renderBlock, Text.unlines]
  have front : '\r' ∉ before ++ openLine := by
    have opening : '\r' ∉ openLine := by decide
    simp [beforePlain, opening]
  have behind : universalNewlines (']' :: after) = ']' :: after := by
    apply universalNewlines_eq_self
    rintro symbol member rfl
    exact afterPlain ((List.mem_cons.mp member).resolve_left (by decide))
  rw [shape, universalNewlines_append front, universalNewlines_append_cons _ (by decide), behind,
    rereadInner]

theorem close_mem_rereadInner_iff {merged : Dict Int Text} :
    ']' ∈ rereadInner merged ↔
      ∃ addr comment, merged.get? addr = some comment ∧ ']' ∈ comment := by
  have lines : Text.unlines '\n' ([] :: innerLines [] merged) =
      '\n' :: Text.unlines '\n' (innerLines [] merged) := rfl
  have feed : (']' : Char) ≠ '\n' := by decide
  rw [rereadInner, mem_universalNewlines_iff (by decide) feed, lines, List.mem_cons,
    mem_innerLines_iff (Or.inr rfl)]
  simp [feed]

/-- The next run keeps no line exactly if those outside the region are blank. -/
theorem preambleOf_rereadInner_eq_nil_iff {merged : Dict Int Text} :
    preambleOf (rereadInner merged) = [] ↔
      ∀ line ∈ outsideLines true (writtenLines merged), isBlankLine line = true := by
  unfold preambleOf rereadInner
  rw [parseLines_written, List.rdropWhile_eq_nil_iff]
  constructor
  · intro blank line member
    exact blank line (List.mem_cons_of_mem _ member)
  · intro blank line member
    rcases List.mem_cons.mp member with rfl | outside
    · rfl
    · exact blank line outside

/-- An address the manifest does not fold gets what the lines of the region show. -/
theorem get?_writes_rereadInner {merged fold : Dict Int Text} {addr : Int}
    (notCaptured : Dict.lastWrite fold addr = none) :
    Dict.get? (Dict.writes (foldedOf (rereadInner merged)) fold) addr =
      Dict.lastWrite (shownEntries true (writtenLines merged)) addr := by
  unfold foldedOf rereadInner
  rw [parseLines_written, Dict.get?_writes, notCaptured, Option.none_or, Dict.get?_writes,
    Dict.get?_nil, Option.or_none]

section Again

variable {before inner after : Text} {fold : Dict Int Text}

/-- A splice that repeats itself on what it read again wrote entries that read back. -/
theorem readsBack_of_again (first : FirstAt before) (noClose : ']' ∉ inner)
    (again : foldText fold (before ++ openLine ++
      (rereadInner (Dict.writes (foldedOf inner) fold) ++ ']' :: after)) =
        .ok (before ++ renderBlock [] (Dict.writes (foldedOf inner) fold) ++ after)) :
    ReadsBack (foldedOf inner) fold := by
  set merged := Dict.writes (foldedOf inner) fold with mergedEq
  have distinct : Dict.Distinct merged := (distinct_foldedOf inner).writes fold
  obtain ⟨block, located, newTextEq⟩ := foldText_eq_ok again
  have found := located
  rw [findArrayBlock_written first] at found
  split at found
  next => cases found
  next innerAgain afterAgain closed =>
    cases found
    obtain ⟨close, closes, cut, absent⟩ := Text.splitFirst_eq_some closed
    rw [isClose_iff] at closes
    subst closes
    have innerClose : ']' ∉ innerAgain := fun member => absurd (absent _ member) (by decide)
    -- The text it writes again, line by line.
    have written : Text.unlines '\n' (innerLines [] merged) ++ ']' :: after =
        Text.unlines '\n' (innerLines (preambleOf innerAgain)
          (Dict.writes (foldedOf innerAgain) fold)) ++ ']' :: afterAgain := by
      have same := newTextEq
      simp only [renderBlock, Text.unlines, List.flatMap_cons, List.append_assoc] at same
      have tails := List.append_cancel_left (List.append_cancel_left
        (List.append_cancel_left same))
      simpa [Text.unlines] using tails
    have keptPlain : ∀ line ∈ preambleOf innerAgain, '\n' ∉ line ∧ Markerless line := by
      intro line member
      obtain ⟨inText, markerless⟩ := mem_preambleOf member
      exact ⟨fun feed => absurd (oneLine_of_mem_splitlines inText _ feed) (by decide), markerless⟩
    obtain ⟨noPreamble, lookups, rest⟩ := innerLines_inj keptPlain
      (getD_agree (fun entry member => (plain_of_mem_foldedOf noClose member).2.1)
        (fun entry member => (plain_of_mem_foldedOf innerClose member).2.1)) written
    obtain rfl : after = afterAgain := (List.cons.inj rest).2
    obtain rfl : rereadInner merged = innerAgain := List.append_cancel_right cut
    constructor
    · intro entry member inComment
      have present := (Dict.get?_eq_some_iff distinct).mpr member
      exact innerClose (close_mem_rereadInner_iff.mpr ⟨_, _, present, inComment⟩)
    · exact preambleOf_rereadInner_eq_nil_iff.mp noPreamble
    · intro addr notCaptured
      rw [← mergedEq, ← get?_writes_rereadInner notCaptured, ← lookups addr, Dict.get?_writes,
        notCaptured, Option.none_or]

/-- Entries that read back are spliced in as they stand. -/
theorem again_of_readsBack (first : FirstAt before) (readsBack : ReadsBack (foldedOf inner) fold) :
    foldText fold (before ++ openLine ++
      (rereadInner (Dict.writes (foldedOf inner) fold) ++ ']' :: after)) =
        .ok (before ++ renderBlock [] (Dict.writes (foldedOf inner) fold) ++ after) := by
  set merged := Dict.writes (foldedOf inner) fold with mergedEq
  have distinct : Dict.Distinct merged := (distinct_foldedOf inner).writes fold
  have noBracket : ']' ∉ rereadInner merged := by
    intro member
    obtain ⟨addr, comment, present, inComment⟩ := close_mem_rereadInner_iff.mp member
    exact readsBack.noClose _ (Dict.mem_of_get? present) inComment
  have located : findArrayBlock (before ++ openLine ++ (rereadInner merged ++ ']' :: after)) =
      .ok ⟨before, rereadInner merged, after⟩ := by
    rw [findArrayBlock_written first,
      Text.splitFirst_append (isClose_eq_false_of_not_mem noBracket) rfl]
  have lookups : ∀ addr, Dict.get? (Dict.writes (foldedOf (rereadInner merged)) fold) addr =
      Dict.get? merged addr := by
    intro addr
    cases captured : Dict.lastWrite fold addr with
    | some comment => rw [mergedEq, Dict.get?_writes, Dict.get?_writes, captured]; rfl
    | none =>
        rw [get?_writes_rereadInner captured, readsBack.same addr captured, mergedEq,
          Dict.get?_writes, captured, Option.none_or]
  unfold foldText
  rw [located]
  change Except.ok (before ++ renderBlock (preambleOf _) _ ++ after) = _
  rw [preambleOf_rereadInner_eq_nil_iff.mpr readsBack.blank,
    renderBlock_congr ((distinct_foldedOf _).writes fold) distinct lookups []]

/-- Without kept lines, the splice repeats itself exactly if the entries it wrote
read back. -/
theorem again_iff_readsBack (first : FirstAt before) (beforePlain : '\r' ∉ before)
    (afterPlain : '\r' ∉ after) (noClose : ']' ∉ inner) :
    foldText fold (universalNewlines
        (before ++ renderBlock [] (Dict.writes (foldedOf inner) fold) ++ after)) =
      .ok (before ++ renderBlock [] (Dict.writes (foldedOf inner) fold) ++ after) ↔
      ReadsBack (foldedOf inner) fold := by
  rw [universalNewlines_rendered _ beforePlain afterPlain]
  exact ⟨readsBack_of_again first noClose, again_of_readsBack first⟩

end Again

/-- Running the tool again leaves its file alone exactly if the array is blank
outside the managed region and the entries written into the region read back. -/
theorem foldCaptures_stable_iff {misses : List Miss} {file once : Text}
    (folded : foldCaptures misses file = .ok once) :
    foldCaptures misses once = .ok once ↔
      OutsideBlank file ∧ RegionReadsBack misses file := by
  obtain ⟨found, newText, loaded, written, onceEq⟩ := foldCaptures_eq_ok folded
  obtain ⟨block, located, newTextEq⟩ := foldText_eq_ok written
  obtain ⟨_, _, _, _, _, noClose, first⟩ := findArrayBlock_eq_ok located
  obtain ⟨before, after, preamble⟩ := block_plain (not_mem_universalNewlines file) located
  have blankIff : OutsideBlank file ↔ preambleOf block.inner = [] := by
    refine ⟨fun blank => blank block located, fun blank other same => ?_⟩
    rw [located] at same
    cases same
    exact blank
  have readsIff : RegionReadsBack misses file ↔
      ReadsBack (foldedOf block.inner) found.fold := by
    refine ⟨fun reads => reads found block loaded located, fun reads other _ same there => ?_⟩
    rw [loaded] at same
    rw [located] at there
    cases same
    cases there
    exact reads
  rw [stable_iff_again loaded written onceEq, blankIff, readsIff]
  have kept : '\r' ∉ writtenFront block.before (preambleOf block.inner) := by
    have opening : '\r' ∉ openLine := by decide
    have feed : ('\r' : Char) ≠ '\n' := by decide
    simp only [writtenFront, Text.unlines, List.mem_append, List.mem_cons, List.mem_flatMap,
      before, opening, feed, List.not_mem_nil, or_false, false_or, not_exists, not_and]
    exact preamble
  constructor
  · intro again
    have noPreamble := preambleOf_eq_nil_of_again kept noClose first newTextEq again
    rw [newTextEq, noPreamble] at again
    exact ⟨noPreamble, (again_iff_readsBack first before after noClose).mp again⟩
  · rintro ⟨noPreamble, reads⟩
    rw [newTextEq, noPreamble]
    exact (again_iff_readsBack first before after noClose).mpr reads

/-- The comments a run writes stay on their lines, and the captured addresses are
not negative. -/
def PlainComments (misses : List Miss) (file : Text) : Prop :=
  (∀ miss ∈ misses, miss.skipReason = none → ∀ addr, int16 miss.missedAddr = some addr →
    0 ≤ addr ∧ PlainComment miss.comment) ∧
  ∀ block, findArrayBlock (universalNewlines file) = .ok block →
    ∀ entry ∈ foldedOf block.inner, Markerless (Text.ascii "# " ++ entry.2)

/-- Under plain comments, everything the run writes into the region reads back. -/
theorem managedPlain_of_plainComments {misses : List Miss} {file : Text} {found : Foldable}
    {block : Block} (plain : PlainComments misses file)
    (loaded : loadFoldable misses = .ok found)
    (located : findArrayBlock (universalNewlines file) = .ok block)
    (noClose : ']' ∉ block.inner) :
    ManagedPlain (Dict.writes (foldedOf block.inner) found.fold) := by
  intro addr isKey
  obtain ⟨comment, present⟩ :=
    Option.isSome_iff_exists.mp ((Dict.isSome_get?_iff _ _).mpr isKey)
  rw [present, Option.getD_some]
  rcases Dict.mem_writes (Dict.mem_of_get? present) with captured | existing
  · rcases mem_loadFoldable loaded captured with impossible | ⟨miss, inMisses, kept, read, same⟩
    · cases impossible
    · simp only at read same
      rw [same]
      exact plain.1 miss inMisses kept addr read
  · obtain ⟨nonneg, oneLine, plainClose, _⟩ := plain_of_mem_foldedOf noClose existing
    exact ⟨nonneg, oneLine, plainClose, plain.2 block located _ existing⟩

/-- Plain comments read back. -/
theorem regionReadsBack_of_plain {misses : List Miss} {file : Text}
    (plain : PlainComments misses file) : RegionReadsBack misses file := by
  intro found block loaded located
  obtain ⟨_, _, _, _, _, noClose, _⟩ := findArrayBlock_eq_ok located
  exact readsBack_of_plain (distinct_foldedOf block.inner)
    (fun entry member => (plain_of_mem_foldedOf noClose member).2.2.2)
    (managedPlain_of_plainComments plain loaded located noClose)

/-- A file with an empty array, and a manifest with one interior entry. -/
def emptyArrayFile : Text := Text.ascii "force_function_vrams = []\n"

def interiorMiss : Miss :=
  { missedAddr := Text.ascii "0x80001234"
    classification := some (Text.ascii "interior")
    hitCount := some (Text.ascii "3")
    relocAtOffset := false
    relocType := none
    relocTargetSection := Text.ascii "None"
    relocTargetOffset := Text.ascii "None"
    offsetIsKnownFunc := false }

def emptyArrayFolded : Text :=
  Text.unlines '\n'
    [openLine, markerLine beginMarker,
      Text.ascii "    0x80001234,  # interior hit_count=3",
      markerLine endMarker, [']']]

theorem foldCaptures_stable_iff_example :
    foldCaptures [interiorMiss] emptyArrayFolded = .ok emptyArrayFolded := by
  have folded : foldCaptures [interiorMiss] emptyArrayFile = .ok emptyArrayFolded := by
    decide +kernel
  have located : findArrayBlock (universalNewlines emptyArrayFile) = .ok ⟨[], [], ['\n']⟩ := by
    decide +kernel
  have blank : OutsideBlank emptyArrayFile := by
    intro block found
    rw [located] at found
    cases found
    rfl
  have plain : PlainComments [interiorMiss] emptyArrayFile := by
    constructor
    · intro miss member _ addr read
      rw [List.mem_singleton.mp member] at read ⊢
      have value : int16 interiorMiss.missedAddr = some 0x80001234 := by decide +kernel
      rw [value] at read
      cases read
      exact ⟨by decide, by unfold PlainComment; decide +kernel⟩
    · intro block found entry member
      rw [located] at found
      cases found
      cases member
  exact (foldCaptures_stable_iff folded).mpr ⟨blank, regionReadsBack_of_plain plain⟩

/-- A file with one manual entry. -/
def manualEntryFile : Text :=
  Text.unlines '\n' [openLine, Text.ascii "    0x80001000,", [']']]

/-- The second run moves the manual entry down by a line. -/
theorem foldCaptures_not_idempotent :
    ¬ ∀ misses file once, foldCaptures misses file = .ok once →
      foldCaptures misses once = .ok once := by
  intro idempotent
  have folded : foldCaptures [] manualEntryFile = .ok (Text.unlines '\n'
      [openLine, [], Text.ascii "    0x80001000,", markerLine beginMarker,
        markerLine endMarker, [']']]) := by
    decide +kernel
  have again := idempotent _ _ _ folded
  revert again
  decide +kernel

end StadiumRecomp.Captures
