import StadiumRecomp.Captures.Region

/-!
Contract: what a second run finds in the entries the first one wrote.

Owns: the walk over the lines behind the opening marker, the lines a written entry
is read as, when the written entries read back, and that written entries determine
their addresses and comments.

Does not own: the lines outside the markers and the text around the array.
-/

set_option autoImplicit false

namespace StadiumRecomp.Captures

open StadiumRecomp.Lib
open StadiumRecomp.Lib.PyInt
open StadiumRecomp.Lib.PyText

/-! ## Walks -/

/-- Whether the line after `line` lies inside the region. -/
def insideAfter (inside : Bool) (line : Text) : Bool :=
  if contains beginMarker line then true
  else if contains endMarker line then false
  else inside

/-- The lines kept, of lines that start inside the region or outside of it. -/
def outsideLines : Bool → List Text → List Text
  | _, [] => []
  | inside, line :: rest =>
      (if inside = false ∧ Markerless line then [line] else []) ++
        outsideLines (insideAfter inside line) rest

/-- The address a line shows, with its comment. -/
def entryOfLine (line : Text) : Option (Int × Text) :=
  (addrOfLine line).map fun addr => (addr, commentOfLine line)

/-- The entries read, of lines that start inside the region or outside of it. -/
def shownEntries : Bool → List Text → List (Int × Text)
  | _, [] => []
  | inside, line :: rest =>
      (if inside = true ∧ Markerless line then (entryOfLine line).toList else []) ++
        shownEntries (insideAfter inside line) rest

theorem writes_append (folded : Dict Int Text) (left right : List (Int × Text)) :
    folded.writes (left ++ right) = (folded.writes left).writes right :=
  List.foldl_append

theorem parseLine_walk (state : Existing) (line : Text) :
    parseLine state line =
      ⟨insideAfter state.inRegion line,
        state.preamble ++ (if state.inRegion = false ∧ Markerless line then [line] else []),
        state.folded.writes (if state.inRegion = true ∧ Markerless line then
          (entryOfLine line).toList else [])⟩ := by
  obtain ⟨inside, preamble, folded⟩ := state
  by_cases begins : contains beginMarker line = true
  · simp [parseLine, insideAfter, Markerless, Dict.writes, begins]
  · by_cases ends : contains endMarker line = true
    · simp [parseLine, insideAfter, Markerless, Dict.writes, begins, ends]
    · cases inside with
      | false => simp [parseLine, insideAfter, Markerless, Dict.writes, begins, ends]
      | true =>
          cases read : addrOfLine line <;>
            simp [parseLine, insideAfter, Markerless, entryOfLine, Dict.writes, begins, ends,
              read]

/-- What parsing makes of any lines. -/
theorem foldl_parseLine_walk (lines : List Text) (state : Existing) :
    ∃ inside, lines.foldl parseLine state =
      ⟨inside, state.preamble ++ outsideLines state.inRegion lines,
        state.folded.writes (shownEntries state.inRegion lines)⟩ := by
  induction lines generalizing state with
  | nil => exact ⟨state.inRegion, by simp [outsideLines, shownEntries, Dict.writes]⟩
  | cons line rest inductionHypothesis =>
      obtain ⟨inside, walked⟩ := inductionHypothesis (parseLine state line)
      refine ⟨inside, ?_⟩
      rw [List.foldl_cons, walked, parseLine_walk]
      simp only [outsideLines, shownEntries, writes_append, List.append_assoc]

/-! ## Written lines -/

/-- The lines a written line is read as. -/
def rereadLine (line : Text) : List Text :=
  splitlines (universalNewlines (line ++ ['\n']))

/-- Written lines are read one after the other. -/
theorem splitlines_unlines (lines : List Text) (rest : Text) :
    splitlines (universalNewlines (Text.unlines '\n' lines ++ rest)) =
      lines.flatMap rereadLine ++ splitlines (universalNewlines rest) := by
  induction lines with
  | nil => rfl
  | cons line lines inductionHypothesis =>
      have shape : Text.unlines '\n' (line :: lines) ++ rest =
          line ++ '\n' :: (Text.unlines '\n' lines ++ rest) := by
        simp [Text.unlines]
      obtain ⟨read, split⟩ := universalNewlines_append_feed line
      rw [shape, split, splitlines, Text.linesBy_append_ended rfl, List.flatMap_cons,
        List.append_assoc, ← inductionHypothesis, rereadLine, split]
      rfl

theorem rereadLine_of_oneLine {line : Text} (oneLine : Text.OneLine isLineBoundary line) :
    rereadLine line = [line] := by
  have noReturn : ∀ symbol ∈ line ++ ['\n'], symbol ≠ '\r' := by
    intro symbol member same
    subst same
    rcases List.mem_append.mp member with inLine | feed
    · exact absurd (oneLine _ inLine) (by decide)
    · exact absurd feed (by decide)
  rw [rereadLine, universalNewlines_eq_self noReturn, splitlines,
    Text.linesBy_append_break oneLine rfl]
  rfl

/-- The lines the written entries are read as. -/
def writtenLines (merged : Dict Int Text) : List Text :=
  (sortedAddrs merged).flatMap fun addr => rereadLine (entryLine merged addr)

theorem rereadLine_marker : rereadLine (markerLine beginMarker) = [markerLine beginMarker] ∧
    rereadLine (markerLine endMarker) = [markerLine endMarker] := by
  constructor <;> exact rereadLine_of_oneLine (by decide +kernel)

/-- Parsing a written array without a preamble: one empty line outside the region,
and what the lines of the entries make of it. -/
theorem parseLines_written (merged : Dict Int Text) :
    parseLines (universalNewlines (Text.unlines '\n' ([] :: innerLines [] merged))) =
      ⟨false, [] :: outsideLines true (writtenLines merged),
        Dict.writes [] (shownEntries true (writtenLines merged))⟩ := by
  have lines := splitlines_unlines ([] :: innerLines [] merged) []
  have parts : ([] :: innerLines [] merged).flatMap rereadLine =
      [] :: markerLine beginMarker :: (writtenLines merged ++ [markerLine endMarker]) := by
    simp only [innerLines, List.nil_append, List.cons_append, List.flatMap_cons,
      List.flatMap_append, List.flatMap_map, List.flatMap_nil, rereadLine_marker]
    rfl
  have emptyLine : parseLine ⟨false, [], []⟩ [] = ⟨false, [[]], []⟩ := by decide +kernel
  obtain ⟨inside, walked⟩ := foldl_parseLine_walk (writtenLines merged) ⟨true, [[]], []⟩
  rw [List.append_nil, parts] at lines
  unfold parseLines
  rw [lines]
  simp only [universalNewlines, splitlines, Text.linesBy, List.append_nil, List.foldl_cons,
    List.foldl_append, List.foldl_nil, emptyLine, parseLine_beginMarker, walked,
    parseLine_endMarker]
  rfl

/-! ## Reading back -/

/-- The entries a run writes, for addresses the region showed and the captured ones,
read back: the bracket closes behind them, no line of them ends up outside the region
unless it is blank, and an address that is not captured is shown as before. -/
structure ReadsBack (existing fold : Dict Int Text) : Prop where
  noClose : ∀ entry ∈ Dict.writes existing fold, ']' ∉ entry.2
  blank : ∀ line ∈ outsideLines true (writtenLines (Dict.writes existing fold)),
    isBlankLine line = true
  same : ∀ addr, Dict.lastWrite fold addr = none →
    Dict.lastWrite (shownEntries true (writtenLines (Dict.writes existing fold))) addr =
      existing.get? addr

/-- Entries with plain comments are lines of the region that show themselves. -/
theorem walk_entries (comments : Int → Text) {addrs : List Int}
    (plain : ∀ addr ∈ addrs, 0 ≤ addr ∧ PlainComment (comments addr)) :
    outsideLines true (addrs.flatMap fun addr => rereadLine (entryText addr (comments addr))) =
        [] ∧
      shownEntries true
          (addrs.flatMap fun addr => rereadLine (entryText addr (comments addr))) =
        addrs.map fun addr => (addr, Text.strip pySpace (comments addr)) := by
  induction addrs with
  | nil => exact ⟨rfl, rfl⟩
  | cons addr rest inductionHypothesis =>
      obtain ⟨nonneg, comment⟩ := plain addr List.mem_cons_self
      obtain ⟨noneOutside, shown⟩ := inductionHypothesis
        fun other member => plain other (List.mem_cons_of_mem _ member)
      obtain ⟨value, rfl⟩ := Int.eq_ofNat_of_zero_le nonneg
      have markerless := markerless_entryText value comment.2.2
      have stays : insideAfter true (entryText value (comments value)) = true := by
        simp [insideAfter, markerless.1, markerless.2]
      have entry : entryOfLine (entryText value (comments value)) =
          some ((value : Int), Text.strip pySpace (comments value)) := by
        simp [entryOfLine, addrOfLine_entryText, commentOfLine_entryText]
      rw [List.flatMap_cons, rereadLine_of_oneLine (entryText_plain comment)]
      constructor
      · simp only [List.cons_append, List.nil_append, outsideLines, stays, noneOutside]
        rfl
      · simp only [List.cons_append, List.nil_append, shownEntries, stays, shown, entry,
          markerless, and_self, if_true, Option.toList_some, List.map_cons]

/-- Plain comments read back, when the region's own are trimmed. -/
theorem readsBack_of_plain {existing fold : Dict Int Text}
    (distinct : Dict.Distinct existing)
    (trimmed : ∀ entry ∈ existing, Text.strip pySpace entry.2 = entry.2)
    (plain : ManagedPlain (Dict.writes existing fold)) : ReadsBack existing fold := by
  have walked := walk_entries (fun addr => ((Dict.writes existing fold).get? addr).getD [])
    fun addr member => plain addr (mem_sortedAddrs.mp member)
  have shown : shownEntries true (writtenLines (Dict.writes existing fold)) =
      (sortedAddrs (Dict.writes existing fold)).map fun addr =>
        (addr, Text.strip pySpace (((Dict.writes existing fold).get? addr).getD [])) := walked.2
  have noneOutside : outsideLines true (writtenLines (Dict.writes existing fold)) = [] :=
    walked.1
  constructor
  · intro entry member
    have present : Dict.get? (Dict.writes existing fold) entry.1 = some entry.2 :=
      (Dict.get?_eq_some_iff (distinct.writes fold)).mpr member
    have comment := (plain entry.1 (List.mem_map_of_mem member)).2.2.1
    rwa [present] at comment
  · rw [noneOutside]
    simp
  · intro addr notCaptured
    have lookup := Dict.get?_writes fold existing addr
    rw [notCaptured, Option.none_or] at lookup
    rw [shown]
    cases present : Dict.get? existing addr with
    | none =>
        rw [Dict.lastWrite_eq_none_iff]
        intro entry member same
        obtain ⟨other, isKey, rfl⟩ := List.mem_map.mp member
        simp only at same
        subst same
        have someValue := (Dict.isSome_get?_iff _ _).mpr (mem_sortedAddrs.mp isKey)
        rw [lookup, present] at someValue
        cases someValue
    | some comment =>
        have isKey : addr ∈ sortedAddrs (Dict.writes existing fold) := by
          rw [mem_sortedAddrs, ← Dict.isSome_get?_iff, lookup, present]
          rfl
        rw [Dict.lastWrite_map_of_mem _ _ isKey, lookup, present, Option.getD_some,
          trimmed _ (Dict.mem_of_get? present)]

/-! ## Entries from their text -/

/-- A text up to its first stop determines that part. -/
theorem append_stop_inj {stop : Char} {left right leftRest rightRest : Text}
    (leftPlain : stop ∉ left) (rightPlain : stop ∉ right)
    (same : left ++ stop :: leftRest = right ++ stop :: rightRest) :
    left = right ∧ leftRest = rightRest := by
  induction left generalizing right with
  | nil =>
      cases right with
      | nil => exact ⟨rfl, (List.cons.inj same).2⟩
      | cons head right =>
          exact absurd ((List.cons.inj same).1 ▸ List.mem_cons_self) rightPlain
  | cons head left inductionHypothesis =>
      cases right with
      | nil => exact absurd ((List.cons.inj same).1 ▸ List.mem_cons_self) leftPlain
      | cons other right =>
          obtain ⟨rfl, tails⟩ := List.cons.inj same
          obtain ⟨rfl, rest⟩ := inductionHypothesis
            (fun member => leftPlain (List.mem_cons_of_mem _ member))
            (fun member => rightPlain (List.mem_cons_of_mem _ member)) tails
          exact ⟨rfl, rest⟩

theorem comma_not_mem_fmtHEX08 (addr : Int) : ',' ∉ fmtHEX08 addr := by
  intro member
  rcases mem_fmtHEX08 member with hex | same | same
  · exact absurd hex (by decide)
  · exact absurd same (by decide)
  · exact absurd same (by decide)

/-- An entry's text starts with its address, and the address with its comma. -/
theorem entryText_append (addr : Int) (comment rest : Text) :
    entryText addr comment ++ rest =
      Text.ascii "    " ++ (fmtHEX08 addr ++ ',' ::
        ((if comment = [] then [] else Text.ascii "  # " ++ comment) ++ rest)) := by
  simp [entryText]

theorem commentText_plain {comment : Text} (oneLine : '\n' ∉ comment) :
    '\n' ∉ (if comment = [] then [] else Text.ascii "  # " ++ comment) := by
  have mark : '\n' ∉ Text.ascii "  # " := by decide
  split
  next => exact List.not_mem_nil
  next =>
    rw [List.mem_append]
    exact not_or.mpr ⟨mark, oneLine⟩

theorem commentText_inj {left right : Text}
    (same : (if left = [] then [] else Text.ascii "  # " ++ left) =
      (if right = [] then [] else Text.ascii "  # " ++ right)) : left = right := by
  have mark : Text.ascii "  # " = [' ', ' ', '#', ' '] := by decide
  rw [mark] at same
  by_cases leftEmpty : left = [] <;> by_cases rightEmpty : right = []
  · rw [leftEmpty, rightEmpty]
  · simp [leftEmpty, rightEmpty] at same
  · simp [leftEmpty, rightEmpty] at same
  · simpa [leftEmpty, rightEmpty] using same

/-- An address is no closing marker. -/
theorem entryText_ne_endMarker (addr : Int) (comment entryRest markerRest : Text) :
    entryText addr comment ++ entryRest ≠ markerLine endMarker ++ markerRest := by
  rw [entryText_append, markerLine, List.append_assoc]
  intro same
  have digits := List.append_cancel_left same
  have mark : endMarker = '#' :: endMarker.tail := by decide
  rw [mark] at digits
  exact absurd (List.cons.inj digits).1 (by decide)

/-- Written entries up to the closing marker determine addresses and comments, if
comments that may differ stay on their lines. -/
theorem entries_inj {left right : List Int} {leftComments rightComments : Int → Text}
    (agree : ∀ addr, leftComments addr = rightComments addr ∨
      '\n' ∉ leftComments addr ∧ '\n' ∉ rightComments addr) {leftRest rightRest : Text}
    (same : Text.unlines '\n' (left.map fun addr => entryText addr (leftComments addr)) ++
        (markerLine endMarker ++ leftRest) =
      Text.unlines '\n' (right.map fun addr => entryText addr (rightComments addr)) ++
        (markerLine endMarker ++ rightRest)) :
    left = right ∧ (∀ addr ∈ left, leftComments addr = rightComments addr) ∧
      leftRest = rightRest := by
  induction left generalizing right with
  | nil =>
      cases right with
      | nil => exact ⟨rfl, by simp, List.append_cancel_left same⟩
      | cons addr right =>
          simp only [List.map_cons, Text.unlines, List.flatMap_cons, List.append_assoc] at same
          exact absurd same.symm (entryText_ne_endMarker _ _ _ _)
  | cons addr left inductionHypothesis =>
      cases right with
      | nil =>
          simp only [List.map_cons, Text.unlines, List.flatMap_cons, List.append_assoc] at same
          exact absurd same (entryText_ne_endMarker _ _ _ _)
      | cons other right =>
          simp only [List.map_cons, Text.unlines, List.flatMap_cons, List.append_assoc] at same
          rw [entryText_append, entryText_append] at same
          obtain ⟨sameAddr, behind⟩ := append_stop_inj (comma_not_mem_fmtHEX08 _)
            (comma_not_mem_fmtHEX08 _) (List.append_cancel_left same)
          obtain rfl := fmtHEX08_injective sameAddr
          have comments : leftComments addr = rightComments addr ∧
              Text.unlines '\n' (left.map fun addr => entryText addr (leftComments addr)) ++
                (markerLine endMarker ++ leftRest) =
              Text.unlines '\n' (right.map fun addr => entryText addr (rightComments addr)) ++
                (markerLine endMarker ++ rightRest) := by
            rcases agree addr with equal | ⟨leftLine, rightLine⟩
            · rw [equal] at behind
              exact ⟨equal, (List.cons.inj (List.append_cancel_left behind)).2⟩
            · obtain ⟨texts, rest⟩ := append_stop_inj (commentText_plain leftLine)
                (commentText_plain rightLine) behind
              exact ⟨commentText_inj texts, rest⟩
          obtain ⟨rfl, later, rest⟩ := inductionHypothesis comments.2
          refine ⟨rfl, ?_, rest⟩
          intro addr member
          rcases List.mem_cons.mp member with rfl | inRest
          · exact comments.1
          · exact later addr inRest

theorem unlines_innerLines (merged : Dict Int Text) (rest : Text) :
    Text.unlines '\n' (innerLines [] merged) ++ rest =
      markerLine beginMarker ++ '\n' ::
        (Text.unlines '\n' ((sortedAddrs merged).map fun addr =>
            entryText addr ((merged.get? addr).getD [])) ++
          (markerLine endMarker ++ '\n' :: rest)) := by
  have lines : entryLine merged = fun addr => entryText addr ((merged.get? addr).getD []) := rfl
  simp [innerLines, Text.unlines, lines]

/-- The written text between the brackets determines the lookups and shows that
nothing was kept, if comments that may differ stay on their lines. -/
theorem innerLines_inj {left right : Dict Int Text} {kept : List Text}
    (keptPlain : ∀ line ∈ kept, '\n' ∉ line ∧ Markerless line)
    (agree : ∀ addr, (left.get? addr).getD [] = (right.get? addr).getD [] ∨
      '\n' ∉ (left.get? addr).getD [] ∧ '\n' ∉ (right.get? addr).getD [])
    {leftRest rightRest : Text}
    (same : Text.unlines '\n' (innerLines [] left) ++ leftRest =
      Text.unlines '\n' (innerLines kept right) ++ rightRest) :
    kept = [] ∧ (∀ addr, left.get? addr = right.get? addr) ∧ leftRest = rightRest := by
  have markerPlain : '\n' ∉ markerLine beginMarker := by decide +kernel
  have noKept : kept = [] := by
    cases kept with
    | nil => rfl
    | cons line rest =>
        exfalso
        obtain ⟨oneLine, noMarker, _⟩ := keptPlain line List.mem_cons_self
        have split : Text.unlines '\n' (innerLines (line :: rest) right) ++ rightRest =
            line ++ '\n' :: (Text.unlines '\n' (innerLines rest right) ++ rightRest) := by
          simp [innerLines, Text.unlines]
        rw [unlines_innerLines, split] at same
        have isMarker := (append_stop_inj markerPlain oneLine same).1
        rw [← isMarker] at noMarker
        revert noMarker
        decide +kernel
  subst noKept
  rw [unlines_innerLines, unlines_innerLines] at same
  obtain ⟨addrs, comments, rest⟩ :=
    entries_inj agree (List.cons.inj (List.append_cancel_left same)).2
  refine ⟨rfl, fun addr => ?_, (List.cons.inj rest).2⟩
  have keys : addr ∈ left.map Prod.fst ↔ addr ∈ right.map Prod.fst := by
    rw [← mem_sortedAddrs, ← mem_sortedAddrs, addrs]
  rw [← Dict.isSome_get?_iff, ← Dict.isSome_get?_iff] at keys
  by_cases isKey : addr ∈ sortedAddrs left
  · have shown := (Dict.isSome_get?_iff _ _).mpr (mem_sortedAddrs.mp isKey)
    obtain ⟨comment, present⟩ := Option.isSome_iff_exists.mp shown
    obtain ⟨other, presentRight⟩ := Option.isSome_iff_exists.mp (keys.mp shown)
    have sameComment := comments addr isKey
    rw [present, presentRight, Option.getD_some, Option.getD_some] at sameComment
    rw [present, presentRight, sameComment]
  · rw [mem_sortedAddrs, ← Dict.isSome_get?_iff] at isKey
    have absent : ¬ (right.get? addr).isSome = true := fun there => isKey (keys.mpr there)
    rw [Bool.not_eq_true, Option.isSome_eq_false_iff, Option.isNone_iff_eq_none] at isKey absent
    rw [isKey, absent]

end StadiumRecomp.Captures
