import StadiumRecomp.Translate.Escape

/-!
Contract: what the loader reads from one row the build tool writes.

Owns: the names the loader finds in a row, where its entry ends, and the reading it gives.

Does not own: how the row is written, or the rows around it.
-/

set_option autoImplicit false

namespace StadiumRecomp.Translate

open StadiumRecomp.Lib
open StadiumRecomp.Lib.Quoted

/-! ## One row -/

def colonSep : Bytes := CString.bytesOf ": "
def commaSep : Bytes := CString.bytesOf ", "
def jpWord : Bytes := CString.bytesOf "src_jp"

/-- A name the loader looks for, none of the fixed parts between a row's values. -/
structure FieldWord (word : Bytes) : Prop where
  plain : PlainWord word
  free : quote ∉ word
  other : word ≠ jpWord ∧ word ≠ colonSep ∧ word ≠ commaSep
  noBlank : word.head? ≠ some 0x20

theorem fieldWord_src : FieldWord srcWord :=
  ⟨by decide, by decide, by decide, by decide⟩

theorem fieldWord_target : FieldWord targetWord :=
  ⟨by decide, by decide, by decide, by decide⟩

theorem fieldWord_origW : FieldWord (CString.bytesOf "orig_w") :=
  ⟨by decide, by decide, by decide, by decide⟩

theorem fieldWord_fitW : FieldWord (CString.bytesOf "fit_w") :=
  ⟨by decide, by decide, by decide, by decide⟩

/-- What stands behind a row's English: a part without quotes and colons, and the
next row if there is one. -/
structure Follows (part : Bytes) (segments : List Bytes) : Prop where
  free : quote ∉ part
  noColon : 0x3A ∉ part
  blank : part.head? = some 0x20
  segmentsFree : Free quote segments
  next : segments = [] ∨ ∃ segment more, segments = srcWord :: segment :: more

/-- The segments up to the last piece of the Japanese text. -/
def untilJp (jpInitial : List Bytes) : List Bytes := jpWord :: colonSep :: jpInitial

/-- The segments up to the last piece of the English text. -/
def untilEn (jpInitial : List Bytes) (jpLast : Bytes) (enInitial : List Bytes) : List Bytes :=
  untilJp jpInitial ++ jpLast :: commaSep :: targetWord :: colonSep :: enInitial

/-- A string cut into its pieces. -/
structure Cut (content : Bytes) (initial : List Bytes) (last : Bytes) : Prop where
  shape : pieces content = initial ++ [last]
  lastEq : last = escapeBytes (lastSegment quote content)
  escapes : ∀ piece ∈ initial, backslash ∈ piece
  initialFree : Free quote initial
  lastFree : quote ∉ last

theorem exists_cut (content : Bytes) : ∃ initial last, Cut content initial last := by
  obtain ⟨initial, shape, escapes, _⟩ := pieces_eq content
  have free := free_pieces content
  rw [shape] at free
  obtain ⟨initialFree, lastFree⟩ := free_append.mp free
  exact ⟨initial, _, shape, rfl, escapes, initialFree, lastFree _ List.mem_cons_self⟩

/-- The last piece is a field's name only when the last segment is. -/
theorem Cut.last_eq_iff {content word last : Bytes} {initial : List Bytes}
    (cut : Cut content initial last) (field : FieldWord word) :
    last = word ↔ lastSegment quote content = word := by
  rw [cut.lastEq, escapeBytes_eq_plainWord field.plain]

section Row

variable {jp en jpLast enLast part word : Bytes} {jpInitial enInitial segments : List Bytes}

/-- What follows a row's source string. -/
def rowRest (jpInitial : List Bytes) (jpLast : Bytes) (enInitial : List Bytes)
    (enLast part : Bytes) (segments : List Bytes) : Bytes :=
  commaSep ++ quoted quote
    (untilEn jpInitial jpLast enInitial ++ enLast :: part :: segments)

/-- Where the last piece of the Japanese text starts. -/
def jpAt (jpInitial : List Bytes) : Nat := (commaSep ++ quoted quote (untilJp jpInitial)).length

/-- Where the last piece of the English text starts. -/
def enAt (jpInitial : List Bytes) (jpLast : Bytes) (enInitial : List Bytes) : Nat :=
  (commaSep ++ quoted quote (untilEn jpInitial jpLast enInitial)).length

/-- Where the next row's first string starts, or the end of the file. -/
def nextAt (jpInitial : List Bytes) (jpLast : Bytes) (enInitial : List Bytes)
    (enLast part : Bytes) : Nat :=
  (commaSep ++ quoted quote
    (untilEn jpInitial jpLast enInitial ++ [enLast, part])).length

theorem enAt_eq : enAt jpInitial jpLast enInitial =
    jpAt jpInitial + (jpLast.length + (quoted quote enInitial).length + 14) := by
  have words : commaSep.length = 2 ∧ targetWord.length = 6 ∧ colonSep.length = 2 := by decide
  simp only [enAt, jpAt, untilEn, quoted_append, quoted_cons, List.length_append,
    List.length_cons, words]
  omega

theorem nextAt_eq : nextAt jpInitial jpLast enInitial enLast part =
    enAt jpInitial jpLast enInitial + (enLast.length + part.length + 2) := by
  simp only [nextAt, enAt, quoted_append, quoted_cons, quoted_nil, List.length_append,
    List.length_cons, List.length_nil]
  omega

theorem length_rowRest : (rowRest jpInitial jpLast enInitial enLast part segments).length =
    nextAt jpInitial jpLast enInitial enLast part + (quoted quote segments).length := by
  simp only [rowRest, nextAt, quoted_append, quoted_cons, quoted_nil, List.length_append,
    List.length_cons, List.length_nil]
  omega

theorem commaSep_free : quote ∉ commaSep := by decide

theorem not_mem_untilJp (field : FieldWord word) (jpCut : Cut jp jpInitial jpLast) :
    word ∉ untilJp jpInitial := by
  intro member
  simp only [untilJp, List.mem_cons] at member
  rcases member with same | same | inInitial
  · exact field.other.1 same
  · exact field.other.2.1 same
  · exact not_mem_of_plainWord field.plain (jpCut.escapes word inInitial)

theorem not_mem_untilEn (field : FieldWord word) (notTarget : word ≠ targetWord)
    (notLast : jpLast ≠ word) (jpCut : Cut jp jpInitial jpLast)
    (enCut : Cut en enInitial enLast) : word ∉ untilEn jpInitial jpLast enInitial := by
  intro member
  simp only [untilEn, List.mem_append, List.mem_cons] at member
  rcases member with inJp | same | same | same | same | inInitial
  · exact not_mem_untilJp field jpCut inJp
  · exact notLast same.symm
  · exact field.other.2.2 same
  · exact notTarget same
  · exact field.other.2.1 same
  · exact not_mem_of_plainWord field.plain (enCut.escapes word inInitial)

theorem free_untilJp (jpCut : Cut jp jpInitial jpLast) : Free quote (untilJp jpInitial) := by
  intro segment member
  simp only [untilJp, List.mem_cons] at member
  rcases member with rfl | rfl | inInitial
  · decide
  · decide
  · exact jpCut.initialFree segment inInitial

theorem free_untilEn (jpCut : Cut jp jpInitial jpLast) (enCut : Cut en enInitial enLast) :
    Free quote (untilEn jpInitial jpLast enInitial) := by
  intro segment member
  simp only [untilEn, List.mem_append, List.mem_cons] at member
  rcases member with inJp | rfl | rfl | rfl | rfl | inInitial
  · exact free_untilJp jpCut segment inJp
  · exact jpCut.lastFree
  · decide
  · decide
  · decide
  · exact enCut.initialFree segment inInitial

/-- A field's name that ends the Japanese text is found there. -/
theorem find_in_jp (field : FieldWord jpLast) (jpCut : Cut jp jpInitial jpLast)
    (enInitial : List Bytes) (enLast part : Bytes) (segments : List Bytes) :
    Search.indexOf? (token quote jpLast)
        (rowRest jpInitial jpLast enInitial enLast part segments) = some (jpAt jpInitial) ∧
      (rowRest jpInitial jpLast enInitial enLast part segments).drop
          (jpAt jpInitial + (token quote jpLast).length) =
        commaSep ++ quoted quote (targetWord :: colonSep :: enInitial ++
          enLast :: part :: segments) := by
  have shape : rowRest jpInitial jpLast enInitial enLast part segments =
      commaSep ++ quoted quote (untilJp jpInitial ++ jpLast :: commaSep ::
        (targetWord :: colonSep :: enInitial ++ enLast :: part :: segments)) := by
    simp [rowRest, untilEn]
  rw [shape]
  exact indexOf?_segments field.free commaSep_free (free_untilJp jpCut)
    (not_mem_untilJp field jpCut)

/-- One that ends the English text is found there, unless it ends the Japanese too. -/
theorem find_in_en (field : FieldWord enLast) (notTarget : enLast ≠ targetWord)
    (notJp : jpLast ≠ enLast) (jpCut : Cut jp jpInitial jpLast)
    (enCut : Cut en enInitial enLast) (part : Bytes) (segments : List Bytes) :
    Search.indexOf? (token quote enLast)
        (rowRest jpInitial jpLast enInitial enLast part segments) =
          some (enAt jpInitial jpLast enInitial) ∧
      (rowRest jpInitial jpLast enInitial enLast part segments).drop
          (enAt jpInitial jpLast enInitial + (token quote enLast).length) =
        part ++ quoted quote segments :=
  indexOf?_segments field.free commaSep_free (free_untilEn jpCut enCut)
    (not_mem_untilEn field notTarget notJp jpCut enCut)

/-- Otherwise it is not found before the next row. -/
theorem find_beyond (field : FieldWord word) (notTarget : word ≠ targetWord)
    (notJp : jpLast ≠ word) (notEn : enLast ≠ word) (jpCut : Cut jp jpInitial jpLast)
    (enCut : Cut en enInitial enLast) (follows : Follows part segments) {position : Nat}
    (found : Search.indexOf? (token quote word)
      (rowRest jpInitial jpLast enInitial enLast part segments) = some position) :
    nextAt jpInitial jpLast enInitial enLast part ≤ position := by
  have shape : rowRest jpInitial jpLast enInitial enLast part segments =
      commaSep ++ quoted quote
        ((untilEn jpInitial jpLast enInitial ++ [enLast, part]) ++ segments) := by
    simp [rowRest]
  rw [shape] at found
  apply le_of_indexOf?_segments field.free commaSep_free _ _ found
  · intro segment member
    simp only [List.mem_append, List.mem_cons, List.not_mem_nil, or_false] at member
    rcases member with inRow | rfl | rfl
    · exact free_untilEn jpCut enCut segment inRow
    · exact enCut.lastFree
    · exact follows.free
  · intro member
    simp only [List.mem_append, List.mem_cons, List.not_mem_nil, or_false] at member
    rcases member with inRow | same | same
    · exact not_mem_untilEn field notTarget notJp jpCut enCut inRow
    · exact notEn same.symm
    · exact field.noBlank (same ▸ follows.blank)

/-! ### Where the entry ends -/

theorem entryEnd_of_jp (isSrc : jpLast = srcWord) (jpCut : Cut jp jpInitial jpLast) :
    entryEnd (rowRest jpInitial jpLast enInitial enLast part segments) = jpAt jpInitial := by
  subst isSrc
  unfold entryEnd
  rw [srcToken_eq, (find_in_jp fieldWord_src jpCut _ _ _ _).1]
  rfl

theorem entryEnd_of_en (notJp : jpLast ≠ srcWord) (isSrc : enLast = srcWord)
    (jpCut : Cut jp jpInitial jpLast) (enCut : Cut en enInitial enLast) :
    entryEnd (rowRest jpInitial jpLast enInitial enLast part segments) =
      enAt jpInitial jpLast enInitial := by
  subst isSrc
  unfold entryEnd
  rw [srcToken_eq, (find_in_en fieldWord_src (by decide) notJp jpCut enCut _ _).1]
  rfl

theorem entryEnd_of_next (notJp : jpLast ≠ srcWord) (notEn : enLast ≠ srcWord)
    (jpCut : Cut jp jpInitial jpLast) (enCut : Cut en enInitial enLast)
    (follows : Follows part segments) :
    entryEnd (rowRest jpInitial jpLast enInitial enLast part segments) =
      nextAt jpInitial jpLast enInitial enLast part := by
  have beyond : ∀ position, Search.indexOf? (token quote srcWord)
      (rowRest jpInitial jpLast enInitial enLast part segments) = some position →
      nextAt jpInitial jpLast enInitial enLast part ≤ position :=
    fun _ found => find_beyond fieldWord_src (by decide) notJp notEn jpCut enCut follows found
  unfold entryEnd
  rcases follows.next with rfl | ⟨segment, more, rfl⟩
  · have absent : Search.indexOf? srcToken
        (rowRest jpInitial jpLast enInitial enLast part []) = none := by
      cases found : Search.indexOf? srcToken
        (rowRest jpInitial jpLast enInitial enLast part []) with
      | none => rfl
      | some position =>
          have bound := beyond position found
          obtain ⟨_, here, _⟩ := Search.indexOf?_eq_some_iff.mp found
          rw [List.drop_eq_nil_of_le (by rw [length_rowRest]; simpa using bound)] at here
          exact absurd here (by decide)
    rw [absent, Option.getD_none, length_rowRest]
    rfl
  · have shape : rowRest jpInitial jpLast enInitial enLast part
        (srcWord :: segment :: more) = commaSep ++ quoted quote
          ((untilEn jpInitial jpLast enInitial ++ [enLast, part]) ++
            srcWord :: segment :: more) := by
      simp [rowRest]
    have found : Search.indexOf? srcToken (rowRest jpInitial jpLast enInitial enLast part
        (srcWord :: segment :: more)) =
          some (nextAt jpInitial jpLast enInitial enLast part) := by
      rw [shape]
      refine (indexOf?_segments fieldWord_src.free commaSep_free ?_ ?_).1
      · intro other member
        simp only [List.mem_append, List.mem_cons, List.not_mem_nil, or_false] at member
        rcases member with inRow | rfl | rfl
        · exact free_untilEn jpCut enCut other inRow
        · exact enCut.lastFree
        · exact follows.free
      · intro member
        simp only [List.mem_append, List.mem_cons, List.not_mem_nil, or_false] at member
        rcases member with inRow | same | same
        · exact not_mem_untilEn fieldWord_src (by decide) notJp jpCut enCut inRow
        · exact notEn same.symm
        · exact fieldWord_src.noBlank (same ▸ follows.blank)
    rw [found]
    rfl

/-- Unless the Japanese text ends in `src_hex`, the entry reaches the English text. -/
theorem enAt_le_entryEnd (notJp : jpLast ≠ srcWord) (jpCut : Cut jp jpInitial jpLast)
    (enCut : Cut en enInitial enLast) (follows : Follows part segments) :
    enAt jpInitial jpLast enInitial ≤
      entryEnd (rowRest jpInitial jpLast enInitial enLast part segments) := by
  by_cases isSrc : enLast = srcWord
  · rw [entryEnd_of_en notJp isSrc jpCut enCut]
  · rw [entryEnd_of_next notJp isSrc jpCut enCut follows, nextAt_eq]
    exact Nat.le_add_right _ _

theorem entryEnd_le_nextAt (jpCut : Cut jp jpInitial jpLast)
    (enCut : Cut en enInitial enLast) (follows : Follows part segments) :
    entryEnd (rowRest jpInitial jpLast enInitial enLast part segments) ≤
      nextAt jpInitial jpLast enInitial enLast part := by
  by_cases inJp : jpLast = srcWord
  · rw [entryEnd_of_jp inJp jpCut, nextAt_eq, enAt_eq]
    omega
  · by_cases inEn : enLast = srcWord
    · rw [entryEnd_of_en inJp inEn jpCut enCut, nextAt_eq]
      omega
    · rw [entryEnd_of_next inJp inEn jpCut enCut follows]

/-! ### What the entry says -/

/-- A Japanese text that ends in `target` passes for the field's name, and the name
for its value. -/
theorem readTarget_of_jp_target (isTarget : jpLast = targetWord)
    (jpCut : Cut jp jpInitial jpLast) (enCut : Cut en enInitial enLast)
    (follows : Follows part segments) :
    readTarget (rowRest jpInitial jpLast enInitial enLast part segments)
        (entryEnd (rowRest jpInitial jpLast enInitial enLast part segments)) = targetWord := by
  have notSrc : jpLast ≠ srcWord := by
    rw [isTarget]
    decide
  have reaches := enAt_le_entryEnd notSrc jpCut enCut follows
  rw [enAt_eq] at reaches
  subst isTarget
  obtain ⟨found, behind⟩ :=
    find_in_jp fieldWord_target jpCut enInitial enLast part segments
  have opening : Search.indexOf? [quote] (commaSep ++ quoted quote
      (targetWord :: colonSep :: enInitial ++ enLast :: part :: segments)) = some 2 :=
    indexOf?_quote commaSep_free _
  have value : (commaSep ++ quoted quote
      (targetWord :: colonSep :: enInitial ++ enLast :: part :: segments)).drop 2 =
        quote :: (targetWord ++ quote :: (colonSep ++
          quoted quote (enInitial ++ enLast :: part :: segments))) := by
    rw [List.cons_append, List.cons_append, quoted_cons, quoted_cons]
    rfl
  have plainTarget : ∀ byte ∈ targetWord, byte ≠ quote ∧ byte ≠ backslash :=
    List.all_iff_forall_prop.mp (by decide)
  have read := readQuoted_plain plainTarget
    (colonSep ++ quoted quote (enInitial ++ enLast :: part :: segments))
  unfold readTarget
  rw [targetToken_eq, found]
  simp only [behind]
  rw [if_neg (by omega), opening]
  simp only [value, jsonReadString, if_true, read]

/-- A Japanese text that ends in `src_hex` ends the entry before its English. -/
theorem readTarget_of_jp_src (isSrc : jpLast = srcWord) (jpCut : Cut jp jpInitial jpLast) :
    readTarget (rowRest jpInitial jpLast enInitial enLast part segments)
        (entryEnd (rowRest jpInitial jpLast enInitial enLast part segments)) = [] := by
  have shape : rowRest jpInitial jpLast enInitial enLast part segments =
      commaSep ++ quoted quote (untilJp jpInitial ++ (jpLast :: commaSep ::
        targetWord :: colonSep :: enInitial ++ enLast :: part :: segments)) := by
    simp [rowRest, untilEn]
  rw [entryEnd_of_jp isSrc jpCut]
  unfold readTarget
  split
  next => rfl
  next position found =>
    rw [targetToken_eq, shape] at found
    have beyond : jpAt jpInitial ≤ position :=
      le_of_indexOf?_segments fieldWord_target.free commaSep_free
        (free_untilJp jpCut) (not_mem_untilJp fieldWord_target jpCut) found
    rw [if_pos beyond]

/-- Any other row gives its English. -/
theorem readTarget_of_plain (notSrc : jpLast ≠ srcWord) (notTarget : jpLast ≠ targetWord)
    (jpCut : Cut jp jpInitial jpLast) (enCut : Cut en enInitial enLast)
    (follows : Follows part segments) :
    readTarget (rowRest jpInitial jpLast enInitial enLast part segments)
        (entryEnd (rowRest jpInitial jpLast enInitial enLast part segments)) = en := by
  have reaches := enAt_le_entryEnd notSrc jpCut enCut follows
  rw [enAt_eq] at reaches
  have shape : rowRest jpInitial jpLast enInitial enLast part segments =
      commaSep ++ quoted quote ((untilJp jpInitial ++ [jpLast, commaSep]) ++
        targetWord :: colonSep :: (enInitial ++ enLast :: part :: segments)) := by
    simp [rowRest, untilEn]
  have free : Free quote (untilJp jpInitial ++ [jpLast, commaSep]) := by
    intro segment member
    simp only [List.mem_append, List.mem_cons, List.not_mem_nil, or_false] at member
    rcases member with inJp | rfl | rfl
    · exact free_untilJp jpCut segment inJp
    · exact jpCut.lastFree
    · decide
  have absent : targetWord ∉ untilJp jpInitial ++ [jpLast, commaSep] := by
    intro member
    simp only [List.mem_append, List.mem_cons, List.not_mem_nil, or_false] at member
    rcases member with inJp | same | same
    · exact not_mem_untilJp fieldWord_target jpCut inJp
    · exact notTarget same.symm
    · exact absurd same (by decide)
  obtain ⟨found, behind⟩ : Search.indexOf? (token quote targetWord) (commaSep ++ quoted quote
        ((untilJp jpInitial ++ [jpLast, commaSep]) ++
          targetWord :: colonSep :: (enInitial ++ enLast :: part :: segments))) = _ ∧ _ :=
    indexOf?_segments fieldWord_target.free commaSep_free free absent
  rw [← shape] at found behind
  have before : (commaSep ++ quoted quote (untilJp jpInitial ++ [jpLast, commaSep])).length =
      jpAt jpInitial + (jpLast.length + 4) := by
    have words : commaSep.length = 2 := by decide
    simp only [jpAt, quoted_append, quoted_cons, quoted_nil, List.length_append,
      List.length_cons, List.length_nil, words]
    omega
  have opened : quoted quote (enInitial ++ enLast :: part :: segments) =
      quote :: (escapeBytes en ++ quote :: (part ++ quoted quote segments)) := by
    have pieced := quoted_pieces en
    rw [enCut.shape, quoted_append] at pieced
    have regroup : quoted quote (enInitial ++ enLast :: part :: segments) =
        (quoted quote enInitial ++ quoted quote [enLast]) ++
          quote :: (part ++ quoted quote segments) := by
      simp [quoted_append, quoted_cons]
    rw [regroup, pieced]
    rfl
  have opening : Search.indexOf? [quote] (colonSep ++
      quoted quote (enInitial ++ enLast :: part :: segments)) = some 2 := by
    rw [opened]
    exact indexOf?_quote (by decide) _
  have value : (colonSep ++
      quoted quote (enInitial ++ enLast :: part :: segments)).drop 2 =
        quote :: (escapeBytes en ++ quote :: (part ++ quoted quote segments)) := by
    rw [opened]
    rfl
  unfold readTarget
  rw [targetToken_eq, found]
  simp only [behind]
  rw [if_neg (by omega), opening]
  simp only [value, jsonReadString, if_true, readQuoted_escapeBytes]

/-- The English the loader reads from a row. -/
theorem readTarget_row (jpCut : Cut jp jpInitial jpLast) (enCut : Cut en enInitial enLast)
    (follows : Follows part segments) :
    readTarget (rowRest jpInitial jpLast enInitial enLast part segments)
        (entryEnd (rowRest jpInitial jpLast enInitial enLast part segments)) =
      if jpLast = srcWord then [] else if jpLast = targetWord then targetWord else en := by
  split
  next isSrc => exact readTarget_of_jp_src isSrc jpCut
  next notSrc =>
    split
    next isTarget => exact readTarget_of_jp_target isTarget jpCut enCut follows
    next notTarget => exact readTarget_of_plain notSrc notTarget jpCut enCut follows

/-- No integer stands in front of a string. -/
theorem readInt?_quote (rest : Bytes) (room : Nat) :
    readInt? ((0x20 :: quote :: rest).take room) = none := by
  cases room with
  | zero => rfl
  | succ room =>
      cases room with
      | zero => rfl
      | succ room =>
          have blank : isBlank 0x20 = true := by decide
          have noBlank : isBlank quote = false := by decide
          simp only [List.take_succ_cons, readInt?, List.dropWhile_cons_of_pos blank]
          rw [List.dropWhile_cons_of_neg (by simp [noBlank])]
          rfl

/-- Behind a name at the end of the Japanese text, the next colon stands in front of
the English string. -/
theorem colon_behind_jp (more : List Bytes) :
    Search.indexOf? [0x3A] (commaSep ++ quoted quote (targetWord :: colonSep :: more)) =
        some 10 ∧
      (commaSep ++ quoted quote (targetWord :: colonSep :: more)).drop 11 =
        0x20 :: quoted quote more := by
  have shape : commaSep ++ quoted quote (targetWord :: colonSep :: more) =
      (commaSep ++ quote :: targetWord ++ [quote]) ++
        (0x3A : UInt8) :: (0x20 :: quoted quote more) := by
    have colon : colonSep = [0x3A, 0x20] := by decide
    simp [quoted_cons, colon]
  have length : (commaSep ++ quote :: targetWord ++ [quote]).length = 10 := by decide
  rw [shape]
  constructor
  · rw [indexOf?_quote (by decide), length]
  · rw [← List.drop_drop (i := 1) (j := 10), ← length, List.drop_left]
    rfl

/-- Behind a name at the end of the English text there is no colon in the row. -/
theorem colon_behind_en (follows : Follows part segments) {colon : Nat}
    (found : Search.indexOf? [0x3A] (part ++ quoted quote segments) = some colon) :
    part.length ≤ colon := by
  rw [indexOf?_append_free follows.noColon] at found
  obtain ⟨_, _, rfl⟩ := Option.map_eq_some_iff.mp found
  exact Nat.le_add_right _ _

/-- The loader finds no width in a row: neither name stands in front of a number. -/
theorem jsonReadInt_row {key : String} (field : FieldWord (CString.bytesOf key))
    (notTarget : CString.bytesOf key ≠ targetWord) (notSrc : CString.bytesOf key ≠ srcWord)
    (jpCut : Cut jp jpInitial jpLast) (enCut : Cut en enInitial enLast)
    (follows : Follows part segments) (default : Int) :
    jsonReadInt (rowRest jpInitial jpLast enInitial enLast part segments) key
        (entryEnd (rowRest jpInitial jpLast enInitial enLast part segments)) default =
      default := by
  have name : quotedName key = token quote (CString.bytesOf key) := rfl
  have ends := entryEnd_le_nextAt jpCut enCut follows
  unfold jsonReadInt
  simp only [name]
  generalize CString.bytesOf key = word at field notTarget notSrc ⊢
  cases found : Search.indexOf? (token quote word)
      (rowRest jpInitial jpLast enInitial enLast part segments) with
  | none => rfl
  | some position =>
      simp only
      split
      next => rfl
      next inside =>
        by_cases inJp : jpLast = word
        · subst inJp
          obtain ⟨foundJp, behind⟩ := find_in_jp field jpCut enInitial enLast part segments
          rw [foundJp] at found
          cases found
          obtain ⟨colonAt, value⟩ := colon_behind_jp (enInitial ++ enLast :: part :: segments)
          rw [behind, List.cons_append, List.cons_append, colonAt]
          simp only
          split
          next => rfl
          next =>
            have opened : ∃ more, quoted quote (enInitial ++ enLast :: part :: segments) =
                quote :: more := by
              cases enInitial with
              | nil => exact ⟨_, rfl⟩
              | cons piece pieces => exact ⟨_, rfl⟩
            obtain ⟨more, opened⟩ := opened
            have text : (rowRest jpInitial jpLast enInitial enLast part segments).drop
                (jpAt jpInitial + (token quote jpLast).length + 10 + 1) =
                  0x20 :: quote :: more := by
              rw [Nat.add_assoc _ 10 1, ← List.drop_drop, behind, List.cons_append,
                List.cons_append, value, opened]
            rw [List.drop_take, text, readInt?_quote]
            rfl
        · by_cases inEn : enLast = word
          · subst inEn
            obtain ⟨foundEn, behind⟩ :=
              find_in_en field notTarget inJp jpCut enCut part segments
            rw [foundEn] at found
            cases found
            rw [behind]
            have length := length_token quote enLast
            rw [nextAt_eq] at ends
            split
            next => rfl
            next colon foundColon =>
              have beyond := colon_behind_en follows foundColon
              rw [if_pos (by omega)]
          · have beyond := find_beyond field notTarget inJp inEn jpCut enCut follows found
            exact absurd (ends.trans beyond) inside

/-! ### The row as an entry -/

/-- What the loader makes of a row. -/
def rowReading (source jp en : Bytes) : Option (UInt64 × XlateVal) :=
  let bytes := hexBytes source
  let target := if lastSegment quote jp = srcWord then []
    else if lastSegment quote jp = targetWord then targetWord else en
  if bytes ≠ [] ∧ target ≠ [] then some (pmsFnv1a bytes, ⟨target, -1, -1⟩) else none

/-- Source texts that are written as they stand and end at their quote. -/
def PlainSource (source : Bytes) : Prop :=
  ∀ byte ∈ source, byte ≠ quote ∧ byte ≠ backslash

theorem PlainSource.free {source : Bytes} (plain : PlainSource source) : quote ∉ source :=
  fun member => (plain _ member).1 rfl

theorem entryEnd_behind_source {source : Bytes} (sourceFree : quote ∉ source)
    (notSrc : source ≠ srcWord) :
    entryEnd (colonSep ++ quote :: (source ++
        quote :: rowRest jpInitial jpLast enInitial enLast part segments)) =
      source.length + 4 +
        entryEnd (rowRest jpInitial jpLast enInitial enLast part segments) := by
  have opened : ∃ more, quoted quote
      (untilEn jpInitial jpLast enInitial ++ enLast :: part :: segments) = quote :: more :=
    ⟨_, rfl⟩
  obtain ⟨more, opened⟩ := opened
  have rest : rowRest jpInitial jpLast enInitial enLast part segments =
      commaSep ++ quote :: more := by
    rw [rowRest, opened]
  have shape : colonSep ++ quote :: (source ++ quote :: (commaSep ++ quote :: more)) =
      colonSep ++ quoted quote [source, commaSep] ++ quote :: more := by
    simp [quoted_cons]
  have free : Free quote [source, commaSep] := by
    intro segment member
    simp only [List.mem_cons, List.not_mem_nil, or_false] at member
    rcases member with rfl | rfl
    · exact sourceFree
    · decide
  have absent : srcWord ∉ [source, commaSep] := by
    intro member
    simp only [List.mem_cons, List.not_mem_nil, or_false] at member
    rcases member with same | same
    · exact notSrc same.symm
    · exact absurd same (by decide)
  have words : colonSep.length = 2 ∧ commaSep.length = 2 := by decide
  have skipped := indexOf?_quoted_skip srcWord_free (by decide : quote ∉ colonSep) free absent
    more
  have skippedRest := indexOf?_append_free commaSep_free (srcWord ++ [quote]) (quote :: more)
  unfold entryEnd
  rw [rest, shape, srcToken_eq, skipped]
  change _ = _ + (Search.indexOf? (quote :: (srcWord ++ [quote])) _).getD _
  rw [skippedRest]
  change ((Search.indexOf? (quote :: (srcWord ++ [quote])) (quote :: more)).map _).getD _ = _
  cases Search.indexOf? (quote :: (srcWord ++ [quote])) (quote :: more) with
  | none =>
      simp only [Option.map_none, Option.getD_none, quoted_cons, quoted_nil, List.length_append,
        List.length_cons, List.length_nil, words]
      omega
  | some position =>
      simp only [Option.map_some, Option.getD_some, quoted_cons, quoted_nil,
        List.length_append, List.length_cons, List.length_nil, words]
      omega

theorem loadEntry_row {source : Bytes} (plain : PlainSource source)
    (jpCut : Cut jp jpInitial jpLast) (enCut : Cut en enInitial enLast)
    (follows : Follows part segments) :
    loadEntry (colonSep ++ quote :: (source ++
        quote :: rowRest jpInitial jpLast enInitial enLast part segments))
      (entryEnd (colonSep ++ quote :: (source ++
        quote :: rowRest jpInitial jpLast enInitial enLast part segments))) =
      rowReading source jp en := by
  by_cases noBytes : hexBytes source = []
  · rw [loadEntry_of_not_hex _ (by decide) plain noBytes]
    simp [rowReading, noBytes]
  · have notSrc : source ≠ srcWord := by
      rintro rfl
      exact noBytes (by decide)
    have words : colonSep.length = 2 := by decide
    have opening : Search.indexOf? [quote] (colonSep ++ quote :: (source ++
        quote :: rowRest jpInitial jpLast enInitial enLast part segments)) = some 2 :=
      indexOf?_quote (by decide) _
    have value : (colonSep ++ quote :: (source ++
        quote :: rowRest jpInitial jpLast enInitial enLast part segments)).drop 2 =
          quote :: (source ++
            quote :: rowRest jpInitial jpLast enInitial enLast part segments) := by
      rw [← words, List.drop_left]
    have stop : entryEnd (rowRest jpInitial jpLast enInitial enLast part segments) =
        source.length + 4 + entryEnd (rowRest jpInitial jpLast enInitial enLast part segments) -
          ((colonSep ++ quote :: (source ++
            quote :: rowRest jpInitial jpLast enInitial enLast part segments)).length -
              (rowRest jpInitial jpLast enInitial enLast part segments).length) := by
      simp only [List.length_append, List.length_cons, words]
      omega
    have target := readTarget_row jpCut enCut follows
    have origW := jsonReadInt_row fieldWord_origW (by decide) (by decide) jpCut enCut follows (-1)
    have fitW := jsonReadInt_row fieldWord_fitW (by decide) (by decide) jpCut enCut follows (-1)
    simp only [jpCut.last_eq_iff fieldWord_src, jpCut.last_eq_iff fieldWord_target] at target
    unfold loadEntry
    rw [opening, entryEnd_behind_source plain.free notSrc]
    simp only [value, jsonReadString, if_true, readQuoted_plain plain]
    rw [if_neg (by omega), ← stop, target, origW, fitW]
    rfl

/-! ### Passing a row -/

/-- The loop goes past a segment, reading nothing even if it is `src_hex`. -/
theorem loadEntries_pass {front next : Bytes} {before after : List Bytes}
    (frontFree : quote ∉ front) (free : Free quote before) (absent : srcWord ∉ before)
    (wordFree : quote ∉ word) (nextFree : quote ∉ next) (notNext : next ≠ srcWord)
    (nothing : loadEntry (next ++ quoted quote after)
      (entryEnd (next ++ quoted quote after)) = none) :
    loadEntries (front ++ quoted quote (before ++ word :: next :: after)) =
      loadEntries (next ++ quoted quote after) := by
  by_cases isSrc : word = srcWord
  · subst isSrc
    have emptyFree : quote ∉ ([] : Bytes) := by simp
    rw [loadEntries_skip frontFree emptyFree free absent, loadEntries_word emptyFree, nothing]
    rfl
  · have shape : before ++ word :: next :: after = (before ++ [word, next]) ++ after := by
      simp
    rw [shape]
    apply loadEntries_skip frontFree nextFree
    · intro segment member
      simp only [List.mem_append, List.mem_cons, List.not_mem_nil, or_false] at member
      rcases member with inBefore | rfl | rfl
      · exact free segment inBefore
      · exact wordFree
      · exact nextFree
    · intro member
      simp only [List.mem_append, List.mem_cons, List.not_mem_nil, or_false] at member
      rcases member with inBefore | same | same
      · exact absent inBefore
      · exact isSrc same.symm
      · exact notNext same.symm

/-- Between rows there is no entry. -/
theorem loadEntry_follows (follows : Follows part segments) :
    loadEntry (part ++ quoted quote segments) (entryEnd (part ++ quoted quote segments)) =
      none := by
  unfold loadEntry
  rcases follows.next with rfl | ⟨segment, more, rfl⟩
  · rw [quoted_nil, List.append_nil, indexOf?_quote_none follows.free]
  · have ends : entryEnd (part ++ quoted quote (srcWord :: segment :: more)) = part.length := by
      have noWord : srcWord ∉ ([] : List Bytes) := by simp
      have found : Search.indexOf? (token quote srcWord)
          (part ++ quoted quote ([] ++ srcWord :: segment :: more)) = _ :=
        (indexOf?_segments srcWord_free follows.free
          (fun _ impossible => by cases impossible) noWord).1
      unfold entryEnd
      rw [srcToken_eq]
      rw [List.nil_append] at found
      rw [found, quoted_nil, List.append_nil]
      rfl
    have opening : Search.indexOf? [quote] (part ++ quoted quote (srcWord :: segment :: more)) =
        some part.length :=
      indexOf?_quote follows.free _
    rw [opening, ends]
    simp

theorem Follows.not_srcWord (follows : Follows part segments) : part ≠ srcWord := by
  intro same
  exact fieldWord_src.noBlank (same ▸ follows.blank)

/-- A row adds its reading. -/
theorem loadEntries_row {front source : Bytes} (frontFree : quote ∉ front)
    (plain : PlainSource source) (jpCut : Cut jp jpInitial jpLast)
    (enCut : Cut en enInitial enLast) (follows : Follows part segments) :
    loadEntries (front ++ quoted quote (srcWord :: colonSep :: source :: commaSep ::
        (untilEn jpInitial jpLast enInitial ++ enLast :: part :: segments))) =
      (rowReading source jp en).toList ++ loadEntries (part ++ quoted quote segments) := by
  have body : colonSep ++ quoted quote (source :: commaSep ::
      (untilEn jpInitial jpLast enInitial ++ enLast :: part :: segments)) =
        colonSep ++ quote :: (source ++
          quote :: rowRest jpInitial jpLast enInitial enLast part segments) := by
    simp [quoted_cons, rowRest]
  -- Behind the source string, then behind the Japanese text, then behind the English.
  have pastSource : loadEntries (colonSep ++ quoted quote ([] ++ source :: commaSep ::
      (untilEn jpInitial jpLast enInitial ++ enLast :: part :: segments))) =
        loadEntries (commaSep ++ quoted quote
          (untilEn jpInitial jpLast enInitial ++ enLast :: part :: segments)) := by
    apply loadEntries_pass (by decide) (fun _ impossible => by cases impossible) (by simp)
      plain.free (by decide) (by decide)
    have jpPlain : ∀ byte ∈ jpWord, byte ≠ quote ∧ byte ≠ backslash :=
      List.all_iff_forall_prop.mp (by decide)
    exact loadEntry_of_not_hex _ commaSep_free jpPlain (by decide)
  have pastJp : loadEntries (commaSep ++ quoted quote
      (untilJp jpInitial ++ jpLast :: commaSep ::
        (targetWord :: colonSep :: enInitial ++ enLast :: part :: segments))) =
        loadEntries (commaSep ++ quoted quote
          (targetWord :: colonSep :: enInitial ++ enLast :: part :: segments)) := by
    apply loadEntries_pass commaSep_free (free_untilJp jpCut)
      (not_mem_untilJp fieldWord_src jpCut) jpCut.lastFree (by decide) (by decide)
    have targetPlain : ∀ byte ∈ targetWord, byte ≠ quote ∧ byte ≠ backslash :=
      List.all_iff_forall_prop.mp (by decide)
    exact loadEntry_of_not_hex _ commaSep_free targetPlain (by decide)
  have pastEn : loadEntries (commaSep ++ quoted quote
      (targetWord :: colonSep :: enInitial ++ enLast :: part :: segments)) =
        loadEntries (part ++ quoted quote segments) := by
    apply loadEntries_pass commaSep_free _ _ enCut.lastFree follows.free follows.not_srcWord
      (loadEntry_follows follows)
    · intro segment member
      simp only [List.mem_cons] at member
      rcases member with rfl | rfl | inInitial
      · decide
      · decide
      · exact enCut.initialFree segment inInitial
    · intro member
      simp only [List.mem_cons] at member
      rcases member with same | same | inInitial
      · exact absurd same (by decide)
      · exact absurd same (by decide)
      · exact not_mem_of_plainWord fieldWord_src.plain (enCut.escapes _ inInitial)
  have regroup : untilEn jpInitial jpLast enInitial ++ enLast :: part :: segments =
      untilJp jpInitial ++ jpLast :: commaSep ::
        (targetWord :: colonSep :: enInitial ++ enLast :: part :: segments) := by
    simp [untilEn]
  rw [loadEntries_word frontFree, body, loadEntry_row plain jpCut enCut follows, ← body]
  rw [List.nil_append] at pastSource
  rw [pastSource, regroup, pastJp, pastEn]

end Row

end StadiumRecomp.Translate
