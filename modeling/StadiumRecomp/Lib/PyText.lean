import StadiumRecomp.Lib.PyInt

/-!
Contract: how Python reads text files.

Owns: universal newline translation, iteration over a file's lines,
`str.splitlines`, the `#`-comment line discipline shared by hand-kept side
files, and the laws that a file written one plain line at a time reads back as
those lines.

Does not own: the meaning of any line.
-/

set_option autoImplicit false

namespace StadiumRecomp.Lib.PyText

open StadiumRecomp.Lib
open StadiumRecomp.Lib.PyInt

/-- Text-mode reading turns `\r\n` and `\r` into `\n`. -/
def universalNewlines : Text → Text
  | '\r' :: '\n' :: rest => '\n' :: universalNewlines rest
  | '\r' :: rest => '\n' :: universalNewlines rest
  | symbol :: rest => symbol :: universalNewlines rest
  | [] => []

/-- The only line break of file iteration, once newlines are translated. -/
def isNewline (symbol : Char) : Bool := symbol == '\n'

/-- The single-character line boundaries of `str.splitlines`. -/
def isLineBoundary (symbol : Char) : Bool :=
  let code := symbol.toNat
  (10 ≤ code && code ≤ 13) || (28 ≤ code && code ≤ 30) || code == 0x85 ||
    code == 0x2028 || code == 0x2029

/-- `for line in open(path)`, without the line terminators. -/
def fileLines (file : Text) : List Text :=
  Text.linesBy isNewline (universalNewlines file)

/-- `text.splitlines()` for a text without `\r`. -/
def splitlines (text : Text) : List Text := Text.linesBy isLineBoundary text

/-- `\s+` at the front of a text, with what follows. -/
def spaces (text : Text) : Option Text :=
  if (text.takeWhile pySpace).isEmpty then none else some (text.dropWhile pySpace)

def isHash (symbol : Char) : Bool := symbol == '#'

/-- `line.split("#", 1)[0].strip()`. -/
def stripComment (line : Text) : Text :=
  Text.strip pySpace (Text.cutAt isHash line)

/-- The lines of a side file that are left after comments and blanks. -/
def dataLines (file : Text) : List Text :=
  ((fileLines file).map stripComment).filter (fun line => !line.isEmpty)

theorem universalNewlines_eq_self {file : Text}
    (plain : ∀ symbol ∈ file, symbol ≠ '\r') : universalNewlines file = file := by
  induction file with
  | nil => rfl
  | cons symbol rest inductionHypothesis =>
      have headPlain := plain symbol (by simp)
      have tail := inductionHypothesis
        (fun other member => plain other (by simp [member]))
      rw [universalNewlines.eq_3]
      · rw [tail]
      · intro others equal
        exact absurd equal headPlain
      · intro equal
        exact absurd equal headPlain

/-- A front without carriage returns is read as it stands. -/
theorem universalNewlines_append {front : Text} (plain : '\r' ∉ front) (rest : Text) :
    universalNewlines (front ++ rest) = front ++ universalNewlines rest := by
  induction front with
  | nil => rfl
  | cons symbol front inductionHypothesis =>
      have headPlain : symbol ≠ '\r' := fun same => plain (same ▸ List.mem_cons_self)
      have tail := inductionHypothesis (fun member => plain (List.mem_cons_of_mem _ member))
      rw [List.cons_append, universalNewlines.eq_3, tail]
      · rfl
      · intro others equal
        exact absurd equal headPlain
      · intro equal
        exact absurd equal headPlain

/-- Only a line feed can join what was read before it. -/
theorem universalNewlines_append_cons (front : Text) {symbol : Char} (plain : symbol ≠ '\n')
    (rest : Text) : universalNewlines (front ++ symbol :: rest) =
      universalNewlines front ++ universalNewlines (symbol :: rest) := by
  fun_induction universalNewlines front with
  | case1 front inductionHypothesis =>
      exact congrArg ('\n' :: ·) inductionHypothesis
  | case2 front notFeed inductionHypothesis =>
      have split : universalNewlines ('\r' :: (front ++ symbol :: rest)) =
          '\n' :: universalNewlines (front ++ symbol :: rest) := by
        apply universalNewlines.eq_2
        intro others same
        cases front with
        | nil => exact plain (List.cons.inj same).1
        | cons head front => exact notFeed front (by rw [(List.cons.inj same).1])
      exact split.trans (congrArg ('\n' :: ·) inductionHypothesis)
  | case3 head front notBreak notReturn inductionHypothesis =>
      have split : universalNewlines (head :: (front ++ symbol :: rest)) =
          head :: universalNewlines (front ++ symbol :: rest) := by
        apply universalNewlines.eq_3
        · intro others isReturn _
          exact notReturn isReturn
        · exact notReturn
      exact split.trans (congrArg (head :: ·) inductionHypothesis)
  | case4 => rfl

/-- Nothing reaches over a line feed. -/
theorem universalNewlines_append_feed (front : Text) : ∃ read, ∀ rest : Text,
    universalNewlines (front ++ '\n' :: rest) = read ++ '\n' :: universalNewlines rest := by
  fun_induction universalNewlines front with
  | case1 front inductionHypothesis =>
      obtain ⟨read, split⟩ := inductionHypothesis
      exact ⟨'\n' :: read, fun rest => congrArg ('\n' :: ·) (split rest)⟩
  | case2 front notFeed inductionHypothesis =>
      obtain ⟨read, split⟩ := inductionHypothesis
      cases front with
      | nil => exact ⟨[], fun rest => rfl⟩
      | cons head front =>
          refine ⟨'\n' :: read, fun rest => ?_⟩
          refine Eq.trans ?_ (congrArg ('\n' :: ·) (split rest))
          apply universalNewlines.eq_2
          intro others same
          exact notFeed front (by rw [(List.cons.inj same).1])
  | case3 head front notBreak notReturn inductionHypothesis =>
      obtain ⟨read, split⟩ := inductionHypothesis
      refine ⟨head :: read, fun rest => ?_⟩
      refine Eq.trans ?_ (congrArg (head :: ·) (split rest))
      apply universalNewlines.eq_3
      · intro others isReturn _
        exact notReturn isReturn
      · exact notReturn
  | case4 => exact ⟨[], fun rest => rfl⟩

/-- What is read contains no carriage return. -/
theorem not_mem_universalNewlines (file : Text) : '\r' ∉ universalNewlines file := by
  fun_induction universalNewlines file with
  | case1 rest inductionHypothesis =>
      simpa using inductionHypothesis
  | case2 rest _ inductionHypothesis =>
      simpa using inductionHypothesis
  | case3 symbol rest notBreak notReturn inductionHypothesis =>
      simp only [List.mem_cons, not_or]
      exact ⟨fun same => notReturn same.symm, inductionHypothesis⟩
  | case4 => simp

/-- Reading changes line breaks only. -/
theorem mem_universalNewlines_iff {file : Text} {symbol : Char} (notReturn : symbol ≠ '\r')
    (notFeed : symbol ≠ '\n') : symbol ∈ universalNewlines file ↔ symbol ∈ file := by
  fun_induction universalNewlines file with
  | case1 rest inductionHypothesis => simp [inductionHypothesis, notReturn, notFeed]
  | case2 rest _ inductionHypothesis => simp [inductionHypothesis, notReturn, notFeed]
  | case3 head rest _ _ inductionHypothesis => simp [inductionHypothesis]
  | case4 => rfl

/-- A text read twice reads as it did the first time. -/
theorem universalNewlines_idem (file : Text) :
    universalNewlines (universalNewlines file) = universalNewlines file :=
  universalNewlines_eq_self fun _ member same =>
    not_mem_universalNewlines file (same ▸ member)

/-- A file written one line at a time, with no carriage return, iterates over
those lines. -/
theorem fileLines_unlines (lines : List Text)
    (oneLine : ∀ line ∈ lines, ∀ symbol ∈ line, symbol ≠ '\n' ∧ symbol ≠ '\r') :
    fileLines (Text.unlines '\n' lines) = lines := by
  unfold fileLines
  rw [universalNewlines_eq_self]
  · apply Text.linesBy_unlines rfl
    intro line member symbol inside
    simp [isNewline, (oneLine line member symbol inside).1]
  · intro symbol member
    simp only [Text.unlines, List.mem_flatMap, List.mem_append,
      List.mem_singleton] at member
    obtain ⟨line, lineMember, inside | rfl⟩ := member
    · exact (oneLine line lineMember symbol inside).2
    · decide

private theorem exists_lines (text : Text) : ∃ lines last,
    (∀ rest, Text.linesBy isNewline (text ++ rest) =
      lines ++ Text.linesBy isNewline (last ++ rest)) ∧ Text.OneLine isNewline last := by
  have only : ∀ symbol ∈ text, isNewline symbol = true → symbol = '\n' :=
    fun symbol _ breaks => by simpa [isNewline] using breaks
  obtain ⟨lines, last, rfl, oneLine, lastOneLine⟩ := Text.exists_unlines_append text only
  refine ⟨lines, last, fun rest => ?_, lastOneLine⟩
  rw [List.append_assoc, Text.linesBy_unlines_append rfl lines oneLine]

/-- A file is read one terminated part after the other. -/
theorem fileLines_append_feed (front rest : Text) :
    fileLines (front ++ '\n' :: rest) = fileLines (front ++ ['\n']) ++ fileLines rest := by
  obtain ⟨read, split⟩ := universalNewlines_append_feed front
  obtain ⟨lines, last, linesSplit, oneLine⟩ := exists_lines read
  have feed : ∀ more : Text, fileLines (front ++ '\n' :: more) =
      lines ++ last :: fileLines more := by
    intro more
    unfold fileLines
    rw [split, linesSplit, Text.linesBy_append_break oneLine rfl]
  show fileLines (front ++ '\n' :: rest) = fileLines (front ++ '\n' :: []) ++ fileLines rest
  rw [feed rest, feed [], List.append_assoc]
  rfl

/-- The lines of a file, the last one left open for what may follow. -/
theorem exists_fileLines (file : Text) : ∃ lines last,
    fileLines file = lines ++ Text.linesBy isNewline last ∧ Text.OneLine isNewline last ∧
      ∀ symbol rest, symbol ≠ '\n' → fileLines (file ++ symbol :: rest) =
        lines ++ Text.linesBy isNewline (last ++ universalNewlines (symbol :: rest)) := by
  obtain ⟨lines, last, split, oneLine⟩ := exists_lines (universalNewlines file)
  have whole := split []
  rw [List.append_nil, List.append_nil] at whole
  refine ⟨lines, last, whole, oneLine, fun symbol rest plain => ?_⟩
  unfold fileLines
  rw [universalNewlines_append_cons file plain, split]

/-- A comment line leaves no data. -/
theorem stripComment_comment (rest : Text) : stripComment ('#' :: rest) = [] := rfl

/-- A line without `#` whose ends are not blank is its own data. -/
theorem stripComment_eq_self {line : Text}
    (noHash : ∀ symbol ∈ line, isHash symbol = false)
    (headPlain : ∀ symbol ∈ line.head?, pySpace symbol = false)
    (lastPlain : ∀ symbol ∈ line.getLast?, pySpace symbol = false) :
    stripComment line = line := by
  unfold stripComment
  rw [Text.cutAt_eq_self noHash]
  exact Text.strip_eq_self headPlain lastPlain

/-- A written side file, header comments first, reads back as its data lines. -/
theorem dataLines_written (header lines : List Text)
    (headerComment : ∀ line ∈ header, ∃ rest, line = '#' :: rest)
    (oneLine : ∀ line ∈ header ++ lines, ∀ symbol ∈ line,
      symbol ≠ '\n' ∧ symbol ≠ '\r')
    (nonempty : ∀ line ∈ lines, line ≠ [])
    (isData : ∀ line ∈ lines, stripComment line = line) :
    dataLines (Text.unlines '\n' (header ++ lines)) = lines := by
  unfold dataLines
  rw [fileLines_unlines _ oneLine, List.map_append, List.filter_append]
  have noHeader : (header.map stripComment).filter (fun line => !line.isEmpty) = [] := by
    rw [List.filter_eq_nil_iff]
    intro line member
    obtain ⟨original, originalMember, rfl⟩ := List.mem_map.mp member
    obtain ⟨rest, rfl⟩ := headerComment original originalMember
    simp [stripComment_comment]
  have allData : lines.map stripComment = lines := by
    conv_rhs => rw [← List.map_id lines]
    exact List.map_congr_left (fun line member => isData line member)
  rw [noHeader, allData, List.nil_append, List.filter_eq_self]
  intro line member
  simpa using nonempty line member

/-- A comment may be appended to any file, also behind an open last line. -/
theorem dataLines_append_comment (file rest : Text) :
    dataLines (file ++ '#' :: rest) = dataLines file ++ dataLines ('#' :: rest) := by
  obtain ⟨lines, last, whole, oneLine, split⟩ := exists_fileLines file
  have comment : ∃ line others, fileLines ('#' :: rest) = ('#' :: line) :: others := by
    have read : universalNewlines ('#' :: rest) = '#' :: universalNewlines rest := rfl
    unfold fileLines
    rw [read, Text.linesBy, if_neg (by decide)]
    cases Text.linesBy isNewline (universalNewlines rest) with
    | nil => exact ⟨[], [], rfl⟩
    | cons line others => exact ⟨line, others, rfl⟩
  obtain ⟨line, others, commentLines⟩ := comment
  have joined : stripComment (last ++ '#' :: line) = stripComment last := by
    unfold stripComment Text.cutAt
    rw [Text.takeWhile_append_stop rfl]
  have lastData : ((Text.linesBy isNewline last).map stripComment).filter (!·.isEmpty) =
      [stripComment last].filter (!·.isEmpty) := by
    by_cases empty : last = []
    · rw [empty]
      rfl
    · rw [Text.linesBy_oneLine oneLine empty]
      rfl
  unfold dataLines
  rw [split '#' rest (by decide), Text.linesBy_append_of_cons oneLine commentLines, whole,
    commentLines]
  rw [List.map_append, List.map_append, List.filter_append, List.filter_append, lastData,
    List.append_assoc, List.map_cons, List.map_cons, joined, stripComment_comment]
  show _ ++ ([stripComment last] ++ others.map stripComment).filter (!·.isEmpty) =
    _ ++ (_ ++ (others.map stripComment).filter (!·.isEmpty))
  rw [List.filter_append]

/-- A line feed behind a file ends its last line, or belongs to a carriage return there. -/
theorem universalNewlines_append_last_feed (file : Text) :
    universalNewlines (file ++ ['\n']) = universalNewlines file ∨
      universalNewlines (file ++ ['\n']) = universalNewlines file ++ ['\n'] := by
  fun_induction universalNewlines file with
  | case1 rest inductionHypothesis =>
      exact inductionHypothesis.imp (congrArg ('\n' :: ·)) (congrArg ('\n' :: ·))
  | case2 rest notFeed inductionHypothesis =>
      cases rest with
      | nil => exact Or.inl rfl
      | cons symbol rest =>
          have plain : symbol ≠ '\n' := fun same => notFeed rest (by rw [same])
          have split : universalNewlines ('\r' :: (symbol :: rest ++ ['\n'])) =
              '\n' :: universalNewlines (symbol :: rest ++ ['\n']) := by
            rw [universalNewlines.eq_2]
            exact fun other same => plain (List.cons.inj same).1
          rw [List.cons_append, split]
          exact inductionHypothesis.imp (congrArg ('\n' :: ·)) (congrArg ('\n' :: ·))
  | case3 symbol rest notBreak notReturn inductionHypothesis =>
      have split : universalNewlines (symbol :: (rest ++ ['\n'])) =
          symbol :: universalNewlines (rest ++ ['\n']) := by
        rw [universalNewlines.eq_3]
        · exact fun other same => absurd same notReturn
        · exact notReturn
      rw [List.cons_append, split]
      exact inductionHypothesis.imp (congrArg (symbol :: ·)) (congrArg (symbol :: ·))
  | case4 => exact Or.inr rfl

/-- Whatever a file ends in, what is appended behind a line feed is read as lines of its own. -/
theorem dataLines_append_feed (file rest : Text) :
    dataLines (file ++ '\n' :: rest) = dataLines file ++ dataLines rest := by
  have ended : dataLines (file ++ ['\n']) = dataLines file := by
    unfold dataLines fileLines
    rcases universalNewlines_append_last_feed file with same | same
    · rw [same]
    · obtain ⟨lines, last, split, oneLine⟩ := exists_lines (universalNewlines file)
      have whole := split []
      rw [List.append_nil, List.append_nil] at whole
      rw [same, split, whole, Text.linesBy_append_break oneLine rfl]
      by_cases empty : last = []
      · rw [empty]
        simp [Text.linesBy, stripComment, Text.cutAt, Text.strip_nil]
      · rw [Text.linesBy_oneLine oneLine empty]
        rfl
  have behind : dataLines (file ++ '\n' :: rest) =
      dataLines (file ++ ['\n']) ++ dataLines rest := by
    unfold dataLines
    rw [fileLines_append_feed, List.map_append, List.filter_append]
  rw [behind, ended]

/-! ## Whole texts -/

/-- A blank is every line boundary, among others. -/
theorem isLineBoundary_of_not_pySpace {symbol : Char} (plain : pySpace symbol = false) :
    isLineBoundary symbol = false := by
  unfold pySpace at plain
  unfold isLineBoundary
  generalize symbol.toNat = code at plain ⊢
  simp only [Bool.or_eq_false_iff, Bool.and_eq_false_iff, decide_eq_false_iff_not,
    beq_eq_false_iff_ne] at plain ⊢
  omega

/-- `read_text().splitlines()` of a text that was written one plain line at a time. -/
theorem splitlines_unlines {lines : List Text}
    (plain : ∀ line ∈ lines, Text.OneLine isLineBoundary line) :
    splitlines (universalNewlines (Text.unlines '\n' lines)) = lines := by
  rw [universalNewlines_eq_self]
  · exact Text.linesBy_unlines rfl lines plain
  · intro symbol member
    obtain ⟨line, inLines, inLine⟩ := List.mem_flatMap.mp member
    rcases List.mem_append.mp inLine with inside | last
    · rintro rfl
      exact absurd (plain line inLines _ inside) (by decide)
    · rw [List.mem_singleton.mp last]
      decide

end StadiumRecomp.Lib.PyText
