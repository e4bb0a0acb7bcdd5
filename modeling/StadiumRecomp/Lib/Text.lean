import Mathlib.Data.List.DropRight
import Mathlib.Data.Char
import Mathlib.Data.Bool.AllAny

/-!
Contract: line- and word-level text tools shared by every text format.

Owns: splitting into lines, cutting a comment off, trimming both ends,
splitting at the first separator, splitting into words, and the laws that
undo a writer: a text written line by line splits back into those lines.

Does not own: any grammar. Which characters break lines, count as blanks or
open a comment is a parameter of each tool.
-/

set_option autoImplicit false

namespace StadiumRecomp.Lib

/-- Program text, one Unicode scalar value per element. -/
abbrev Text := List Char

namespace Text

/-- An ASCII literal. -/
def ascii (literal : String) : Text :=
  literal.toUTF8.data.toList.map (fun byte => Char.ofNat byte.toNat)

variable {α : Type}

/-! ## Lines -/

/-- The lines of a text. A line break is not part of its line, and a final
break opens no further line. -/
def linesBy (isBreak : α → Bool) : List α → List (List α)
  | [] => []
  | symbol :: rest =>
      if isBreak symbol then [] :: linesBy isBreak rest
      else
        match linesBy isBreak rest with
        | [] => [[symbol]]
        | line :: lines => (symbol :: line) :: lines

/-- The lines that a break ends; what stands behind the last break is none. -/
def endedLines (isBreak : α → Bool) : List α → List (List α)
  | [] => []
  | symbol :: rest =>
      if isBreak symbol then [] :: endedLines isBreak rest
      else
        match endedLines isBreak rest with
        | [] => []
        | line :: lines => (symbol :: line) :: lines

/-- Every line followed by one break. -/
def unlines (lineBreak : α) (lines : List (List α)) : List α :=
  lines.flatMap (fun line => line ++ [lineBreak])

/-- No element of `line` breaks lines. -/
def OneLine (isBreak : α → Bool) (line : List α) : Prop :=
  ∀ symbol ∈ line, isBreak symbol = false

instance (isBreak : α → Bool) (line : List α) : Decidable (OneLine isBreak line) :=
  decidable_of_iff _ List.all_iff_forall_prop

section Lines

variable {isBreak : α → Bool}

theorem endedLines_append_break {line : List α} (oneLine : OneLine isBreak line)
    {lineBreak : α} (breaks : isBreak lineBreak = true) (rest : List α) :
    endedLines isBreak (line ++ lineBreak :: rest) = line :: endedLines isBreak rest := by
  induction line with
  | nil =>
      rw [List.nil_append, endedLines, if_pos breaks]
  | cons symbol line inductionHypothesis =>
      have plain := oneLine symbol List.mem_cons_self
      rw [List.cons_append, endedLines, plain,
        inductionHypothesis (fun other member => oneLine other (List.mem_cons_of_mem _ member))]
      rfl

theorem endedLines_oneLine {line : List α} (oneLine : OneLine isBreak line) :
    endedLines isBreak line = [] := by
  induction line with
  | nil => rfl
  | cons symbol line inductionHypothesis =>
      have plain := oneLine symbol List.mem_cons_self
      rw [endedLines, plain,
        inductionHypothesis (fun other member => oneLine other (List.mem_cons_of_mem _ member))]
      rfl

theorem endedLines_unlines_append {lineBreak : α} (breaks : isBreak lineBreak = true)
    {lines : List (List α)} (oneLine : ∀ line ∈ lines, OneLine isBreak line) {tail : List α}
    (tailLine : OneLine isBreak tail) :
    endedLines isBreak (unlines lineBreak lines ++ tail) = lines := by
  induction lines with
  | nil => exact endedLines_oneLine tailLine
  | cons line lines inductionHypothesis =>
      have shape : unlines lineBreak (line :: lines) ++ tail =
          line ++ lineBreak :: (unlines lineBreak lines ++ tail) := by
        unfold unlines
        rw [List.flatMap_cons, List.append_assoc, List.append_assoc]
        rfl
      rw [shape, endedLines_append_break (oneLine line List.mem_cons_self) breaks,
        inductionHypothesis (fun other member => oneLine other (List.mem_cons_of_mem _ member))]

theorem linesBy_append_break {line : List α} (oneLine : OneLine isBreak line)
    {lineBreak : α} (breaks : isBreak lineBreak = true) (rest : List α) :
    linesBy isBreak (line ++ lineBreak :: rest) =
      line :: linesBy isBreak rest := by
  induction line with
  | nil => simp [linesBy, breaks]
  | cons symbol line inductionHypothesis =>
      have headPlain := oneLine symbol (by simp)
      have tailOneLine : OneLine isBreak line := fun other member =>
        oneLine other (by simp [member])
      simp [linesBy, headPlain, inductionHypothesis tailOneLine]

/-- A break behind a text ends its last line, whatever follows. -/
theorem linesBy_append_ended {lineBreak : α} (breaks : isBreak lineBreak = true)
    (text rest : List α) :
    linesBy isBreak (text ++ lineBreak :: rest) =
      linesBy isBreak (text ++ [lineBreak]) ++ linesBy isBreak rest := by
  induction text with
  | nil => simp [linesBy, breaks]
  | cons symbol text inductionHypothesis =>
      rw [List.cons_append, List.cons_append, linesBy, linesBy, inductionHypothesis]
      split
      next => rfl
      next =>
        have nonempty : linesBy isBreak (text ++ [lineBreak]) ≠ [] := by
          cases text with
          | nil => simp [linesBy, breaks]
          | cons head text =>
              rw [List.cons_append, linesBy]
              split
              next => exact List.cons_ne_nil _ _
              next => split <;> exact List.cons_ne_nil _ _
        obtain ⟨line, lines, split⟩ := List.exists_cons_of_ne_nil nonempty
        rw [split]
        rfl

theorem linesBy_oneLine {line : List α} (oneLine : OneLine isBreak line)
    (nonempty : line ≠ []) : linesBy isBreak line = [line] := by
  induction line with
  | nil => exact absurd rfl nonempty
  | cons symbol line inductionHypothesis =>
      have headPlain := oneLine symbol (by simp)
      have tailOneLine : OneLine isBreak line := fun other member =>
        oneLine other (by simp [member])
      cases line with
      | nil => simp [linesBy, headPlain]
      | cons next line =>
          have tail := inductionHypothesis tailOneLine (by simp)
          simp only [linesBy, headPlain, Bool.false_eq_true, if_false] at tail ⊢
          rw [tail]

/-- Reading back a text that was written one terminated line at a time, with
anything after it. -/
theorem linesBy_unlines_append {lineBreak : α}
    (breaks : isBreak lineBreak = true) (lines : List (List α))
    (oneLine : ∀ line ∈ lines, OneLine isBreak line) (rest : List α) :
    linesBy isBreak (unlines lineBreak lines ++ rest) =
      lines ++ linesBy isBreak rest := by
  induction lines with
  | nil => simp [unlines]
  | cons line lines inductionHypothesis =>
      have tail := inductionHypothesis (fun other member =>
        oneLine other (by simp [member]))
      have unfolded : unlines lineBreak (line :: lines) ++ rest =
          line ++ lineBreak :: (unlines lineBreak lines ++ rest) := by
        simp [unlines]
      rw [unfolded, linesBy_append_break (oneLine line (by simp)) breaks, tail]
      rfl

theorem linesBy_unlines {lineBreak : α} (breaks : isBreak lineBreak = true)
    (lines : List (List α))
    (oneLine : ∀ line ∈ lines, OneLine isBreak line) :
    linesBy isBreak (unlines lineBreak lines) = lines := by
  have whole := linesBy_unlines_append breaks lines oneLine []
  simpa [linesBy] using whole

/-- Lines never contain a break. -/
theorem oneLine_of_mem_linesBy {text line : List α}
    (member : line ∈ linesBy isBreak text) : OneLine isBreak line := by
  induction text generalizing line with
  | nil => simp [linesBy] at member
  | cons symbol rest inductionHypothesis =>
      by_cases breaks : isBreak symbol = true
      · simp only [linesBy, breaks, if_true, List.mem_cons] at member
        rcases member with rfl | member
        · intro other impossible
          simp at impossible
        · exact inductionHypothesis member
      · have plain : isBreak symbol = false := by simpa using breaks
        simp only [linesBy, plain, Bool.false_eq_true, if_false] at member
        split at member
        next noLines =>
          simp only [List.mem_singleton] at member
          subst member
          intro other inside
          simp only [List.mem_singleton] at inside
          rw [inside]
          exact plain
        next first others found =>
          rcases List.mem_cons.mp member with rfl | member
          · have firstMember : first ∈ linesBy isBreak rest := by rw [found]; simp
            have firstOneLine := inductionHypothesis firstMember
            intro other inside
            rcases List.mem_cons.mp inside with rfl | inside
            · exact plain
            · exact firstOneLine other inside
          · exact inductionHypothesis (by rw [found]; simp [member])

/-- No symbol of a line is lost or invented. -/
theorem mem_of_mem_linesBy {text line : List α} {symbol : α}
    (member : line ∈ linesBy isBreak text) (inside : symbol ∈ line) :
    symbol ∈ text := by
  induction text generalizing line with
  | nil => simp [linesBy] at member
  | cons head rest inductionHypothesis =>
      by_cases breaks : isBreak head = true
      · simp only [linesBy, breaks, if_true, List.mem_cons] at member
        rcases member with rfl | member
        · simp at inside
        · exact List.mem_cons_of_mem _ (inductionHypothesis member inside)
      · simp only [linesBy, breaks, Bool.false_eq_true, if_false] at member
        split at member
        next noLines =>
          simp only [List.mem_singleton] at member
          subst member
          simp only [List.mem_singleton] at inside
          simp [inside]
        next first others found =>
          rcases List.mem_cons.mp member with rfl | member
          · rcases List.mem_cons.mp inside with rfl | inside
            · simp
            · have firstMember : first ∈ linesBy isBreak rest := by rw [found]; simp
              exact List.mem_cons_of_mem _ (inductionHypothesis firstMember inside)
          · exact List.mem_cons_of_mem _
              (inductionHypothesis (by rw [found]; simp [member]) inside)

/-- A text whose only break is `lineBreak` is its lines, up to the break behind the
last one. -/
theorem unlines_linesBy {lineBreak : α} {text : List α}
    (only : ∀ symbol ∈ text, isBreak symbol = true → symbol = lineBreak) :
    (unlines lineBreak (linesBy isBreak text) = text ∧
        (text = [] ∨ ∃ front, text = front ++ [lineBreak])) ∨
      unlines lineBreak (linesBy isBreak text) = text ++ [lineBreak] := by
  induction text with
  | nil => exact Or.inl ⟨rfl, Or.inl rfl⟩
  | cons symbol rest inductionHypothesis =>
      have tail := inductionHypothesis
        (fun other member => only other (List.mem_cons_of_mem _ member))
      by_cases breaks : isBreak symbol = true
      · obtain rfl := only symbol List.mem_cons_self breaks
        have first : unlines symbol (linesBy isBreak (symbol :: rest)) =
            symbol :: unlines symbol (linesBy isBreak rest) := by
          simp [linesBy, breaks, unlines]
        rw [first]
        rcases tail with ⟨same, rfl | ⟨front, rfl⟩⟩ | ended
        · exact Or.inl ⟨congrArg (symbol :: ·) same, Or.inr ⟨[], rfl⟩⟩
        · exact Or.inl ⟨congrArg (symbol :: ·) same, Or.inr ⟨symbol :: front, rfl⟩⟩
        · exact Or.inr (congrArg (symbol :: ·) ended)
      · cases lines : linesBy isBreak rest with
        | nil =>
            rw [lines] at tail
            have single : linesBy isBreak (symbol :: rest) = [[symbol]] := by
              simp [linesBy, breaks, lines]
            have restEmpty : rest = [] := by
              rcases tail with ⟨same, _⟩ | ended
              · exact same.symm
              · simp [unlines] at ended
            rw [single, restEmpty]
            exact Or.inr rfl
        | cons line others =>
            rw [lines] at tail
            have first : unlines lineBreak (linesBy isBreak (symbol :: rest)) =
                symbol :: unlines lineBreak (line :: others) := by
              simp [linesBy, breaks, lines, unlines]
            rw [first]
            rcases tail with ⟨same, rfl | ⟨front, rfl⟩⟩ | ended
            · cases lines
            · exact Or.inl ⟨congrArg (symbol :: ·) same, Or.inr ⟨symbol :: front, rfl⟩⟩
            · exact Or.inr (congrArg (symbol :: ·) ended)

/-- Every text is some terminated lines and an open last one. -/
theorem exists_unlines_append {lineBreak : α} (text : List α)
    (only : ∀ symbol ∈ text, isBreak symbol = true → symbol = lineBreak) :
    ∃ lines last, text = unlines lineBreak lines ++ last ∧
      (∀ line ∈ lines, OneLine isBreak line) ∧ OneLine isBreak last := by
  induction text with
  | nil => exact ⟨[], [], rfl, by simp, by simp [OneLine]⟩
  | cons symbol rest inductionHypothesis =>
      obtain ⟨lines, last, rfl, oneLine, lastOneLine⟩ := inductionHypothesis
        (fun other member => only other (List.mem_cons_of_mem _ member))
      by_cases breaks : isBreak symbol = true
      · obtain rfl := only symbol List.mem_cons_self breaks
        refine ⟨[] :: lines, last, rfl, ?_, lastOneLine⟩
        intro line member
        rcases List.mem_cons.mp member with rfl | later
        · exact fun other impossible => absurd impossible List.not_mem_nil
        · exact oneLine line later
      · have headPlain : isBreak symbol = false := by simpa using breaks
        have headed : ∀ line, OneLine isBreak line → OneLine isBreak (symbol :: line) := by
          intro line plain other member
          rcases List.mem_cons.mp member with rfl | later
          · exact headPlain
          · exact plain other later
        cases lines with
        | nil => exact ⟨[], symbol :: last, rfl, by simp, headed last lastOneLine⟩
        | cons line lines =>
            refine ⟨(symbol :: line) :: lines, last, rfl, ?_, lastOneLine⟩
            intro other member
            rcases List.mem_cons.mp member with rfl | later
            · exact headed line (oneLine line List.mem_cons_self)
            · exact oneLine other (List.mem_cons_of_mem _ later)

/-- What stands before a text on one line joins its first line. -/
theorem linesBy_append_of_cons {front text line : List α} {lines : List (List α)}
    (oneLine : OneLine isBreak front) (split : linesBy isBreak text = line :: lines) :
    linesBy isBreak (front ++ text) = (front ++ line) :: lines := by
  induction front with
  | nil => exact split
  | cons symbol front inductionHypothesis =>
      have headPlain := oneLine symbol List.mem_cons_self
      have tail := inductionHypothesis
        (fun other member => oneLine other (List.mem_cons_of_mem _ member))
      rw [List.cons_append, linesBy, headPlain, tail]
      rfl

end Lines

/-! ## Cutting and trimming -/

/-- Everything before the first element satisfying `isComment`. -/
def cutAt (isComment : α → Bool) (line : List α) : List α :=
  line.takeWhile (fun symbol => !isComment symbol)

/-- Drop blanks from both ends. -/
def strip (isBlank : α → Bool) (line : List α) : List α :=
  (line.dropWhile isBlank).rdropWhile isBlank

/-- The parts before and after the first separator, when there is one. -/
def splitFirst (isSeparator : α → Bool) :
    List α → Option (List α × List α)
  | [] => none
  | symbol :: rest =>
      if isSeparator symbol then some ([], rest)
      else (splitFirst isSeparator rest).map
        (fun parts => (symbol :: parts.1, parts.2))

/-- Maximal runs of non-blank elements. -/
def words (isBlank : α → Bool) (line : List α) : List (List α) :=
  (linesBy isBlank line).filter (fun word => !word.isEmpty)

theorem cutAt_eq_self {isComment : α → Bool} {line : List α}
    (absent : ∀ symbol ∈ line, isComment symbol = false) :
    cutAt isComment line = line := by
  unfold cutAt
  rw [List.takeWhile_eq_self_iff]
  intro symbol member
  simp [absent symbol member]

section Stop

variable {p : α → Bool} {symbol : α}

/-- A run that ends at a symbol at the latest does not see what follows it. -/
theorem takeWhile_append_stop (stops : p symbol = false) (text rest : List α) :
    (text ++ symbol :: rest).takeWhile p = text.takeWhile p := by
  induction text with
  | nil => exact List.takeWhile_cons_of_neg (by simp [stops])
  | cons head text inductionHypothesis =>
      rw [List.cons_append, List.takeWhile_cons, List.takeWhile_cons, inductionHypothesis]

theorem dropWhile_append_stop (stops : p symbol = false) (text rest : List α) :
    (text ++ symbol :: rest).dropWhile p = text.dropWhile p ++ symbol :: rest := by
  induction text with
  | nil => exact List.dropWhile_cons_of_neg (by simp [stops])
  | cons head text inductionHypothesis =>
      rw [List.cons_append, List.dropWhile_cons, List.dropWhile_cons]
      by_cases passes : p head = true
      · rw [if_pos passes, if_pos passes, inductionHypothesis]
      · rw [if_neg passes, if_neg passes, List.cons_append]

end Stop

/-- A line is its part before the first comment mark, and the comment if any. -/
theorem cutAt_cases (isComment : α → Bool) (line : List α) :
    line = cutAt isComment line ∨
      ∃ mark rest, isComment mark = true ∧ line = cutAt isComment line ++ mark :: rest := by
  induction line with
  | nil => exact Or.inl rfl
  | cons symbol line inductionHypothesis =>
      unfold cutAt at inductionHypothesis ⊢
      by_cases opens : isComment symbol = true
      · exact Or.inr ⟨symbol, line, opens, by simp [opens]⟩
      · rw [List.takeWhile_cons_of_pos (by simpa using opens)]
        rcases inductionHypothesis with same | ⟨mark, rest, marks, same⟩
        · exact Or.inl (congrArg (symbol :: ·) same)
        · exact Or.inr ⟨mark, rest, marks, congrArg (symbol :: ·) same⟩

theorem mem_cutAt {isComment : α → Bool} {line : List α} {symbol : α}
    (member : symbol ∈ cutAt isComment line) :
    symbol ∈ line ∧ isComment symbol = false := by
  constructor
  · exact (List.takeWhile_prefix _).subset member
  · have holds := List.mem_takeWhile_imp member
    simpa using holds

/-- A cut that changes nothing had nothing to cut. -/
theorem cutAt_eq_self_iff {isComment : α → Bool} {line : List α} :
    cutAt isComment line = line ↔
      ∀ symbol ∈ line, isComment symbol = false := by
  constructor
  · intro same symbol member
    rw [← same] at member
    exact (mem_cutAt member).2
  · exact cutAt_eq_self

theorem strip_eq_self {isBlank : α → Bool} {line : List α}
    (headPlain : ∀ symbol ∈ line.head?, isBlank symbol = false)
    (lastPlain : ∀ symbol ∈ line.getLast?, isBlank symbol = false) :
    strip isBlank line = line := by
  unfold strip
  have noHead : line.dropWhile isBlank = line := by
    cases line with
    | nil => rfl
    | cons symbol rest =>
        have plain := headPlain symbol (by simp)
        simp [plain]
  rw [noHead, List.rdropWhile_eq_self_iff]
  intro nonempty
  have plain := lastPlain (line.getLast nonempty)
    (by simp [List.getLast?_eq_getLast_of_ne_nil nonempty])
  simp [plain]

theorem strip_eq_self_of_forall {isBlank : α → Bool} {line : List α}
    (plain : ∀ symbol ∈ line, isBlank symbol = false) : strip isBlank line = line :=
  strip_eq_self (fun symbol first => plain symbol (List.mem_of_mem_head? first))
    (fun symbol last => plain symbol (List.mem_of_mem_getLast? last))

theorem strip_sublist (isBlank : α → Bool) (line : List α) :
    (strip isBlank line).Sublist line :=
  (List.rdropWhile_prefix _ _).sublist.trans (List.dropWhile_sublist _)

theorem mem_of_mem_strip {isBlank : α → Bool} {line : List α} {symbol : α}
    (member : symbol ∈ strip isBlank line) : symbol ∈ line :=
  (strip_sublist isBlank line).subset member

theorem forall_of_strip_eq_nil {isBlank : α → Bool} {line : List α}
    (empty : strip isBlank line = []) : ∀ symbol ∈ line, isBlank symbol = true := by
  have noneLeft := List.rdropWhile_eq_nil_iff.mp empty
  have allDropped : line.dropWhile isBlank = [] := by
    cases dropped : line.dropWhile isBlank with
    | nil => rfl
    | cons head rest =>
        have headPlain := List.head_dropWhile_not (p := isBlank) (l := line) (by simp [dropped])
        rw [noneLeft _ (List.head_mem _)] at headPlain
        cases headPlain
  exact List.dropWhile_eq_nil_iff.mp allDropped

@[simp] theorem strip_nil (isBlank : α → Bool) :
    strip isBlank ([] : List α) = [] := rfl

/-- The first symbol that survives trimming is not a blank. -/
theorem head_strip {isBlank : α → Bool} {line : List α} {symbol : α}
    (first : symbol ∈ (strip isBlank line).head?) : isBlank symbol = false := by
  unfold strip at first
  cases dropped : line.dropWhile isBlank with
  | nil => rw [dropped] at first; simp at first
  | cons head rest =>
      have headPlain : isBlank head = false := by
        have property := List.head_dropWhile_not (p := isBlank) (l := line) (by simp [dropped])
        simpa [dropped] using property
      rw [dropped] at first
      have isPrefix := List.rdropWhile_prefix isBlank (head :: rest)
      cases kept : (head :: rest).rdropWhile isBlank with
      | nil => rw [kept] at first; simp at first
      | cons keptHead keptRest =>
          rw [kept] at first isPrefix
          simp only [List.head?_cons, Option.mem_def, Option.some.injEq] at first
          have same := (List.cons_prefix_cons.mp isPrefix).1
          rw [← first, same]
          exact headPlain

/-- A line that starts with a plain symbol still does after trimming. -/
theorem strip_cons_head {isBlank : α → Bool} {symbol : α} (plain : isBlank symbol = false)
    (rest : List α) : (strip isBlank (symbol :: rest)).head? = some symbol := by
  unfold strip
  rw [List.dropWhile_cons_of_neg (by simp [plain])]
  have isPrefix := List.rdropWhile_prefix isBlank (symbol :: rest)
  cases kept : (symbol :: rest).rdropWhile isBlank with
  | nil =>
      have blank := (List.rdropWhile_eq_nil_iff.mp kept) symbol List.mem_cons_self
      simp [plain] at blank
  | cons head tail =>
      rw [kept] at isPrefix
      rw [(List.cons_prefix_cons.mp isPrefix).1]
      rfl

/-- The last symbol that survives trimming is not a blank. -/
theorem getLast_strip {isBlank : α → Bool} {line : List α} {symbol : α}
    (last : symbol ∈ (strip isBlank line).getLast?) : isBlank symbol = false := by
  unfold strip at last
  by_cases empty : (line.dropWhile isBlank).rdropWhile isBlank = []
  · rw [empty] at last
    simp at last
  · have property := List.rdropWhile_last_not isBlank (line.dropWhile isBlank) empty
    rw [List.getLast?_eq_getLast_of_ne_nil empty] at last
    simp only [Option.mem_def, Option.some.injEq] at last
    rw [← last]
    simpa using property

/-- Trimming changes nothing exactly when both ends are already plain. -/
theorem strip_eq_self_iff {isBlank : α → Bool} {line : List α} :
    strip isBlank line = line ↔
      (∀ symbol ∈ line.head?, isBlank symbol = false) ∧
        ∀ symbol ∈ line.getLast?, isBlank symbol = false := by
  constructor
  · intro same
    constructor
    · intro symbol first
      rw [← same] at first
      exact head_strip first
    · intro symbol last
      rw [← same] at last
      exact getLast_strip last
  · intro ⟨headPlain, lastPlain⟩
    exact strip_eq_self headPlain lastPlain

/-- Blanks in front do not change what trimming leaves. -/
theorem strip_append_left {isBlank : α → Bool} {blanks : List α}
    (blank : ∀ symbol ∈ blanks, isBlank symbol = true) (line : List α) :
    strip isBlank (blanks ++ line) = strip isBlank line := by
  unfold strip
  rw [List.dropWhile_append_of_pos blank]

/-- Blanks behind do not change what trimming leaves. -/
theorem strip_append_right {isBlank : α → Bool} {blanks : List α}
    (blank : ∀ symbol ∈ blanks, isBlank symbol = true) (line : List α) :
    strip isBlank (line ++ blanks) = strip isBlank line := by
  have dropBlanks : ∀ kept : List α,
      (kept ++ blanks).rdropWhile isBlank = kept.rdropWhile isBlank := by
    intro kept
    unfold List.rdropWhile
    rw [List.reverse_append, List.dropWhile_append_of_pos (by
      intro symbol member
      exact blank symbol (List.mem_reverse.mp member))]
  unfold strip
  by_cases allBlank : ∀ symbol ∈ line, isBlank symbol = true
  · have whole : ∀ symbol ∈ line ++ blanks, isBlank symbol = true := by
      intro symbol member
      rcases List.mem_append.mp member with inLine | inBlanks
      · exact allBlank symbol inLine
      · exact blank symbol inBlanks
    rw [List.dropWhile_eq_nil_iff.mpr whole, List.dropWhile_eq_nil_iff.mpr allBlank]
  · have kept : line.dropWhile isBlank ≠ [] := by
      rw [Ne, List.dropWhile_eq_nil_iff]
      exact allBlank
    have split : (line ++ blanks).dropWhile isBlank = line.dropWhile isBlank ++ blanks := by
      rw [List.dropWhile_append, if_neg (by simpa using kept)]
    rw [split, dropBlanks]

/-- Trimming only depends on which symbols of the line are blank. -/
theorem strip_congr {isBlank isSpace : α → Bool} {line : List α}
    (same : ∀ symbol ∈ line, isBlank symbol = isSpace symbol) :
    strip isBlank line = strip isSpace line := by
  have dropped : ∀ part : List α, (∀ symbol ∈ part, isBlank symbol = isSpace symbol) →
      part.dropWhile isBlank = part.dropWhile isSpace := by
    intro part partSame
    induction part with
    | nil => rfl
    | cons symbol rest inductionHypothesis =>
        have headSame := partSame symbol List.mem_cons_self
        have restSame := inductionHypothesis (fun other member =>
          partSame other (List.mem_cons_of_mem _ member))
        rw [List.dropWhile_cons, List.dropWhile_cons, headSame, restSame]
  unfold strip List.rdropWhile
  rw [dropped line same]
  congr 1
  apply dropped
  intro symbol member
  exact same symbol ((List.dropWhile_sublist _).subset (List.mem_reverse.mp member))

theorem splitFirst_append {isSeparator : α → Bool} {left : List α}
    (absent : ∀ symbol ∈ left, isSeparator symbol = false) {separator : α}
    (separates : isSeparator separator = true) (right : List α) :
    splitFirst isSeparator (left ++ separator :: right) = some (left, right) := by
  induction left with
  | nil => simp [splitFirst, separates]
  | cons symbol left inductionHypothesis =>
      have headPlain := absent symbol (by simp)
      have tail := inductionHypothesis (fun other member =>
        absent other (by simp [member]))
      simp [splitFirst, headPlain, tail]

/-- A separator-free front goes to the left part. -/
theorem splitFirst_append_left {isSeparator : α → Bool} {front : List α}
    (absent : ∀ symbol ∈ front, isSeparator symbol = false) (line : List α) :
    splitFirst isSeparator (front ++ line) =
      (splitFirst isSeparator line).map (fun parts => (front ++ parts.1, parts.2)) := by
  induction front with
  | nil => simp
  | cons symbol front inductionHypothesis =>
      have headPlain := absent symbol (by simp)
      have tail := inductionHypothesis (fun other member =>
        absent other (by simp [member]))
      simp [splitFirst, headPlain, tail, Function.comp_def]

theorem splitFirst_eq_none_iff {isSeparator : α → Bool} {line : List α} :
    splitFirst isSeparator line = none ↔
      ∀ symbol ∈ line, isSeparator symbol = false := by
  induction line with
  | nil => simp [splitFirst]
  | cons symbol line inductionHypothesis =>
      by_cases separates : isSeparator symbol = true
      · simp [splitFirst, separates]
      · simp [splitFirst, separates, inductionHypothesis]

/-- What `splitFirst` returns, as an equation about the input. -/
theorem splitFirst_eq_some {isSeparator : α → Bool} {line left right : List α}
    (split : splitFirst isSeparator line = some (left, right)) :
    ∃ separator, isSeparator separator = true ∧
      line = left ++ separator :: right ∧
      ∀ symbol ∈ left, isSeparator symbol = false := by
  induction line generalizing left with
  | nil => simp [splitFirst] at split
  | cons symbol line inductionHypothesis =>
      by_cases separates : isSeparator symbol = true
      · simp only [splitFirst, separates, if_true, Option.some.injEq,
          Prod.mk.injEq] at split
        obtain ⟨rfl, rfl⟩ := split
        exact ⟨symbol, separates, by simp, by simp⟩
      · have plain : isSeparator symbol = false := by simpa using separates
        simp only [splitFirst, plain, Bool.false_eq_true, if_false,
          Option.map_eq_some_iff, Prod.mk.injEq] at split
        obtain ⟨⟨tailLeft, tailRight⟩, found, rfl, rfl⟩ := split
        obtain ⟨separator, isSep, equation, absent⟩ := inductionHypothesis found
        refine ⟨separator, isSep, by simp [equation], ?_⟩
        intro other member
        rcases List.mem_cons.mp member with rfl | member
        · exact plain
        · exact absent other member

/-- Splitting a trimmed line at its separator. -/
theorem splitFirst_strip {isBlank isSeparator : α → Bool} {line left right : List α}
    (apart : ∀ symbol, isSeparator symbol = true → isBlank symbol = false)
    (split : splitFirst isSeparator line = some (left, right)) :
    ∃ trimmedLeft trimmedRight,
      splitFirst isSeparator (strip isBlank line) = some (trimmedLeft, trimmedRight) ∧
      strip isBlank trimmedLeft = strip isBlank left ∧
      strip isBlank trimmedRight = strip isBlank right := by
  obtain ⟨separator, separates, rfl, absent⟩ := splitFirst_eq_some split
  have plain := apart separator separates
  have front : (left ++ separator :: right).dropWhile isBlank =
      left.dropWhile isBlank ++ separator :: right := by
    rw [List.dropWhile_append]
    split
    next allBlank =>
      rw [List.isEmpty_iff.mp allBlank, List.dropWhile_cons_of_neg (by simp [plain])]
      rfl
    next => rfl
  have back : ∀ kept : List α, (kept ++ separator :: right).rdropWhile isBlank =
      kept ++ separator :: right.rdropWhile isBlank := by
    intro kept
    unfold List.rdropWhile
    rw [List.reverse_append, List.reverse_cons, List.append_assoc, List.dropWhile_append]
    split
    next allBlank =>
      simp [List.isEmpty_iff.mp allBlank, plain]
    next => simp
  refine ⟨left.dropWhile isBlank, right.rdropWhile isBlank, ?_, ?_, ?_⟩
  · unfold strip
    rw [front, back]
    apply splitFirst_append _ separates
    intro symbol member
    exact absent symbol ((List.dropWhile_sublist _).subset member)
  · conv_rhs => rw [← List.takeWhile_append_dropWhile (p := isBlank) (l := left)]
    rw [strip_append_left (fun symbol member => List.mem_takeWhile_imp member)]
  · conv_rhs => rw [← List.rdropWhile_append_rtakeWhile (p := isBlank) (l := right)]
    rw [strip_append_right (fun symbol member => List.mem_rtakeWhile_imp member)]

/-- Two words separated by one blank. -/
theorem words_pair {isBlank : α → Bool} {left right : List α}
    (leftPlain : OneLine isBlank left) (rightPlain : OneLine isBlank right)
    (leftNonempty : left ≠ []) (rightNonempty : right ≠ []) {blank : α}
    (blanks : isBlank blank = true) :
    words isBlank (left ++ blank :: right) = [left, right] := by
  unfold words
  rw [linesBy_append_break leftPlain blanks, linesBy_oneLine rightPlain rightNonempty]
  cases left with
  | nil => exact absurd rfl leftNonempty
  | cons leftHead leftTail =>
      cases right with
      | nil => exact absurd rfl rightNonempty
      | cons rightHead rightTail => rfl

/-- Blanks in front of a line do not count. -/
theorem words_append_blanks {isBlank : α → Bool} {blanks : List α}
    (allBlank : ∀ symbol ∈ blanks, isBlank symbol = true) (line : List α) :
    words isBlank (blanks ++ line) = words isBlank line := by
  induction blanks with
  | nil => rfl
  | cons blank rest inductionHypothesis =>
      have tail := inductionHypothesis fun symbol member =>
        allBlank symbol (List.mem_cons_of_mem _ member)
      have breaks := allBlank blank List.mem_cons_self
      unfold words at tail ⊢
      rw [List.cons_append, linesBy, if_pos breaks]
      exact tail

/-- The first word of a line that goes on behind a blank. -/
theorem words_cons {isBlank : α → Bool} {word : List α} (plain : OneLine isBlank word)
    (nonempty : word ≠ []) {blank : α} (blanks : isBlank blank = true) (line : List α) :
    words isBlank (word ++ blank :: line) = word :: words isBlank line := by
  unfold words
  rw [linesBy_append_break plain blanks, List.filter_cons_of_pos]
  simpa using nonempty

/-- A line that is one word. -/
theorem words_singleton {isBlank : α → Bool} {word : List α} (plain : OneLine isBlank word)
    (nonempty : word ≠ []) : words isBlank word = [word] := by
  unfold words
  rw [linesBy_oneLine plain nonempty, List.filter_cons_of_pos]
  · rfl
  · simpa using nonempty

end Text

end StadiumRecomp.Lib
