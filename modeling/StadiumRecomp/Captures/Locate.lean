import StadiumRecomp.Captures.Fold

/-!
Contract: where `find_array_block` finds the array.

Owns: the shape of a text the assignment pattern matches, the fact that writing
the assignment anew moves no match in front of it, and the block of a text whose
assignment was written by the tool.

Does not own: the lines between the brackets.
-/

set_option autoImplicit false

namespace StadiumRecomp.Captures

open StadiumRecomp.Lib
open StadiumRecomp.Lib.PyInt

/-! ## The assignment pattern -/

/-- The front of an assignment, up to and with its opening bracket. -/
def assignmentFront (left right : Text) : Text :=
  arrayName ++ left ++ '=' :: right ++ ['[']

theorem dropWhile_pySpace_append {blanks : Text}
    (blank : ∀ symbol ∈ blanks, pySpace symbol = true) {symbol : Char}
    (plain : pySpace symbol = false) (rest : Text) :
    (blanks ++ symbol :: rest).dropWhile pySpace = symbol :: rest := by
  rw [List.dropWhile_append_of_pos blank, List.dropWhile_cons_of_neg (by simp [plain])]

theorem matchAssignment_eq_some {text rest : Text} :
    matchAssignment text = some rest ↔
      ∃ left right : Text, (∀ symbol ∈ left, pySpace symbol = true) ∧
        (∀ symbol ∈ right, pySpace symbol = true) ∧
        text = assignmentFront left right ++ rest := by
  unfold matchAssignment assignmentFront
  simp only [Option.bind_eq_bind, Option.bind_eq_some_iff, Search.dropPrefix?_eq_some]
  constructor
  · rintro ⟨named, rfl, equals, afterLeft, afterRight⟩
    refine ⟨named.takeWhile pySpace, equals.takeWhile pySpace,
      fun symbol member => List.mem_takeWhile_imp member,
      fun symbol member => List.mem_takeWhile_imp member, ?_⟩
    have namedSplit := List.takeWhile_append_dropWhile (p := pySpace) (l := named)
    have equalsSplit := List.takeWhile_append_dropWhile (p := pySpace) (l := equals)
    rw [afterLeft] at namedSplit
    rw [afterRight] at equalsSplit
    conv_lhs => rw [← namedSplit, ← equalsSplit]
    simp
  · rintro ⟨left, right, leftBlank, rightBlank, rfl⟩
    refine ⟨left ++ '=' :: (right ++ '[' :: rest), by simp, right ++ '[' :: rest, ?_, ?_⟩
    · exact dropWhile_pySpace_append leftBlank (by decide) _
    · exact dropWhile_pySpace_append rightBlank (by decide) _

/-- The name has an `f` only at its start and before `un`. -/
theorem arrayName_letters : ∀ index < arrayName.length, 0 < index →
    arrayName[index]? = some 'f' → index = 6 := by
  decide

/-- Inside the front of an assignment the name does not start a second time. -/
theorem assignmentFront_no_restart {left right : Text}
    (leftBlank : ∀ symbol ∈ left, pySpace symbol = true)
    (rightBlank : ∀ symbol ∈ right, pySpace symbol = true) {index : Nat}
    (positive : 0 < index) (inside : index < (assignmentFront left right).length)
    (rest : Text) :
    ¬ arrayName <+: (assignmentFront left right ++ rest).drop index := by
  intro ⟨tail, restart⟩
  have letters : ∀ offset : Nat, (assignmentFront left right ++ rest)[index + offset]? =
      (arrayName ++ tail)[offset]? := by
    intro offset
    rw [restart, List.getElem?_drop]
  have first : (assignmentFront left right ++ rest)[index]? = some 'f' := letters 0
  have second : (assignmentFront left right ++ rest)[index + 1]? = some 'o' := letters 1
  rw [List.getElem?_append_left inside] at first
  unfold assignmentFront at first second
  by_cases inName : index < arrayName.length
  · simp only [List.append_assoc] at first second
    rw [List.getElem?_append_left inName] at first
    have atSix := arrayName_letters index inName positive first
    subst atSix
    rw [List.getElem?_append_left (by decide)] at second
    revert second
    decide
  · -- Behind the name there are only blanks, the equals sign and the bracket.
    simp only [List.append_assoc] at first
    rw [List.getElem?_append_right (by omega)] at first
    have member := List.mem_of_getElem? first
    simp only [List.mem_append, List.mem_cons, List.cons_append, List.not_mem_nil,
      or_false] at member
    rcases member with inLeft | equals | inRight | bracket
    · have blank := leftBlank 'f' inLeft
      revert blank
      decide
    · revert equals
      decide
    · have blank := rightBlank 'f' inRight
      revert blank
      decide
    · revert bracket
      decide

/-- A match in front of the name does not depend on what follows the name. -/
theorem matchAssignment_before_name {front tail : Text} (nonempty : front ≠ [])
    {rest : Text} (matched : matchAssignment (front ++ arrayName ++ tail) = some rest)
    (other : Text) : (matchAssignment (front ++ arrayName ++ other)).isSome := by
  obtain ⟨left, right, leftBlank, rightBlank, equation⟩ := matchAssignment_eq_some.mp matched
  have positive : 0 < front.length := List.length_pos_iff.mpr nonempty
  by_cases inside : front.length < (assignmentFront left right).length
  · exfalso
    apply assignmentFront_no_restart leftBlank rightBlank positive inside rest
    rw [← equation, List.append_assoc, List.drop_left]
    exact List.prefix_append _ _
  · have isPrefix : assignmentFront left right <+: front := by
      apply List.prefix_of_prefix_length_le (List.prefix_append _ rest) _ (by omega)
      rw [← equation, List.append_assoc]
      exact List.prefix_append _ _
    obtain ⟨gap, rfl⟩ := isPrefix
    rw [Option.isSome_iff_exists]
    refine ⟨gap ++ arrayName ++ other, matchAssignment_eq_some.mpr
      ⟨left, right, leftBlank, rightBlank, by simp⟩⟩

/-! ## Blocks -/

/-- A text without an assignment in front of `before`'s end. -/
def FirstAt (before : Text) : Prop :=
  ∀ start < before.length, ∀ tail,
    matchAssignment (before.drop start ++ arrayName ++ tail) = none

theorem bracketOpens : isOpen '[' = true := rfl

theorem isOpen_assignmentFront {left right : Text}
    (leftBlank : ∀ symbol ∈ left, pySpace symbol = true)
    (rightBlank : ∀ symbol ∈ right, pySpace symbol = true) :
    ∀ symbol ∈ arrayName ++ left ++ '=' :: right, isOpen symbol = false := by
  have ofBlank : ∀ symbol, pySpace symbol = true → isOpen symbol = false := by
    intro symbol blank
    by_contra opens
    have bracket : symbol = '[' := by simpa [isOpen] using opens
    subst bracket
    revert blank
    decide
  have inName : ∀ symbol ∈ arrayName, isOpen symbol = false :=
    List.all_iff_forall_prop.mp (by decide)
  intro symbol member
  simp only [List.mem_append, List.mem_cons] at member
  rcases member with (name | inLeft) | rfl | inRight
  · exact inName symbol name
  · exact ofBlank symbol (leftBlank symbol inLeft)
  · decide
  · exact ofBlank symbol (rightBlank symbol inRight)

theorem isClose_iff (symbol : Char) : isClose symbol = true ↔ symbol = ']' := by
  simp [isClose]

theorem isClose_eq_false_of_not_mem {text : Text} (absent : ']' ∉ text) :
    ∀ symbol ∈ text, isClose symbol = false := by
  intro symbol member
  by_contra closes
  have bracket : symbol = ']' := by simpa [isClose] using closes
  exact absent (bracket ▸ member)

/-- What `find_array_block` returns, as an equation about the text. -/
theorem findArrayBlock_eq_ok {text : Text} {block : Block}
    (found : findArrayBlock text = .ok block) :
    ∃ left right : Text, (∀ symbol ∈ left, pySpace symbol = true) ∧
      (∀ symbol ∈ right, pySpace symbol = true) ∧
      text = block.before ++ assignmentFront left right ++ block.inner ++
        ']' :: block.after ∧
      ']' ∉ block.inner ∧ FirstAt block.before := by
  unfold findArrayBlock at found
  split at found
  next => cases found
  next start rest matched =>
    obtain ⟨bound, accepted, noEarlier⟩ := Search.firstMatch_eq_some_iff.mp matched
    obtain ⟨left, right, leftBlank, rightBlank, equation⟩ :=
      matchAssignment_eq_some.mp accepted
    have opened : Text.splitFirst isOpen (text.drop start) =
        some (arrayName ++ left ++ '=' :: right, rest) := by
      have split := Text.splitFirst_append (isOpen_assignmentFront leftBlank rightBlank)
        bracketOpens rest
      rw [equation, ← split]
      simp [assignmentFront]
    rw [opened] at found
    simp only at found
    split at found
    next => cases found
    next inner after closed =>
      cases found
      obtain ⟨close, closes, rfl, absent⟩ := Text.splitFirst_eq_some closed
      rw [isClose_iff] at closes
      subst closes
      refine ⟨left, right, leftBlank, rightBlank, ?_, ?_, ?_⟩
      · conv_lhs => rw [← List.take_append_drop start text, equation]
        simp
      · intro member
        have plain := absent ']' member
        revert plain
        decide
      · intro earlier before tail
        rw [List.length_take, Nat.min_eq_left bound] at before
        by_contra matchedEarlier
        obtain ⟨result, matchedEarlier⟩ := Option.ne_none_iff_exists'.mp matchedEarlier
        have nonempty : (text.take start).drop earlier ≠ [] := by
          rw [← List.length_pos_iff, List.length_drop, List.length_take]
          omega
        have inText := matchAssignment_before_name nonempty matchedEarlier
          (left ++ '=' :: right ++ '[' :: (inner ++ ']' :: after))
        have same : (text.take start).drop earlier ++ arrayName ++
            (left ++ '=' :: right ++ '[' :: (inner ++ ']' :: after)) = text.drop earlier := by
          have parts : text = text.take start ++ text.drop start :=
            (List.take_append_drop start text).symm
          conv_rhs => rw [parts, equation]
          rw [List.drop_append_of_le_length (by rw [List.length_take]; omega)]
          simp [assignmentFront]
        rw [same, noEarlier earlier before] at inText
        cases inText

/-- The block of a text, from its first assignment. -/
theorem findArrayBlock_assignment {text before opened left right : Text}
    (leftBlank : ∀ symbol ∈ left, pySpace symbol = true)
    (rightBlank : ∀ symbol ∈ right, pySpace symbol = true)
    (shape : text = before ++ assignmentFront left right ++ opened)
    (first : ∀ earlier < before.length, matchAssignment (text.drop earlier) = none) :
    findArrayBlock text =
      match Text.splitFirst isClose opened with
      | none => .error .valueError
      | some (inner, after) => .ok ⟨before, inner, after⟩ := by
  have behind : text.drop before.length = assignmentFront left right ++ opened := by
    rw [shape, List.append_assoc, List.drop_left]
  have matched : Search.firstMatch matchAssignment text = some (before.length, opened) := by
    rw [Search.firstMatch_eq_some_iff]
    refine ⟨by rw [shape]; simp, ?_, first⟩
    rw [behind]
    exact matchAssignment_eq_some.mpr ⟨left, right, leftBlank, rightBlank, rfl⟩
  have atOpen : Text.splitFirst isOpen (text.drop before.length) =
      some (arrayName ++ left ++ '=' :: right, opened) := by
    have split := Text.splitFirst_append (isOpen_assignmentFront leftBlank rightBlank)
      bracketOpens opened
    rw [behind, ← split]
    simp [assignmentFront]
  have front : text.take before.length = before := by
    rw [shape, List.append_assoc, List.take_left]
  cases closed : Text.splitFirst isClose opened with
  | none => simp only [findArrayBlock, matched, atOpen, closed]
  | some cut => simp only [findArrayBlock, matched, atOpen, closed, front]

theorem openLine_eq : openLine = assignmentFront [' '] [' '] := by decide

/-- The block of a text whose assignment is written as the tool writes it. -/
theorem findArrayBlock_written {before : Text} (first : FirstAt before) (opened : Text) :
    findArrayBlock (before ++ openLine ++ opened) =
      match Text.splitFirst isClose opened with
      | none => .error .valueError
      | some (inner, after) => .ok ⟨before, inner, after⟩ := by
  have blank : ∀ symbol ∈ [' '], pySpace symbol = true := List.forall_mem_singleton.mpr rfl
  have named : openLine = arrayName ++ [' ', '=', ' ', '['] := by decide
  apply findArrayBlock_assignment blank blank (by rw [openLine_eq])
  intro earlier inside
  rw [List.append_assoc, List.drop_append_of_le_length (by omega), named,
    List.append_assoc, ← List.append_assoc]
  exact first earlier inside _

end StadiumRecomp.Captures
