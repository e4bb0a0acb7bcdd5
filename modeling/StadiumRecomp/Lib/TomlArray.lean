import StadiumRecomp.Lib.PyInt

/-!
Contract: what TOML reads between the brackets of an array of integers, in a
text whose line breaks are newlines.

Owns: integer literals, the phases of reading (before a value, in one, behind
one, in a comment), the values read on the way, and the laws of reading a text
part by part and line by line.

Does not own: where the array stands.
-/

set_option autoImplicit false

namespace StadiumRecomp.Lib.TomlArray

open StadiumRecomp.Lib
open StadiumRecomp.Lib.PyInt

/-! ## Symbols -/

def isBlank (symbol : Char) : Bool := symbol == ' ' || symbol == '\t'

theorem pySpace_of_isBlank {symbol : Char} (blank : isBlank symbol = true) :
    pySpace symbol = true := by
  unfold isBlank at blank
  rcases (by simpa using blank : symbol = ' ' ∨ symbol = '\t') with rfl | rfl <;> decide

/-- Letters, digits, signs and underscores: the symbols of integer literals. -/
def isValueSymbol (symbol : Char) : Bool :=
  let code := symbol.toNat
  (48 ≤ code && code ≤ 57) || (65 ≤ code && code ≤ 90) || (97 ≤ code && code ≤ 122) ||
    symbol == '+' || symbol == '-' || symbol == '_'

/-- Control characters other than the tab are not allowed in comments. -/
def isCommentSymbol (symbol : Char) : Bool :=
  symbol == '\t' || (32 ≤ symbol.toNat && symbol.toNat ≠ 127)

theorem not_isValueSymbol_of_pySpace {symbol : Char} (blank : pySpace symbol = true) :
    ¬ isValueSymbol symbol = true := by
  intro inToken
  unfold isValueSymbol at inToken
  simp only [Bool.or_eq_true, Bool.and_eq_true, decide_eq_true_eq, beq_iff_eq] at inToken
  rcases inToken with ((alphanumeric | rfl) | rfl) | rfl
  · unfold pySpace at blank
    generalize symbol.toNat = code at blank alphanumeric
    simp at blank
    omega
  · exact absurd blank (by decide)
  · exact absurd blank (by decide)
  · exact absurd blank (by decide)

theorem plain_of_isValueSymbol {symbol : Char} (inToken : isValueSymbol symbol = true) :
    ¬ (isBlank symbol = true ∨ symbol = '\n') ∧ symbol ≠ '#' ∧ symbol ≠ ',' := by
  refine ⟨?_, ?_, ?_⟩
  · intro separates
    apply not_isValueSymbol_of_pySpace _ inToken
    rcases separates with blank | rfl
    · exact pySpace_of_isBlank blank
    · decide
  · rintro rfl
    exact absurd inToken (by decide)
  · rintro rfl
    exact absurd inToken (by decide)

/-! ## Integers -/

/-- A decimal integer has no leading zero. -/
def decimal : Text → Option Nat
  | ['0'] => some 0
  | '0' :: _ => none
  | digits => natLiteral 10 digits

/-- An integer literal. Only decimal ones take a sign. -/
def literal : Text → Option Int
  | '0' :: 'x' :: digits => (natLiteral 16 digits).map Int.ofNat
  | '0' :: 'o' :: digits => (natLiteral 8 digits).map Int.ofNat
  | '0' :: 'b' :: digits => (natLiteral 2 digits).map Int.ofNat
  | '+' :: digits => (decimal digits).map Int.ofNat
  | '-' :: digits => (decimal digits).map (fun value => -Int.ofNat value)
  | digits => (decimal digits).map Int.ofNat

/-- Integers are 64-bit signed. -/
def inRange (value : Int) : Bool := -2 ^ 63 ≤ value && value < 2 ^ 63

def integer (token : Text) : Option Int := (literal token).filter inRange

/-! ## Reading -/

/-- Where the reader stands. A token is kept in reading order; a comment knows
the phase its line ends in. -/
inductive Phase where
  | beforeValue
  | inValue (token : Text)
  | afterValue
  | comment (back : Phase)
deriving DecidableEq, Repr

/-- The values that end where a phase is left. -/
def finish : Phase → Option (List Int)
  | .beforeValue => some []
  | .inValue token => (integer token).map (fun value => [value])
  | .afterValue => some []
  | .comment _ => none

/-- The next phase behind a finished or missing value. -/
def settled : Phase → Phase
  | .inValue _ => .afterValue
  | phase => phase

/-- One symbol: the next phase and the values it completes. -/
def step (phase : Phase) (symbol : Char) : Option (Phase × List Int) :=
  match phase with
  | .comment back =>
      if symbol = '\n' then some (back, [])
      else if isCommentSymbol symbol then some (.comment back, []) else none
  | _ =>
      if isBlank symbol || symbol == '\n' then
        (finish phase).map (fun read => (settled phase, read))
      else if symbol = '#' then
        (finish phase).map (fun read => (.comment (settled phase), read))
      else if symbol = ',' then
        if phase = .beforeValue then none
        else (finish phase).map (fun read => (.beforeValue, read))
      else if isValueSymbol symbol then
        match phase with
        | .beforeValue => some (.inValue [symbol], [])
        | .inValue token => some (.inValue (token ++ [symbol]), [])
        | _ => none
      else none

/-- A whole text: the last phase and the values read, in order. -/
def run (phase : Phase) : Text → Option (Phase × List Int)
  | [] => some (phase, [])
  | symbol :: rest => do
      let (next, read) ← step phase symbol
      let (last, more) ← run next rest
      return (last, read ++ more)

/-- The values of an array, from the text between its brackets. -/
def values (body : Text) : Option (List Int) := do
  let (last, read) ← run .beforeValue body
  let final ← finish last
  return read ++ final

/-! ## Reading in parts -/

theorem run_append {phase last : Phase} {front back : Text} {read : List Int} :
    run phase (front ++ back) = some (last, read) ↔
      ∃ middle first second, run phase front = some (middle, first) ∧
        run middle back = some (last, second) ∧ read = first ++ second := by
  induction front generalizing phase read with
  | nil => simp [run]
  | cons symbol front inductionHypothesis =>
      simp only [List.cons_append, run, Option.bind_eq_bind, Option.bind_eq_some_iff,
        Prod.exists, Option.pure_def, Option.some.injEq, Prod.mk.injEq]
      constructor
      · rintro ⟨next, here, stepped, final, more, ran, rfl, rfl⟩
        obtain ⟨middle, first, second, ranFront, ranBack, rfl⟩ := inductionHypothesis.mp ran
        exact ⟨middle, here ++ first, second,
          ⟨next, here, stepped, middle, first, ranFront, rfl, rfl⟩, ranBack, by simp⟩
      · rintro ⟨middle, first, second, ⟨next, here, stepped, final, more, ranFront, rfl, rfl⟩,
          ranBack, rfl⟩
        exact ⟨next, here, stepped, last, more ++ second,
          inductionHypothesis.mpr ⟨_, more, second, ranFront, ranBack, rfl⟩, rfl, by simp⟩

theorem run_cons {phase last : Phase} {symbol : Char} {rest : Text} {read : List Int} :
    run phase (symbol :: rest) = some (last, read) ↔
      ∃ next first second, step phase symbol = some (next, first) ∧
        run next rest = some (last, second) ∧ read = first ++ second := by
  simp only [run, Option.bind_eq_bind, Option.bind_eq_some_iff,
    Prod.exists, Option.pure_def, Option.some.injEq, Prod.mk.injEq]
  constructor
  · rintro ⟨next, here, stepped, final, more, ran, rfl, rfl⟩
    exact ⟨next, here, more, stepped, ran, rfl⟩
  · rintro ⟨next, here, more, stepped, ran, rfl⟩
    exact ⟨next, here, stepped, last, more, ran, rfl, rfl⟩

/-! ## Lines -/

/-- The phases a line can start in. -/
def LineStart (phase : Phase) : Prop := phase = .beforeValue ∨ phase = .afterValue

instance (phase : Phase) : Decidable (LineStart phase) :=
  inferInstanceAs (Decidable (_ ∨ _))

/-- A comment leads back to a phase a line can start in. -/
def Proper : Phase → Prop
  | .comment back => LineStart back
  | _ => True

theorem LineStart.proper {phase : Phase} (lineStart : LineStart phase) : Proper phase := by
  rcases lineStart with rfl | rfl <;> trivial

theorem LineStart.finish {phase : Phase} (lineStart : LineStart phase) :
    finish phase = some [] := by
  rcases lineStart with rfl | rfl <;> rfl

theorem lineStart_settled {phase : Phase} {read : List Int}
    (finished : finish phase = some read) : LineStart (settled phase) := by
  cases phase with
  | beforeValue => exact Or.inl rfl
  | inValue token => exact Or.inr rfl
  | afterValue => exact Or.inr rfl
  | comment back => cases finished

/-- Outside comments, a blank or a line break ends the value. -/
theorem step_of_finish {phase : Phase} {read : List Int} {symbol : Char}
    (separates : isBlank symbol = true ∨ symbol = '\n')
    (finished : finish phase = some read) : step phase symbol = some (settled phase, read) := by
  have ends : (isBlank symbol || symbol == '\n') = true := by simpa using separates
  cases phase with
  | beforeValue => simp only [step, ends, if_true, finished, Option.map_some]
  | inValue token => simp only [step, ends, if_true, finished, Option.map_some]
  | afterValue => simp only [step, ends, if_true, finished, Option.map_some]
  | comment back => cases finished

/-- What a step outside comments can do. -/
theorem step_cases {phase next : Phase} {symbol : Char} {read : List Int}
    (stepped : step phase symbol = some (next, read)) :
    (∃ back, phase = .comment back ∧ read = [] ∧
      ((symbol = '\n' ∧ next = back) ∨
        (symbol ≠ '\n' ∧ isCommentSymbol symbol = true ∧ next = .comment back))) ∨
    ((isBlank symbol = true ∨ symbol = '\n') ∧ finish phase = some read ∧
      next = settled phase) ∨
    (symbol = '#' ∧ finish phase = some read ∧ next = .comment (settled phase)) ∨
    (symbol = ',' ∧ phase ≠ .beforeValue ∧ finish phase = some read ∧
      next = .beforeValue) ∨
    (isValueSymbol symbol = true ∧ phase ≠ .afterValue ∧ read = [] ∧
      ∃ token, next = .inValue token) := by
  by_cases inComment : ∃ back, phase = .comment back
  · obtain ⟨back, rfl⟩ := inComment
    left
    refine ⟨back, rfl, ?_⟩
    simp only [step] at stepped
    split at stepped
    next isBreak =>
      cases stepped
      exact ⟨rfl, Or.inl ⟨isBreak, rfl⟩⟩
    next noBreak =>
      split at stepped
      next allowed =>
        cases stepped
        exact ⟨rfl, Or.inr ⟨noBreak, allowed, rfl⟩⟩
      next => cases stepped
  · right
    have unfolded : step phase symbol =
        (if isBlank symbol || symbol == '\n' then
          (finish phase).map (fun read => (settled phase, read))
        else if symbol = '#' then
          (finish phase).map (fun read => (.comment (settled phase), read))
        else if symbol = ',' then
          if phase = .beforeValue then none
          else (finish phase).map (fun read => (.beforeValue, read))
        else if isValueSymbol symbol then
          match phase with
          | .beforeValue => some (.inValue [symbol], [])
          | .inValue token => some (.inValue (token ++ [symbol]), [])
          | _ => none
        else none) := by
      cases phase with
      | comment back => exact absurd ⟨back, rfl⟩ inComment
      | beforeValue => rfl
      | inValue token => rfl
      | afterValue => rfl
    rw [unfolded] at stepped
    split at stepped
    next separates =>
      obtain ⟨_, finished, same⟩ := Option.map_eq_some_iff.mp stepped
      cases same
      exact Or.inl ⟨by simpa using separates, finished, rfl⟩
    next =>
      split at stepped
      next isHash =>
        obtain ⟨_, finished, same⟩ := Option.map_eq_some_iff.mp stepped
        cases same
        exact Or.inr (Or.inl ⟨isHash, finished, rfl⟩)
      next =>
        split at stepped
        next isComma =>
          split at stepped
          next => cases stepped
          next someValue =>
            obtain ⟨_, finished, same⟩ := Option.map_eq_some_iff.mp stepped
            cases same
            exact Or.inr (Or.inr (Or.inl ⟨isComma, someValue, finished, rfl⟩))
        next =>
          split at stepped
          next inToken =>
            split at stepped
            next =>
              cases stepped
              exact Or.inr (Or.inr (Or.inr ⟨inToken, by simp, rfl, _, rfl⟩))
            next =>
              cases stepped
              exact Or.inr (Or.inr (Or.inr ⟨inToken, by simp, rfl, _, rfl⟩))
            next => cases stepped
          next => cases stepped

theorem step_proper {phase next : Phase} {symbol : Char} {read : List Int}
    (stepped : step phase symbol = some (next, read)) (proper : Proper phase) :
    Proper next ∧ (symbol = '\n' → LineStart next) := by
  rcases step_cases stepped with ⟨back, rfl, _, ⟨_, rfl⟩ | ⟨noBreak, _, rfl⟩⟩ |
    ⟨_, finished, rfl⟩ | ⟨rfl, finished, rfl⟩ | ⟨rfl, _, _, rfl⟩ | ⟨inToken, _, _, token, rfl⟩
  · exact ⟨LineStart.proper proper, fun _ => proper⟩
  · exact ⟨proper, fun isBreak => absurd isBreak noBreak⟩
  · exact ⟨(lineStart_settled finished).proper, fun _ => lineStart_settled finished⟩
  · exact ⟨lineStart_settled finished, fun isBreak => absurd isBreak (by decide)⟩
  · exact ⟨trivial, fun isBreak => absurd isBreak (by decide)⟩
  · refine ⟨trivial, ?_⟩
    rintro rfl
    exact absurd inToken (by decide)

theorem run_proper {phase last : Phase} {text : Text} {read : List Int}
    (ran : run phase text = some (last, read)) (proper : Proper phase) : Proper last := by
  induction text generalizing phase read with
  | nil =>
      cases ran
      exact proper
  | cons symbol rest inductionHypothesis =>
      obtain ⟨_, _, _, stepped, ran, _⟩ := run_cons.mp ran
      exact inductionHypothesis ran (step_proper stepped proper).1

/-- Behind a line break the reader stands where a line can start. -/
theorem lineStart_of_run {phase last : Phase} {line : Text} {read : List Int}
    (ran : run phase (line ++ ['\n']) = some (last, read)) (proper : Proper phase) :
    LineStart last := by
  obtain ⟨middle, _, _, front, back, _⟩ := run_append.mp ran
  obtain ⟨next, _, _, stepped, ended, _⟩ := run_cons.mp back
  cases ended
  exact (step_proper stepped (run_proper front proper)).2 rfl

theorem lineStart_of_run_unlines {phase last : Phase} {lines : List Text} {read : List Int}
    (lineStart : LineStart phase)
    (ran : run phase (Text.unlines '\n' lines) = some (last, read)) : LineStart last := by
  induction lines generalizing phase read with
  | nil =>
      cases ran
      exact lineStart
  | cons line rest inductionHypothesis =>
      rw [Text.unlines, List.flatMap_cons] at ran
      obtain ⟨_, _, _, ranLine, ranRest, _⟩ := run_append.mp ran
      exact inductionHypothesis (lineStart_of_run ranLine lineStart.proper) ranRest

/-- Every value that is read is a 64-bit integer. -/
theorem inRange_of_run {phase last : Phase} {text : Text} {read : List Int}
    (ran : run phase text = some (last, read)) : ∀ value ∈ read, inRange value = true := by
  have ofFinish : ∀ {phase : Phase} {read : List Int}, finish phase = some read →
      ∀ value ∈ read, inRange value = true := by
    intro phase read finished value member
    cases phase with
    | beforeValue =>
        cases finished
        cases member
    | inValue token =>
        obtain ⟨other, parsed, rfl⟩ := Option.map_eq_some_iff.mp finished
        rw [List.mem_singleton.mp member]
        exact (Option.filter_eq_some_iff.mp parsed).2
    | afterValue =>
        cases finished
        cases member
    | comment back => cases finished
  have none : ∀ value ∈ ([] : List Int), inRange value = true := by simp
  induction text generalizing phase read with
  | nil =>
      cases ran
      exact none
  | cons symbol rest inductionHypothesis =>
      obtain ⟨_, first, second, stepped, ranRest, rfl⟩ := run_cons.mp ran
      have ofStep : ∀ value ∈ first, inRange value = true := by
        rcases step_cases stepped with ⟨_, _, rfl, _⟩ | ⟨_, finished, _⟩ |
          ⟨_, finished, _⟩ | ⟨_, _, finished, _⟩ | ⟨_, _, rfl, _⟩
        · exact none
        · exact ofFinish finished
        · exact ofFinish finished
        · exact ofFinish finished
        · exact none
      intro value member
      rcases List.mem_append.mp member with inFirst | inSecond
      · exact ofStep value inFirst
      · exact inductionHypothesis ranRest value inSecond

/-! ## Bodies -/

/-- The values of a body are those read up to the end of its last line. -/
theorem run_of_values {body : Text} {read : List Int} (valid : values body = some read) :
    ∃ last, LineStart last ∧ run .beforeValue (body ++ ['\n']) = some (last, read) := by
  unfold values at valid
  simp only [Option.bind_eq_bind, Option.bind_eq_some_iff, Prod.exists, Option.pure_def,
    Option.some.injEq] at valid
  obtain ⟨last, front, ran, final, finished, rfl⟩ := valid
  refine ⟨settled last, lineStart_settled finished, ?_⟩
  rw [run_append]
  refine ⟨last, front, final, ran, ?_, rfl⟩
  rw [run_cons]
  exact ⟨settled last, final, [], step_of_finish (Or.inr rfl) finished, rfl, by simp⟩

theorem values_of_run {body : Text} {last : Phase} {read : List Int}
    (lineStart : LineStart last) (ran : run .beforeValue body = some (last, read)) :
    values body = some read := by
  unfold values
  simp [ran, lineStart.finish]

/-! ## Lines without values -/

/-- A comment reads to the end of its line. -/
theorem run_comment {back last : Phase} {text : Text} {read : List Int}
    (oneLine : '\n' ∉ text) :
    run (.comment back) text = some (last, read) ↔
      last = .comment back ∧ read = [] ∧ ∀ symbol ∈ text, isCommentSymbol symbol = true := by
  induction text generalizing read with
  | nil =>
      simp only [run, Option.some.injEq, Prod.mk.injEq]
      constructor
      · rintro ⟨rfl, rfl⟩
        simp
      · rintro ⟨rfl, rfl, _⟩
        simp
  | cons symbol rest inductionHypothesis =>
      have noBreak : symbol ≠ '\n' := fun same => oneLine (same ▸ List.mem_cons_self)
      have tail := fun read => @inductionHypothesis read
        (fun member => oneLine (List.mem_cons_of_mem _ member))
      have stepEq : step (.comment back) symbol =
          if isCommentSymbol symbol then some (.comment back, []) else none := by
        simp [step, noBreak]
      rw [run_cons, stepEq]
      constructor
      · rintro ⟨next, first, second, stepped, ran, rfl⟩
        split at stepped
        next allowed =>
          cases stepped
          obtain ⟨rfl, rfl, others⟩ := (tail second).mp ran
          refine ⟨rfl, rfl, ?_⟩
          intro other member
          rcases List.mem_cons.mp member with rfl | inRest
          · exact allowed
          · exact others other inRest
        next => cases stepped
      · rintro ⟨rfl, rfl, allowed⟩
        rw [if_pos (allowed symbol List.mem_cons_self)]
        exact ⟨_, [], [], rfl, (tail []).mpr
          ⟨rfl, rfl, fun other member => allowed other (List.mem_cons_of_mem _ member)⟩, rfl⟩

/-- Blanks leave the phase of a line's start. -/
theorem run_blanks {phase last : Phase} {text : Text} {read : List Int}
    (lineStart : LineStart phase) (blank : ∀ symbol ∈ text, pySpace symbol = true)
    (ran : run phase text = some (last, read)) : last = phase ∧ read = [] := by
  induction text generalizing read with
  | nil =>
      cases ran
      exact ⟨rfl, rfl⟩
  | cons symbol rest inductionHypothesis =>
      obtain ⟨next, first, second, stepped, ranRest, rfl⟩ := run_cons.mp ran
      have symbolBlank := blank symbol List.mem_cons_self
      have stays : next = phase ∧ first = [] := by
        rcases step_cases stepped with ⟨back, rfl, _⟩ | ⟨_, finished, rfl⟩ |
          ⟨rfl, _⟩ | ⟨rfl, _⟩ | ⟨inToken, _⟩
        · rcases lineStart with impossible | impossible <;> cases impossible
        · rw [lineStart.finish] at finished
          cases finished
          refine ⟨?_, rfl⟩
          rcases lineStart with rfl | rfl <;> rfl
        · exact absurd symbolBlank (by decide)
        · exact absurd symbolBlank (by decide)
        · exact absurd inToken (not_isValueSymbol_of_pySpace symbolBlank)
      obtain ⟨rfl, rfl⟩ := stays
      obtain ⟨rfl, rfl⟩ := inductionHypothesis
        (fun other member => blank other (List.mem_cons_of_mem _ member)) ranRest
      exact ⟨rfl, rfl⟩

/-- A line that adds a value cannot stand behind a value. -/
theorem run_afterValue_of_value {last : Phase} {line : Text} {value : Int} {more : List Int}
    (oneLine : '\n' ∉ line)
    (ran : run .beforeValue (line ++ ['\n']) = some (last, value :: more)) :
    run .afterValue (line ++ ['\n']) = none := by
  induction line with
  | nil =>
      have empty : run .beforeValue ([] ++ ['\n']) = some (.beforeValue, []) := by decide
      rw [empty] at ran
      cases ran
  | cons symbol rest inductionHypothesis =>
      have noBreak : '\n' ∉ rest := fun member => oneLine (List.mem_cons_of_mem _ member)
      obtain ⟨next, first, second, stepped, ranRest, split⟩ := run_cons.mp ran
      by_contra reads
      obtain ⟨⟨final, read⟩, ranAfter⟩ := Option.ne_none_iff_exists'.mp reads
      obtain ⟨nextAfter, firstAfter, secondAfter, steppedAfter, ranRestAfter, _⟩ :=
        run_cons.mp ranAfter
      rcases step_cases stepped with ⟨_, impossible, _⟩ | ⟨separates, finished, rfl⟩ |
        ⟨rfl, finished, rfl⟩ | ⟨_, someValue, _⟩ | ⟨inToken, _, rfl, _⟩
      · cases impossible
      · cases finished
        rw [List.nil_append] at split
        rw [step_of_finish separates (rfl : finish .afterValue = some [])] at steppedAfter
        cases steppedAfter
        have nothing := inductionHypothesis noBreak (split ▸ ranRest)
        change run .afterValue (rest ++ ['\n']) = some _ at ranRestAfter
        rw [nothing] at ranRestAfter
        cases ranRestAfter
      · cases finished
        obtain ⟨middle, readComment, readBreak, ranComment, ranBreak, rfl⟩ :=
          run_append.mp ranRest
        obtain ⟨rfl, rfl, _⟩ := (run_comment noBreak).mp ranComment
        cases ranBreak
        cases split
      · exact someValue rfl
      · obtain ⟨notSeparator, notHash, notComma⟩ := plain_of_isValueSymbol inToken
        rcases step_cases steppedAfter with ⟨_, impossible, _⟩ | ⟨separates, _⟩ |
          ⟨isHash, _⟩ | ⟨isComma, _⟩ | ⟨_, elsewhere, _⟩
        · cases impossible
        · exact notSeparator separates
        · exact notHash isHash
        · exact notComma isComma
        · exact elsewhere rfl

/-! ## Written values -/

theorem step_valueSymbol {symbol : Char} (inToken : isValueSymbol symbol = true) :
    step .beforeValue symbol = some (.inValue [symbol], []) ∧
      ∀ token, step (.inValue token) symbol = some (.inValue (token ++ [symbol]), []) := by
  obtain ⟨notSeparator, notHash, notComma⟩ := plain_of_isValueSymbol inToken
  have noSeparator : (isBlank symbol || symbol == '\n') = false := by
    simpa using notSeparator
  constructor
  · simp [step, noSeparator, notHash, notComma, inToken]
  · intro token
    simp [step, noSeparator, notHash, notComma, inToken]

theorem run_inValue (front : Text) {token : Text}
    (plain : ∀ symbol ∈ token, isValueSymbol symbol = true) :
    run (.inValue front) token = some (.inValue (front ++ token), []) := by
  induction token generalizing front with
  | nil => simp [run]
  | cons symbol rest inductionHypothesis =>
      have stepped := (step_valueSymbol (plain symbol List.mem_cons_self)).2 front
      rw [run_cons]
      refine ⟨_, [], [], stepped, ?_, rfl⟩
      rw [inductionHypothesis _ (fun other member => plain other (List.mem_cons_of_mem _ member)),
        List.append_assoc]
      rfl

/-- A literal and its comma add one value. -/
theorem run_entry {token : Text} {value : Int} (nonempty : token ≠ [])
    (plain : ∀ symbol ∈ token, isValueSymbol symbol = true)
    (parsed : integer token = some value) :
    run .beforeValue (token ++ [',']) = some (.beforeValue, [value]) := by
  cases token with
  | nil => exact absurd rfl nonempty
  | cons symbol rest =>
      have first := (step_valueSymbol (plain symbol List.mem_cons_self)).1
      have others := run_inValue [symbol]
        (fun other member => plain other (List.mem_cons_of_mem _ member))
      have comma : step (.inValue (symbol :: rest)) ',' = some (.beforeValue, [value]) := by
        have notBlank : isBlank ',' = false := by decide
        simp [step, notBlank, finish, parsed]
      rw [run_append]
      refine ⟨.inValue (symbol :: rest), [], [value], ?_, ?_, rfl⟩
      · exact run_cons.mpr ⟨_, [], [], first, others, rfl⟩
      · exact run_cons.mpr ⟨_, [value], [], comma, rfl, by simp⟩

end StadiumRecomp.Lib.TomlArray
