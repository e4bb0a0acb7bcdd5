import Mathlib.Data.List.GetD
import StadiumRecomp.Translate.Escape

/-!
Contract: `json_read_string` with its cursor.

Owns: the loop over positions of the text, that it reads what stands behind the cursor, where it
leaves the cursor, and that it undoes `json_escape` in any surroundings.

Does not own: where the loader starts a string.
-/

set_option autoImplicit false

namespace StadiumRecomp.Translate

open StadiumRecomp.Lib

/-! ## The loop -/

/-- The loop of `json_read_string` from a cursor on, with the bytes read so far. -/
def cursorLoop (s : Bytes) (i : Nat) (out : Bytes) : Bytes × Nat :=
  if inside : i < s.length then
    let c := s[i]
    if c = quote then (out, i)
    else if more : c = backslash ∧ i + 1 < s.length then
      cursorLoop s (i + 2) (out ++ [unescape s[i + 1]])
    else cursorLoop s (i + 1) (out ++ [c])
  else (out, i)
termination_by s.length - i

/-- `json_read_string`: the string, and the cursor behind it. -/
def jsonReadStringAt (s : Bytes) (i : Nat) : Bytes × Nat :=
  if i ≥ s.length ∨ s.getD i 0 ≠ quote then ([], i)
  else
    let (out, i) := cursorLoop s (i + 1) []
    (out, if i < s.length then i + 1 else i)

/-! ## What it reads -/

/-- A cursor behind a string, which ends where `rest` begins. -/
structure Leaves (s : Bytes) (start cursor : Nat) (rest : Bytes) : Prop where
  behind : start ≤ cursor
  inside : cursor ≤ s.length
  stands : s.drop cursor = rest

/-- The loop reads the string behind the cursor, and stops in front of its closing quote. -/
theorem cursorLoop_eq {s : Bytes} {i : Nat} (inside : i ≤ s.length) (out : Bytes) :
    (cursorLoop s i out).1 = out ++ (readQuoted (s.drop i)).1 ∧
      Leaves s i (if (cursorLoop s i out).2 < s.length then (cursorLoop s i out).2 + 1
        else (cursorLoop s i out).2) (readQuoted (s.drop i)).2 := by
  fun_induction cursorLoop s i out with
  | case1 i out within c isQuote =>
      have stands : s.drop i = quote :: s.drop (i + 1) := by
        rw [List.drop_eq_getElem_cons within]
        exact List.cons_eq_cons.mpr ⟨isQuote, rfl⟩
      rw [stands, readQuoted_quote, if_pos within]
      exact ⟨(List.append_nil out).symm, ⟨Nat.le_succ i, within, rfl⟩⟩
  | case2 i out within c notQuote more inductionHypothesis =>
      obtain ⟨read, leaves⟩ := inductionHypothesis more.2
      have stands : s.drop i = backslash :: s[i + 1] :: s.drop (i + 2) := by
        rw [List.drop_eq_getElem_cons within, List.drop_eq_getElem_cons more.2]
        exact List.cons_eq_cons.mpr ⟨more.1, rfl⟩
      rw [stands, readQuoted_escape, read, List.append_assoc]
      exact ⟨rfl, ⟨Nat.le_trans (Nat.le_add_right i 2) leaves.behind, leaves.inside, leaves.stands⟩⟩
  | case3 i out within c notQuote last inductionHypothesis =>
      obtain ⟨read, leaves⟩ := inductionHypothesis within
      have reads : readQuoted (s.drop i) =
          (c :: (readQuoted (s.drop (i + 1))).1, (readQuoted (s.drop (i + 1))).2) := by
        rw [List.drop_eq_getElem_cons within]
        by_cases isBackslash : c = backslash
        · -- A backslash at the very end stands for itself.
          have atEnd : s.drop (i + 1) = [] := by
            rw [List.drop_eq_nil_iff]
            exact Nat.le_of_not_lt fun further => last ⟨isBackslash, further⟩
          rw [atEnd, show s[i] = backslash from isBackslash, isBackslash]
          rfl
        · exact readQuoted_byte notQuote isBackslash _
      rw [reads, read, List.append_assoc]
      exact ⟨rfl, ⟨Nat.le_trans (Nat.le_succ i) leaves.behind, leaves.inside, leaves.stands⟩⟩
  | case4 i out outside =>
      have stands : s.drop i = [] := List.drop_eq_nil_iff.mpr (Nat.le_of_not_lt outside)
      rw [stands, if_neg outside]
      exact ⟨(List.append_nil out).symm, ⟨Nat.le_refl i, inside, stands⟩⟩

/-- The cursor version reads what the loader's scanner does, and leaves the cursor behind it. -/
theorem jsonReadStringAt_eq {s : Bytes} {i : Nat} (inside : i ≤ s.length) :
    (jsonReadStringAt s i).1 = (jsonReadString (s.drop i)).1 ∧
      Leaves s i (jsonReadStringAt s i).2 (jsonReadString (s.drop i)).2 := by
  unfold jsonReadStringAt
  split
  next stops =>
    have nothing : jsonReadString (s.drop i) = ([], s.drop i) := by
      rcases stops with outside | notQuote
      · rw [List.drop_eq_nil_iff.mpr outside]
        rfl
      · rcases Nat.lt_or_ge i s.length with within | outside
        · rw [List.getD_eq_getElem _ _ within] at notQuote
          rw [List.drop_eq_getElem_cons within]
          exact if_neg notQuote
        · rw [List.drop_eq_nil_iff.mpr outside]
          rfl
    rw [nothing]
    exact ⟨rfl, ⟨Nat.le_refl i, inside, rfl⟩⟩
  next opens =>
    rw [not_or, not_not, ge_iff_le, Nat.not_le] at opens
    obtain ⟨within, isQuote⟩ := opens
    rw [List.getD_eq_getElem _ _ within] at isQuote
    have stands : jsonReadString (s.drop i) = readQuoted (s.drop (i + 1)) := by
      rw [List.drop_eq_getElem_cons within]
      exact if_pos isQuote
    obtain ⟨read, leaves⟩ := cursorLoop_eq within ([] : Bytes)
    rw [stands]
    exact ⟨read, ⟨Nat.le_trans (Nat.le_succ i) leaves.behind, leaves.inside, leaves.stands⟩⟩

/-! ## The inverse of `json_escape` -/

/-- An escaped string is read back, whatever stands around it. -/
theorem jsonReadStringAt_escapeBytes (before content after : Bytes) :
    jsonReadStringAt (before ++ quote :: (escapeBytes content ++ quote :: after)) before.length =
      (content, (before ++ quote :: (escapeBytes content ++ [quote])).length) := by
  have inside : before.length ≤
      (before ++ quote :: (escapeBytes content ++ quote :: after)).length := by
    rw [List.length_append]
    exact Nat.le_add_right _ _
  obtain ⟨read, leaves⟩ := jsonReadStringAt_eq inside
  have reads : jsonReadString
      ((before ++ quote :: (escapeBytes content ++ quote :: after)).drop before.length) =
        (content, after) := by
    rw [List.drop_left]
    exact readQuoted_escapeBytes content after
  rw [reads] at read leaves
  have sizes := congrArg List.length leaves.stands
  have within := leaves.inside
  simp only [List.length_drop, List.length_append, List.length_cons] at sizes within
  refine Prod.ext read ?_
  simp only [List.length_append, List.length_cons, List.length_nil]
  omega

/-- `json_read_string` undoes `json_escape` in any surroundings, and from any position of a text
it ends inside the text. -/
theorem jsonReadStringAt_inverse :
    (∀ before text after : Text,
      jsonReadStringAt (Utf8.encode (before ++ '"' :: (jsonEscape text ++ '"' :: after)))
          (Utf8.encode before).length =
        (Utf8.encode text, (Utf8.encode (before ++ '"' :: (jsonEscape text ++ ['"']))).length)) ∧
      (∀ (s : Bytes) (start : Nat), start ≤ s.length →
        start ≤ (jsonReadStringAt s start).2 ∧ (jsonReadStringAt s start).2 ≤ s.length) ∧
      ∀ (s : Bytes) (start : Nat), s.length < start → jsonReadStringAt s start = ([], start) := by
  have isQuote : String.utf8EncodeChar '"' = [quote] := by decide
  refine ⟨?_, ?_, ?_⟩
  · intro before text after
    have read := jsonReadStringAt_escapeBytes (Utf8.encode before) (Utf8.encode text)
      (Utf8.encode after)
    rw [← encode_jsonEscape] at read
    simp only [Utf8.encode_append, Utf8.encode_cons, isQuote, List.singleton_append]
    exact read
  · intro s start inside
    obtain ⟨_, leaves⟩ := jsonReadStringAt_eq inside
    exact ⟨leaves.behind, leaves.inside⟩
  · intro s start beyond
    unfold jsonReadStringAt
    exact if_pos (Or.inl (Nat.le_of_lt beyond))

/-- A cursor beyond the end stays there. -/
theorem jsonReadStringAt_beyond : ¬ (jsonReadStringAt [] 1).2 ≤ ([] : Bytes).length := by
  decide

end StadiumRecomp.Translate
