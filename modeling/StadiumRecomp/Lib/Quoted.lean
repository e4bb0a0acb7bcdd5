import StadiumRecomp.Lib.Search
import Mathlib.Data.List.DropRight

/-!
Contract: raw searches in a text that quotes cut into segments.

Owns: texts given as segments, each behind a quote, the search for a word between
two quotes, the laws that such a search sees whole segments only, and the last
segment of a text.

Does not own: escapes inside quoted strings.
-/

set_option autoImplicit false

namespace StadiumRecomp.Lib.Quoted

open StadiumRecomp.Lib.Search

variable {α : Type}

/-- Each segment behind a quote. -/
def quoted (quote : α) (segments : List (List α)) : List α :=
  segments.flatMap (fun segment => quote :: segment)

/-- A word between two quotes. -/
def token (quote : α) (word : List α) : List α := quote :: (word ++ [quote])

/-- No segment contains a quote. -/
def Free (quote : α) (segments : List (List α)) : Prop :=
  ∀ segment ∈ segments, quote ∉ segment

@[simp] theorem quoted_nil (quote : α) : quoted quote [] = [] := rfl

theorem quoted_cons (quote : α) (segment : List α) (segments : List (List α)) :
    quoted quote (segment :: segments) = quote :: segment ++ quoted quote segments := rfl

theorem quoted_append (quote : α) (left right : List (List α)) :
    quoted quote (left ++ right) = quoted quote left ++ quoted quote right := by
  simp [quoted]

theorem length_token (quote : α) (word : List α) :
    (token quote word).length = word.length + 2 := by
  simp [token]

theorem Free.tail {quote : α} {segment : List α} {segments : List (List α)}
    (free : Free quote (segment :: segments)) : Free quote segments :=
  fun other member => free other (List.mem_cons_of_mem _ member)

theorem free_append {quote : α} {left right : List (List α)} :
    Free quote (left ++ right) ↔ Free quote left ∧ Free quote right := by
  simp [Free, or_imp, forall_and]

variable [DecidableEq α] {quote : α}

/-- A pattern that starts with a quote is not found in a front without one. -/
theorem indexOf?_append_free {front : List α} (free : quote ∉ front)
    (pattern rest : List α) :
    indexOf? (quote :: pattern) (front ++ rest) =
      (indexOf? (quote :: pattern) rest).map (front.length + ·) := by
  induction front with
  | nil => simp
  | cons head front inductionHypothesis =>
      have different : quote ≠ head := fun same => free (same ▸ List.mem_cons_self)
      have tail := inductionHypothesis (fun member => free (List.mem_cons_of_mem _ member))
      rw [List.cons_append, indexOf?, tail]
      simp only [List.isPrefixOf, beq_eq_false_iff_ne.mpr different, Bool.false_and,
        Bool.false_eq_true, if_false, Option.map_map]
      apply congrArg (fun shift => Option.map shift (indexOf? (quote :: pattern) rest))
      funext position
      simp only [Function.comp_apply, List.length_cons]
      omega

/-- The first quote. -/
theorem indexOf?_quote {front : List α} (free : quote ∉ front) (rest : List α) :
    indexOf? [quote] (front ++ quote :: rest) = some front.length := by
  rw [indexOf?_append_free free]
  simp [indexOf?, List.isPrefixOf]

theorem indexOf?_quote_none {text : List α} (free : quote ∉ text) (pattern : List α) :
    indexOf? (quote :: pattern) text = none := by
  have whole := indexOf?_append_free free pattern []
  simpa [indexOf?] using whole

/-- Behind a quote, a token ends where the segment does. -/
theorem token_prefix_iff {word segment : List α} (wordFree : quote ∉ word)
    (segmentFree : quote ∉ segment) (rest : List α) :
    token quote word <+: quote :: (segment ++ quote :: rest) ↔ segment = word := by
  have before : ∀ front tail : List α, quote ∉ front →
      (front ++ quote :: tail).takeWhile (· ≠ quote) = front := by
    intro front tail free
    rw [List.takeWhile_append_of_pos, List.takeWhile_cons_of_neg (by simp), List.append_nil]
    intro symbol member
    simpa using fun same : symbol = quote => free (same ▸ member)
  constructor
  · intro ⟨tail, same⟩
    simp only [token, List.cons_append, List.append_assoc, List.nil_append,
      List.cons.injEq, true_and] at same
    rw [← before segment rest segmentFree, ← same, before word tail wordFree]
  · rintro rfl
    exact ⟨rest, by simp [token]⟩

/-- A token is not found before a segment that is another word. -/
theorem indexOf?_token_segment {word segment : List α} (wordFree : quote ∉ word)
    (segmentFree : quote ∉ segment) (different : segment ≠ word) (rest : List α) :
    indexOf? (token quote word) (quote :: (segment ++ quote :: rest)) =
      (indexOf? (token quote word) (quote :: rest)).map (segment.length + 1 + ·) := by
  have notHere : (token quote word).isPrefixOf (quote :: (segment ++ quote :: rest)) = false := by
    rw [← Bool.not_eq_true, List.isPrefixOf_iff_prefix,
      token_prefix_iff wordFree segmentFree]
    exact different
  rw [indexOf?, notHere, if_neg (by simp), token, indexOf?_append_free segmentFree,
    Option.map_map]
  apply congrArg (fun shift => Option.map shift (indexOf? (quote :: (word ++ [quote])) _))
  funext position
  simp only [Function.comp_apply]
  omega

/-- Segments that are other words are skipped. -/
theorem indexOf?_quoted_skip {word front : List α} {segments : List (List α)}
    (wordFree : quote ∉ word) (frontFree : quote ∉ front) (free : Free quote segments)
    (absent : word ∉ segments) (rest : List α) :
    indexOf? (token quote word) (front ++ quoted quote segments ++ quote :: rest) =
      (indexOf? (token quote word) (quote :: rest)).map
        ((front ++ quoted quote segments).length + ·) := by
  induction segments generalizing front with
  | nil =>
      rw [quoted_nil, List.append_nil]
      exact indexOf?_append_free frontFree _ _
  | cons segment segments inductionHypothesis =>
      have segmentFree : quote ∉ segment := free segment List.mem_cons_self
      have different : segment ≠ word := fun same => absent (same ▸ List.mem_cons_self)
      have emptyFree : quote ∉ ([] : List α) := by simp
      have tail := inductionHypothesis emptyFree free.tail
        (fun member => absent (List.mem_cons_of_mem _ member))
      have nextQuote : ∃ next, [] ++ quoted quote segments ++ quote :: rest = quote :: next := by
        cases segments with
        | nil => exact ⟨rest, rfl⟩
        | cons other others => exact ⟨_, rfl⟩
      obtain ⟨next, nextEq⟩ := nextQuote
      have shape : front ++ quoted quote (segment :: segments) ++ quote :: rest =
          front ++ quote :: (segment ++ quote :: next) := by
        rw [← nextEq]
        simp [quoted_cons]
      rw [shape, token, indexOf?_append_free frontFree, ← token,
        indexOf?_token_segment wordFree segmentFree different, ← nextEq, tail,
        Option.map_map, Option.map_map]
      apply congrArg (fun shift => Option.map shift (indexOf? (token quote word) (quote :: rest)))
      funext position
      simp only [Function.comp_apply, quoted_cons, List.length_append, List.length_cons,
        List.length_nil]
      omega

/-- The first segment that is the word. -/
theorem indexOf?_token {word front : List α} {segments : List (List α)}
    (wordFree : quote ∉ word) (frontFree : quote ∉ front) (free : Free quote segments)
    (absent : word ∉ segments) (rest : List α) :
    indexOf? (token quote word)
        (front ++ quoted quote segments ++ quote :: (word ++ quote :: rest)) =
      some (front ++ quoted quote segments).length := by
  have here : indexOf? (token quote word) (quote :: (word ++ quote :: rest)) = some 0 :=
    indexOf?_of_prefix ((token_prefix_iff wordFree wordFree rest).mpr rfl)
  rw [indexOf?_quoted_skip wordFree frontFree free absent, here]
  rfl

/-- The last segment is no token: no quote follows it. -/
theorem indexOf?_quoted_last {word front last : List α} {segments : List (List α)}
    (wordFree : quote ∉ word) (frontFree : quote ∉ front) (free : Free quote segments)
    (absent : word ∉ segments) (lastFree : quote ∉ last) :
    indexOf? (token quote word) (front ++ quoted quote segments ++ quote :: last) = none := by
  have noToken : indexOf? (token quote word) (quote :: last) = none := by
    rw [indexOf?_eq_none_iff]
    intro found
    rcases List.infix_cons_iff.mp found with here | later
    · obtain ⟨tail, same⟩ := here
      simp only [token, List.cons_append, List.append_assoc, List.nil_append,
        List.cons.injEq, true_and] at same
      apply lastFree
      rw [← same]
      simp
    · apply lastFree
      exact later.subset (by simp [token])
  rw [indexOf?_quoted_skip wordFree frontFree free absent, noToken]
  rfl

/-! ## Whole texts -/

/-- Where a word is found, and what follows it. -/
theorem indexOf?_segments {word front next : List α} {before after : List (List α)}
    (wordFree : quote ∉ word) (frontFree : quote ∉ front) (free : Free quote before)
    (absent : word ∉ before) :
    indexOf? (token quote word) (front ++ quoted quote (before ++ word :: next :: after)) =
        some (front ++ quoted quote before).length ∧
      (front ++ quoted quote (before ++ word :: next :: after)).drop
          ((front ++ quoted quote before).length + (token quote word).length) =
        next ++ quoted quote after := by
  have shape : front ++ quoted quote (before ++ word :: next :: after) =
      front ++ quoted quote before ++ quote :: (word ++ quote :: (next ++ quoted quote after)) := by
    simp [quoted_append, quoted_cons]
  constructor
  · rw [shape]
    exact indexOf?_token wordFree frontFree free absent _
  · have behind : quote :: (word ++ quote :: (next ++ quoted quote after)) =
        token quote word ++ (next ++ quoted quote after) := by
      simp [token]
    rw [shape, behind, ← List.append_assoc, ← List.length_append, List.drop_left]

/-- A word is not found before segments that are other words. -/
theorem le_of_indexOf?_segments {word front : List α} {before after : List (List α)}
    {position : Nat} (wordFree : quote ∉ word) (frontFree : quote ∉ front)
    (free : Free quote before) (absent : word ∉ before)
    (found : indexOf? (token quote word) (front ++ quoted quote (before ++ after)) =
      some position) :
    (front ++ quoted quote before).length ≤ position := by
  cases after with
  | nil =>
      exfalso
      rw [List.append_nil] at found
      induction before using List.reverseRecOn with
      | nil =>
          rw [quoted_nil, List.append_nil, token, indexOf?_quote_none frontFree] at found
          cases found
      | append_singleton initial last _ =>
          obtain ⟨initialFree, lastFree⟩ := free_append.mp free
          have none := indexOf?_quoted_last wordFree frontFree initialFree
            (fun member => absent (List.mem_append_left _ member))
            (lastFree last List.mem_cons_self)
          rw [quoted_append, quoted_cons, quoted_nil, List.append_nil, ← List.append_assoc,
            none] at found
          cases found
  | cons segment after =>
      have skipped := indexOf?_quoted_skip wordFree frontFree free absent
        (segment ++ quoted quote after)
      rw [quoted_append, quoted_cons, ← List.append_assoc, List.cons_append, skipped] at found
      obtain ⟨_, _, rfl⟩ := Option.map_eq_some_iff.mp found
      exact Nat.le_add_right _ _

/-! ## Texts that a quote follows -/

/-- Where a token starts in a text without it that a quote follows: behind the text, or
so that its last quote is the one that follows. -/
theorem le_of_indexOf?_token_append {word front after : List α} {position : Nat}
    (wordFree : quote ∉ word) (absent : indexOf? (token quote word) front = none)
    (next : after = [] ∨ after.head? = some quote)
    (found : indexOf? (token quote word) (front ++ after) = some position) :
    front.length ≤ position ∨
      (position + word.length + 1 = front.length ∧ quote :: word <:+ front) := by
  by_cases inside : front.length ≤ position
  · exact Or.inl inside
  right
  have before : position < front.length := Nat.not_le.mp inside
  obtain ⟨_, stands, _⟩ := indexOf?_eq_some_iff.mp found
  have overhang : ¬ position + (token quote word).length ≤ front.length := by
    intro whole
    have here := prefix_drop_of_append whole stands
    exact indexOf?_eq_none_iff.mp absent (here.isInfix.trans (List.drop_suffix _ _).isInfix)
  rw [List.drop_append_of_le_length before.le, List.drop_eq_getElem_cons before] at stands
  obtain ⟨tail, same⟩ := stands
  rw [token, List.cons_append, List.cons_append, List.cons.injEq] at same
  obtain ⟨opens, same⟩ := same
  rw [length_token] at overhang
  have short : (front.drop (position + 1)).length ≤ word.length := by
    rw [List.length_drop]
    omega
  rcases next with empty | quoteNext
  · exfalso
    have lengths := congrArg List.length same
    rw [empty, List.append_nil, List.length_append, List.length_append, List.length_singleton]
      at lengths
    omega
  obtain ⟨rest, rfl⟩ := List.head?_eq_some_iff.mp quoteNext
  have ends : front.drop (position + 1) = word := by
    by_cases shorter : (front.drop (position + 1)).length < word.length
    · exfalso
      apply wordFree
      have at' : (word ++ [quote] ++ tail)[(front.drop (position + 1)).length]? = some quote := by
        rw [same]
        simp
      rw [List.append_assoc, List.getElem?_append_left shorter] at at'
      exact List.mem_of_getElem? at'
    · rw [List.append_assoc] at same
      exact (List.append_inj same (by omega)).1.symm
  refine ⟨?_, ?_⟩
  · have lengths := congrArg List.length ends
    rw [List.length_drop] at lengths
    omega
  · rw [← ends, opens, ← List.drop_eq_getElem_cons before]
    exact List.drop_suffix _ _

/-- A token is found where it follows a text that neither has it nor ends in a quote and
its word. -/
theorem indexOf?_token_next {word front : List α} (wordFree : quote ∉ word)
    (absent : indexOf? (token quote word) front = none) (noEnd : ¬ quote :: word <:+ front)
    (rest : List α) :
    indexOf? (token quote word) (front ++ (token quote word ++ rest)) = some front.length := by
  have stands : token quote word <+: (front ++ (token quote word ++ rest)).drop front.length := by
    rw [List.drop_left]
    exact List.prefix_append _ _
  cases found : indexOf? (token quote word) (front ++ (token quote word ++ rest)) with
  | none =>
      exfalso
      exact indexOf?_eq_none_iff.mp found (stands.isInfix.trans (List.drop_suffix _ _).isInfix)
  | some position =>
      obtain ⟨_, _, noEarlier⟩ := indexOf?_eq_some_iff.mp found
      have notLater : ¬ front.length < position := fun later => noEarlier _ later stands
      rcases le_of_indexOf?_token_append wordFree absent (Or.inr rfl) found with behind | ending
      · rw [Nat.le_antisymm (Nat.not_lt.mp notLater) behind]
      · exact absurd ending.2 noEnd

/-- A quote behind a text that ends in a quote and a word makes a token. -/
theorem indexOf?_token_closed {word front : List α} (wordFree : quote ∉ word)
    (absent : indexOf? (token quote word) (front ++ quote :: word) = none) (rest : List α) :
    indexOf? (token quote word) (front ++ quote :: word ++ quote :: rest) =
      some front.length := by
  have stands : token quote word <+:
      (front ++ quote :: word ++ quote :: rest).drop front.length := by
    rw [List.append_assoc, List.drop_left]
    exact ⟨rest, by simp [token]⟩
  cases found : indexOf? (token quote word) (front ++ quote :: word ++ quote :: rest) with
  | none =>
      exfalso
      exact indexOf?_eq_none_iff.mp found (stands.isInfix.trans (List.drop_suffix _ _).isInfix)
  | some position =>
      obtain ⟨_, _, noEarlier⟩ := indexOf?_eq_some_iff.mp found
      have notLater : ¬ front.length < position := fun later => noEarlier _ later stands
      rcases le_of_indexOf?_token_append wordFree absent (Or.inr rfl) found with behind | ending
      · rw [List.length_append, List.length_cons] at behind
        omega
      · rw [List.length_append, List.length_cons] at ending
        rw [show position = front.length by omega]

/-! ## Last segments -/

/-- What follows the last quote, or the whole text. -/
def lastSegment (quote : α) (text : List α) : List α := text.rtakeWhile (· ≠ quote)

theorem lastSegment_of_not_mem {text : List α} (absent : quote ∉ text) :
    lastSegment quote text = text := by
  unfold lastSegment
  rw [List.rtakeWhile_eq_self_iff]
  intro symbol member
  simpa using fun same : symbol = quote => absent (same ▸ member)

theorem lastSegment_append_quote (front : List α) {rest : List α} (absent : quote ∉ rest) :
    lastSegment quote (front ++ quote :: rest) = rest := by
  unfold lastSegment List.rtakeWhile
  rw [List.reverse_append, List.reverse_cons, List.append_assoc, List.takeWhile_append_of_pos,
    List.singleton_append, List.takeWhile_cons_of_neg (by simp), List.append_nil,
    List.reverse_reverse]
  intro symbol member
  simpa using fun same : symbol = quote => absent (same ▸ List.mem_reverse.mp member)

/-- A front is seen only when no quote follows it. -/
theorem lastSegment_append_of_mem (front : List α) {rest : List α} (member : quote ∈ rest) :
    lastSegment quote (front ++ rest) = lastSegment quote rest := by
  obtain ⟨before, after, rfl, absent⟩ : ∃ before after, rest = before ++ quote :: after ∧
      quote ∉ after := by
    induction rest using List.reverseRecOn with
    | nil => cases member
    | append_singleton initial last inductionHypothesis =>
        by_cases same : last = quote
        · exact ⟨initial, [], by rw [same], by simp⟩
        · have inInitial : quote ∈ initial := by
            rcases List.mem_append.mp member with inside | isLast
            · exact inside
            · exact absurd (List.mem_singleton.mp isLast).symm same
          obtain ⟨before, after, rfl, absent⟩ := inductionHypothesis inInitial
          refine ⟨before, after ++ [last], by simp, ?_⟩
          simp [absent, Ne.symm same]
  rw [← List.append_assoc, lastSegment_append_quote _ absent, lastSegment_append_quote _ absent]

end StadiumRecomp.Lib.Quoted
