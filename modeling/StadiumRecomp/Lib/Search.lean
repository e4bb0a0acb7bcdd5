import Mathlib.Data.List.Infix

/-!
Contract: first-occurrence search in a list.

Owns: `indexOf?` (the first position at which a pattern stands), the search for
the first position accepted by a matcher, the insertion point in a sorted list, and
the laws that locate an occurrence in a text of known shape.

Does not own: any pattern.
-/

set_option autoImplicit false

namespace StadiumRecomp.Lib.Search

variable {α β : Type}

/-- The pattern's remainder when it stands at the front of the text. -/
def dropPrefix? [DecidableEq α] : List α → List α → Option (List α)
  | [], text => some text
  | _ :: _, [] => none
  | symbol :: pattern, head :: text =>
      if symbol = head then dropPrefix? pattern text else none

/-- First position at which `pattern` stands in the text. -/
def indexOf? [DecidableEq α] (pattern : List α) : List α → Option Nat
  | [] => if pattern.isEmpty then some 0 else none
  | symbol :: rest =>
      if pattern.isPrefixOf (symbol :: rest) then some 0
      else (indexOf? pattern rest).map (· + 1)

/-- First position accepted by `matcher`, with what it returned there. -/
def firstMatch (matcher : List α → Option β) : List α → Option (Nat × β)
  | [] => (matcher []).map (fun result => (0, result))
  | symbol :: rest =>
      match matcher (symbol :: rest) with
      | some result => some (0, result)
      | none => (firstMatch matcher rest).map
          (fun found => (found.1 + 1, found.2))

/-- `re.finditer` of a pattern that matches no empty text: what the matcher found at each first
position it accepts, each search starting behind the match before. The first argument counts the
symbols of a match that are still to be passed over. -/
def findAll (matcher : List α → Option (β × List α)) : Nat → List α → List β
  | _, [] => []
  | left + 1, _ :: rest => findAll matcher left rest
  | 0, symbol :: rest =>
      match matcher (symbol :: rest) with
      | some (found, behind) => found :: findAll matcher (rest.length - behind.length) rest
      | none => findAll matcher 0 rest

/-- `bisect.bisect_right` on a sorted list of integers. -/
def bisectRight (sorted : List Int) (value : Int) : Nat :=
  (sorted.takeWhile (· ≤ value)).length

/-- Before the insertion point stand values at or below the inserted one. -/
theorem le_of_lt_bisectRight {sorted : List Int} {value element : Int} {index : Nat}
    (stands : sorted[index]? = some element) (before : index < bisectRight sorted value) :
    element ≤ value := by
  unfold bisectRight at before
  have kept := List.prefix_iff_getElem?.mp
    (List.takeWhile_prefix (fun other => decide (other ≤ value))) index before
  rw [stands, Option.some.injEq] at kept
  have accepted := List.all_eq_true.mp List.all_takeWhile _ (List.getElem_mem before)
  rw [kept]
  exact of_decide_eq_true accepted

/-- In a sorted list, the insertion point is past every value at or below the
inserted one. -/
theorem lt_bisectRight {sorted : List Int} (ordered : sorted.Pairwise (· ≤ ·))
    {value element : Int} {index : Nat} (stands : sorted[index]? = some element)
    (below : element ≤ value) : index < bisectRight sorted value := by
  unfold bisectRight
  induction sorted generalizing index with
  | nil => cases stands
  | cons head rest inductionHypothesis =>
      have headBelow : head ≤ value := by
        cases index with
        | zero =>
            rw [List.getElem?_cons_zero, Option.some.injEq] at stands
            rw [stands]
            exact below
        | succ index =>
            rw [List.getElem?_cons_succ] at stands
            have member := List.mem_of_getElem? stands
            exact Int.le_trans (List.rel_of_pairwise_cons ordered member) below
      rw [List.takeWhile_cons_of_pos (by simpa using headBelow), List.length_cons]
      cases index with
      | zero => exact Nat.succ_pos _
      | succ index =>
          rw [List.getElem?_cons_succ] at stands
          exact Nat.succ_lt_succ (inductionHypothesis ordered.of_cons stands)

/-- `firstMatch` finds the first position its matcher accepts. -/
theorem firstMatch_eq_some_iff {matcher : List α → Option β} {text : List α}
    {position : Nat} {result : β} :
    firstMatch matcher text = some (position, result) ↔
      position ≤ text.length ∧ matcher (text.drop position) = some result ∧
        ∀ earlier < position, matcher (text.drop earlier) = none := by
  induction text generalizing position with
  | nil =>
      simp only [firstMatch, Option.map_eq_some_iff, Prod.mk.injEq, List.length_nil,
        List.drop_nil]
      constructor
      · rintro ⟨found, accepted, rfl, rfl⟩
        exact ⟨Nat.le_refl 0, accepted, by simp⟩
      · intro ⟨bound, accepted, _⟩
        exact ⟨result, accepted, (Nat.le_zero.mp bound).symm, rfl⟩
  | cons symbol rest inductionHypothesis =>
      simp only [firstMatch]
      cases here : matcher (symbol :: rest) with
      | some found =>
          simp only [Option.some.injEq, Prod.mk.injEq]
          constructor
          · rintro ⟨rfl, rfl⟩
            exact ⟨Nat.zero_le _, here, by simp⟩
          · intro ⟨_, accepted, noEarlier⟩
            cases position with
            | zero =>
                rw [List.drop_zero, here] at accepted
                exact ⟨rfl, Option.some.inj accepted⟩
            | succ position =>
                have impossible := noEarlier 0 (Nat.succ_pos position)
                rw [List.drop_zero, here] at impossible
                cases impossible
      | none =>
          cases position with
          | zero => simp [here]
          | succ position =>
              simp only [Option.map_eq_some_iff, Prod.mk.injEq, Nat.add_right_cancel_iff,
                Prod.exists]
              constructor
              · rintro ⟨foundAt, found, matched, rfl, rfl⟩
                obtain ⟨bound, accepted, noEarlier⟩ := inductionHypothesis.mp matched
                refine ⟨Nat.succ_le_succ bound, accepted, ?_⟩
                intro earlier before
                cases earlier with
                | zero => exact here
                | succ earlier => exact noEarlier earlier (Nat.lt_of_succ_lt_succ before)
              · intro ⟨bound, accepted, noEarlier⟩
                refine ⟨position, result, inductionHypothesis.mpr ⟨Nat.le_of_succ_le_succ bound,
                  accepted, ?_⟩, rfl, rfl⟩
                intro earlier before
                exact noEarlier (earlier + 1) (Nat.succ_lt_succ before)

/-- What the first match returned, symbol by symbol. -/
theorem firstMatch_cons_snd (matcher : List α → Option β) (symbol : α) (rest : List α) :
    (firstMatch matcher (symbol :: rest)).map Prod.snd =
      (matcher (symbol :: rest)).or ((firstMatch matcher rest).map Prod.snd) := by
  show Option.map Prod.snd (match matcher (symbol :: rest) with | some _ => _ | none => _) = _
  cases matcher (symbol :: rest) with
  | some result => rfl
  | none =>
      show Option.map Prod.snd (Option.map _ (firstMatch matcher rest)) = _
      rw [Option.map_map]
      rfl

/-- What stands at a position of a text stands there when more follows. -/
theorem prefix_drop_append {pattern text : List α} {position : Nat}
    (stands : pattern <+: text.drop position) (bound : position ≤ text.length)
    (more : List α) : pattern <+: (text ++ more).drop position := by
  rw [List.drop_append_of_le_length bound]
  exact stands.trans (List.prefix_append _ _)

/-- What stands in a text whole stood there before more followed. -/
theorem prefix_drop_of_append {pattern text more : List α} {position : Nat}
    (inside : position + pattern.length ≤ text.length)
    (stands : pattern <+: (text ++ more).drop position) : pattern <+: text.drop position := by
  rw [List.drop_append_of_le_length (by omega)] at stands
  exact List.prefix_of_prefix_length_le stands (List.prefix_append _ _)
    (by rw [List.length_drop]; omega)

section Occurrence

variable [DecidableEq α]

theorem dropPrefix?_eq_some {pattern text rest : List α} :
    dropPrefix? pattern text = some rest ↔ text = pattern ++ rest := by
  induction pattern generalizing text with
  | nil => simp [dropPrefix?, eq_comm]
  | cons symbol pattern inductionHypothesis =>
      cases text with
      | nil => simp [dropPrefix?]
      | cons head text =>
          by_cases equal : symbol = head
          · simp [dropPrefix?, equal, inductionHypothesis]
          · have different : head ≠ symbol := fun same => equal same.symm
            simp [dropPrefix?, equal, different]

/-- A pattern cannot reach over a symbol it does not hold. -/
theorem dropPrefix?_append_cons {pattern : List α} {symbol : α} (absent : symbol ∉ pattern)
    (text rest : List α) : dropPrefix? pattern (text ++ symbol :: rest) =
      (dropPrefix? pattern text).map (· ++ symbol :: rest) := by
  induction pattern generalizing text with
  | nil => rfl
  | cons head pattern inductionHypothesis =>
      obtain ⟨different, tailAbsent⟩ := List.ne_and_not_mem_of_not_mem_cons absent
      cases text with
      | nil => exact if_neg (Ne.symm different)
      | cons other text =>
          show (if head = other then dropPrefix? pattern (text ++ symbol :: rest) else none) =
            Option.map _ (if head = other then dropPrefix? pattern text else none)
          by_cases same : head = other
          · rw [if_pos same, if_pos same]
            exact inductionHypothesis tailAbsent text
          · rw [if_neg same, if_neg same]
            rfl

theorem dropPrefix?_append_pattern (front pattern text : List α) :
    dropPrefix? (front ++ pattern) text =
      (dropPrefix? front text).bind (dropPrefix? pattern) := by
  induction front generalizing text with
  | nil => rfl
  | cons head front inductionHypothesis =>
      cases text with
      | nil => rfl
      | cons other text =>
          show (if head = other then dropPrefix? (front ++ pattern) text else none) =
            Option.bind (if head = other then dropPrefix? front text else none) _
          by_cases same : head = other
          · rw [if_pos same, if_pos same]
            exact inductionHypothesis text
          · rw [if_neg same, if_neg same]
            rfl

theorem indexOf?_of_prefix {pattern text : List α} (isPrefix : pattern <+: text) :
    indexOf? pattern text = some 0 := by
  cases text with
  | nil =>
      have empty := List.prefix_nil.mp isPrefix
      simp [indexOf?, empty]
  | cons symbol rest =>
      simp [indexOf?, List.isPrefixOf_iff_prefix.mpr isPrefix]

/-- `indexOf?` finds a position where the pattern stands, and it stands at no
earlier one. -/
theorem indexOf?_eq_some_iff {pattern text : List α} {position : Nat} :
    indexOf? pattern text = some position ↔
      position ≤ text.length ∧ pattern <+: text.drop position ∧
        ∀ earlier < position, ¬ pattern <+: text.drop earlier := by
  induction text generalizing position with
  | nil =>
      by_cases empty : pattern = []
      · subst empty
        simp only [indexOf?, List.isEmpty_nil, if_true, Option.some.injEq,
          List.length_nil, List.drop_nil, List.prefix_refl, true_and]
        constructor
        · rintro rfl
          simp
        · intro ⟨bound, _⟩
          omega
      · simp [indexOf?, empty]
  | cons symbol rest inductionHypothesis =>
      simp only [indexOf?]
      by_cases here : pattern.isPrefixOf (symbol :: rest) = true
      · have isPrefix := List.isPrefixOf_iff_prefix.mp here
        rw [if_pos here]
        constructor
        · intro equal
          cases equal
          exact ⟨by simp, by simpa using isPrefix, by simp⟩
        · intro ⟨_, _, noEarlier⟩
          cases position with
          | zero => rfl
          | succ position => exact absurd isPrefix (noEarlier 0 (by omega))
      · have notPrefix : ¬ pattern <+: symbol :: rest := fun isPrefix =>
          here (List.isPrefixOf_iff_prefix.mpr isPrefix)
        rw [if_neg here]
        cases position with
        | zero => simp [notPrefix]
        | succ position =>
            simp only [Option.map_eq_some_iff, Nat.add_right_cancel_iff,
              exists_eq_right, inductionHypothesis, List.length_cons,
              Nat.add_le_add_iff_right, List.drop_succ_cons]
            constructor
            · intro ⟨bound, stands, noEarlier⟩
              refine ⟨bound, stands, ?_⟩
              intro earlier before
              cases earlier with
              | zero => exact notPrefix
              | succ earlier => exact noEarlier earlier (by omega)
            · intro ⟨bound, stands, noEarlier⟩
              refine ⟨bound, stands, ?_⟩
              intro earlier before
              exact noEarlier (earlier + 1) (by omega)

theorem indexOf?_eq_none_iff {pattern text : List α} :
    indexOf? pattern text = none ↔ ¬ pattern <:+: text := by
  induction text with
  | nil => simp [indexOf?]
  | cons symbol rest inductionHypothesis =>
      rw [List.infix_cons_iff]
      by_cases here : pattern.isPrefixOf (symbol :: rest) = true
      · have isPrefix := List.isPrefixOf_iff_prefix.mp here
        simp [indexOf?, here, isPrefix]
      · have notPrefix : ¬ pattern <+: symbol :: rest := fun isPrefix =>
          here (List.isPrefixOf_iff_prefix.mpr isPrefix)
        simp [indexOf?, here, notPrefix, inductionHypothesis]

theorem add_length_le_of_indexOf? {pattern text : List α} {position : Nat}
    (found : indexOf? pattern text = some position) :
    position + pattern.length ≤ text.length := by
  obtain ⟨bound, stands, _⟩ := indexOf?_eq_some_iff.mp found
  have short := stands.length_le
  rw [List.length_drop] at short
  omega

/-- A search that succeeds does not see what follows. -/
theorem indexOf?_append {pattern text : List α} {position : Nat}
    (found : indexOf? pattern text = some position) (more : List α) :
    indexOf? pattern (text ++ more) = some position := by
  have inside := add_length_le_of_indexOf? found
  obtain ⟨bound, stands, noEarlier⟩ := indexOf?_eq_some_iff.mp found
  rw [indexOf?_eq_some_iff, List.length_append]
  refine ⟨Nat.le_add_right_of_le bound, prefix_drop_append stands bound more, ?_⟩
  intro earlier before standsEarlier
  exact noEarlier earlier before (prefix_drop_of_append (by omega) standsEarlier)

end Occurrence

/-! ## All matches -/

section All

variable {matcher : List α → Option (β × List α)}

theorem findAll_length (front rest : List α) :
    findAll matcher front.length (front ++ rest) = findAll matcher 0 rest := by
  induction front with
  | nil => rfl
  | cons symbol front inductionHypothesis => exact inductionHypothesis

/-- A match is found and passed over. -/
theorem findAll_match {symbol : α} {front rest : List α} {found : β}
    (matched : matcher (symbol :: front ++ rest) = some (found, rest)) :
    findAll matcher 0 (symbol :: front ++ rest) = found :: findAll matcher 0 rest := by
  rw [List.cons_append] at matched ⊢
  rw [findAll, matched]
  show found :: findAll matcher ((front ++ rest).length - rest.length) (front ++ rest) = _
  rw [List.length_append, Nat.add_sub_cancel, findAll_length]

/-- Symbols at which nothing matches are passed over. -/
theorem findAll_append {front rest : List α}
    (nowhere : ∀ symbol ∈ front, ∀ behind, matcher (symbol :: behind) = none) :
    findAll matcher 0 (front ++ rest) = findAll matcher 0 rest := by
  induction front with
  | nil => rfl
  | cons symbol front inductionHypothesis =>
      rw [List.cons_append, findAll, nowhere symbol List.mem_cons_self]
      exact inductionHypothesis fun other member => nowhere other (List.mem_cons_of_mem _ member)

end All

/-! ## Fronts without an occurrence -/

section Nowhere

variable {pattern : List α}

/-- The pattern starts nowhere in a front that something follows. -/
def StartsNowhere (pattern : List α) : List α → List α → Prop
  | [], _ => True
  | symbol :: front, behind =>
      ¬ pattern <+: symbol :: (front ++ behind) ∧ StartsNowhere pattern front behind

theorem StartsNowhere.append {front middle behind : List α}
    (first : StartsNowhere pattern front (middle ++ behind))
    (second : StartsNowhere pattern middle behind) :
    StartsNowhere pattern (front ++ middle) behind := by
  induction front with
  | nil => exact second
  | cons symbol front inductionHypothesis =>
      obtain ⟨here, later⟩ := first
      refine ⟨?_, inductionHypothesis later⟩
      show ¬ pattern <+: symbol :: (front ++ middle ++ behind)
      rw [List.append_assoc]
      exact here

/-- A pattern starts only at its first symbol. -/
theorem startsNowhere_of_not_mem {head : α} {rest front behind : List α} (absent : head ∉ front) :
    StartsNowhere (head :: rest) front behind := by
  induction front with
  | nil => trivial
  | cons symbol front inductionHypothesis =>
      have others := fun member => absent (List.mem_cons_of_mem symbol member)
      refine ⟨?_, inductionHypothesis others⟩
      intro starts
      have same := (List.cons_prefix_cons.mp starts).1
      rw [same] at absent
      exact absent List.mem_cons_self

theorem indexOf?_of_startsNowhere [DecidableEq α] {front behind : List α}
    (nowhere : StartsNowhere pattern front (pattern ++ behind)) :
    indexOf? pattern (front ++ (pattern ++ behind)) = some front.length := by
  induction front with
  | nil => exact indexOf?_of_prefix (List.prefix_append pattern behind)
  | cons symbol front inductionHypothesis =>
      obtain ⟨here, later⟩ := nowhere
      have notHere : ¬ pattern.isPrefixOf (symbol :: (front ++ (pattern ++ behind))) = true :=
        fun starts => here (List.isPrefixOf_iff_prefix.mp starts)
      rw [List.cons_append, indexOf?, if_neg notHere, inductionHypothesis later]
      rfl

theorem indexOf?_eq_none_of_startsNowhere [DecidableEq α] {front : List α} (nonempty : pattern ≠ [])
    (nowhere : StartsNowhere pattern front []) : indexOf? pattern front = none := by
  induction front with
  | nil =>
      rw [indexOf?, if_neg]
      intro empty
      exact nonempty (List.isEmpty_iff.mp empty)
  | cons symbol front inductionHypothesis =>
      obtain ⟨here, later⟩ := nowhere
      rw [List.append_nil] at here
      have notHere : ¬ pattern.isPrefixOf (symbol :: front) = true :=
        fun starts => here (List.isPrefixOf_iff_prefix.mp starts)
      rw [indexOf?, if_neg notHere, inductionHypothesis later]
      rfl

end Nowhere

end StadiumRecomp.Lib.Search
