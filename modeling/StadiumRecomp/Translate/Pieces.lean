import StadiumRecomp.Translate.Regions

/-!
Contract: the loader on a text made of pieces, each broken off in front of a
`"src_hex"`.

Owns: what a pass reads beyond such a break, and the loop over a text as the loops over
its pieces.

Does not own: what writes the pieces.
-/

set_option autoImplicit false

namespace StadiumRecomp.Translate

open StadiumRecomp.Lib
open StadiumRecomp.Lib.Quoted

/-- The piece ends in a blank, so that no name, string or escape is cut at its end. -/
def EndsBlank (piece : Bytes) : Prop := piece.getLast? = some 0x20

theorem EndsBlank.not_suffix {piece ending : Bytes} (blank : EndsBlank piece)
    (other : ending.getLast? ≠ some 0x20) (nonempty : ending ≠ []) : ¬ ending <:+ piece := by
  rintro ⟨front, rfl⟩
  apply other
  rw [EndsBlank, List.getLast?_append_of_ne_nil _ nonempty] at blank
  exact blank

theorem EndsBlank.of_suffix {piece ending : Bytes} (blank : EndsBlank piece)
    (isSuffix : ending <:+ piece) (nonempty : ending ≠ []) : EndsBlank ending := by
  obtain ⟨front, rfl⟩ := isSuffix
  rwa [EndsBlank, List.getLast?_append_of_ne_nil _ nonempty] at blank

theorem EndsBlank.mayFollow {piece : Bytes} (blank : EndsBlank piece)
    (absent : Search.indexOf? srcToken piece = none) (rest : Bytes) :
    MayFollow piece (srcToken ++ rest) :=
  ⟨absent, Or.inr ⟨List.prefix_append _ _,
    blank.not_suffix (by decide) (List.cons_ne_nil _ _)⟩⟩

/-! ## Strings across a break -/

/-- A string that runs into the next `"src_hex"` ends there, unless half an escape stands
in front of it. -/
theorem readQuoted_next_src {text : Bytes} (whole : ¬ [backslash] <:+ text) (rest : Bytes) :
    (readQuoted (text ++ (srcToken ++ rest))).1 = (readQuoted (text ++ srcToken)).1 := by
  rw [readQuoted_append, readQuoted_append]
  cases ending : scanString text with
  | closes content behind => rfl
  | runsOn content =>
      have opened : ∀ more, (readQuoted (srcToken ++ more)).1 = [] :=
        fun more => readQuoted_next (Or.inr rfl)
      have alone := opened []
      rw [List.append_nil] at alone
      simp only [StringEnd.read, opened, alone]
  | dangles content => exact absurd (suffix_of_dangles ending) whole

theorem readQuoted_srcWord (rest : Bytes) :
    readQuoted (srcWord ++ quote :: rest) = (srcWord, rest) :=
  readQuoted_plain (List.all_iff_forall_prop.mp (by decide)) rest

/-- Two texts that may follow a region start with the same `"src_hex"`, and with the same
string behind it where the region may need that. -/
def BreaksAlike (region after other : Bytes) : Prop :=
  ∃ behind otherBehind, after = srcToken ++ behind ∧ other = srcToken ++ otherBehind ∧
    (¬ EndsBlank region → (readQuoted behind).1 = (readQuoted otherBehind).1)

theorem TargetEnd.read_alike {region after other : Bytes} (alike : BreaksAlike region after other)
    {ending : TargetEnd} (cut : ending = .cutName → ¬ EndsBlank region) :
    ending.read after = ending.read other := by
  obtain ⟨behind, otherBehind, rfl, rfl, strings⟩ := alike
  have first : ∀ rest, firstString (srcToken ++ rest) = srcWord := by
    intro rest
    exact congrArg Prod.fst (readQuoted_srcWord rest)
  have second : ∀ rest, firstString (srcToken ++ rest).tail = (readQuoted rest).1 := by
    intro rest
    have split : (srcToken ++ rest).tail = srcWord ++ quote :: rest := by
      simp [srcToken_eq, token]
    have found : Search.indexOf? [quote] (srcWord ++ quote :: rest) = some srcWord.length :=
      indexOf?_quote srcWord_free rest
    rw [split, firstString, found]
    simp only [List.drop_left]
    rfl
  cases ending with
  | absent => rfl
  | cutName =>
      simp only [TargetEnd.read, second]
      exact strings (cut rfl)
  | noValue => simp only [TargetEnd.read, first]
  | value ending =>
      cases ending with
      | closes content rest => rfl
      | runsOn content =>
          have opened : ∀ rest, (readQuoted (srcToken ++ rest)).1 = [] :=
            fun rest => readQuoted_next (Or.inr rfl)
          simp only [TargetEnd.read, StringEnd.read, opened]
      | dangles content =>
          have escaped : ∀ rest, (readQuoted (backslash :: (srcToken ++ rest))).1 =
              quote :: srcWord := by
            intro rest
            have split : backslash :: (srcToken ++ rest) =
                backslash :: quote :: (srcWord ++ quote :: rest) := by
              simp [srcToken_eq, token]
            rw [split, readQuoted_escape, readQuoted_srcWord]
            rfl
          simp only [TargetEnd.read, StringEnd.read, escaped]

/-- A pass reads the same on both sides of a break. -/
theorem loadEntry_alike {region after other : Bytes} (alike : BreaksAlike region after other) :
    loadEntry (region ++ after) region.length = loadEntry (region ++ other) region.length := by
  have shape := alike
  obtain ⟨behind, otherBehind, afterEq, otherEq, _⟩ := shape
  cases source : ownSource region with
  | none => rw [loadEntry_of_no_source source, loadEntry_of_no_source source]
  | some found =>
      obtain ⟨bytes, fields⟩ := found
      have next : ∀ {text more : Bytes}, text = srcToken ++ more →
          text = [] ∨ text.head? = some quote := by
        rintro text more rfl
        exact Or.inr rfl
      rw [loadEntry_of_source source (next afterEq), loadEntry_of_source source (next otherEq)]
      congr 1
      apply TargetEnd.read_alike alike
      intro cut blank
      exact blank.not_suffix (by decide) (List.cons_ne_nil _ _)
        ((suffix_of_cutName cut).trans (suffix_of_ownSource source))

/-! ## Pieces -/

theorem entryEnd_next_src {piece : Bytes} (blank : EndsBlank piece) (rest : Bytes) :
    entryEnd (piece ++ (srcToken ++ rest)) = entryEnd piece := by
  cases found : Search.indexOf? srcToken piece with
  | none =>
      rw [entryEnd_of_mayFollow (blank.mayFollow found rest)]
      unfold entryEnd
      rw [found]
      rfl
  | some position =>
      unfold entryEnd
      rw [Search.indexOf?_append found, found]
      rfl

/-- A pass in front of a break reads nothing beyond the name that follows it. -/
theorem loadEntry_next_src {piece : Bytes} (blank : EndsBlank piece) (rest : Bytes) :
    loadEntry (piece ++ (srcToken ++ rest)) (entryEnd piece) =
      loadEntry (piece ++ srcToken) (entryEnd piece) := by
  set region := piece.take (entryEnd piece) with regionEq
  set more := piece.drop (entryEnd piece) with moreEq
  have split : piece = region ++ more := (List.take_append_drop _ _).symm
  have follows := mayFollow_entryEnd piece
  have stop : entryEnd piece = region.length := by
    rw [← entryEnd_of_mayFollow follows, List.take_append_drop]
  rw [stop]
  conv_lhs => rw [split, List.append_assoc]
  conv_rhs => rw [split, List.append_assoc]
  apply loadEntry_alike
  rcases follows.2 with nothing | ⟨⟨behind, behindEq⟩, _⟩
  · have noMore : more = [] := nothing
    rw [noMore, List.append_nil] at split
    rw [noMore, List.nil_append, List.nil_append]
    refine ⟨rest, [], rfl, (List.append_nil _).symm, fun notBlank => ?_⟩
    exact absurd (split ▸ blank) notBlank
  · have moreShape : more = srcToken ++ behind := behindEq.symm
    refine ⟨behind ++ (srcToken ++ rest), behind ++ srcToken, by rw [moreShape]; simp,
      by rw [moreShape]; simp, fun _ => ?_⟩
    apply readQuoted_next_src
    have moreBlank : EndsBlank more := blank.of_suffix (List.drop_suffix _ _) (by
      rw [moreShape]
      exact List.cons_ne_nil _ _)
    intro escape
    refine moreBlank.not_suffix (by decide) (List.cons_ne_nil _ _) (escape.trans ?_)
    rw [moreShape]
    exact List.suffix_append _ _

/-- The loop over a piece and what follows the break behind it. -/
theorem loadEntries_append_src {piece : Bytes} (blank : EndsBlank piece) (rest : Bytes) :
    loadEntries (piece ++ (srcToken ++ rest)) =
      loadEntries (piece ++ srcToken) ++ loadEntries (srcToken ++ rest) := by
  induction length : piece.length using Nat.strong_induction_on generalizing piece with
  | _ count inductionHypothesis =>
      cases found : Search.indexOf? srcToken piece with
      | none =>
          have skipped : ∀ rest, loadEntries (piece ++ (srcToken ++ rest)) =
              loadEntries (srcToken ++ rest) := by
            intro rest
            have ends := entryEnd_of_mayFollow (blank.mayFollow found rest)
            have dropped := loadEntries_drop ends.ge
            rw [List.drop_left] at dropped
            exact dropped.symm
          have alone := skipped []
          have nothing : loadEntries srcToken = [] := by decide +kernel
          rw [List.append_nil, nothing] at alone
          rw [skipped, alone, List.nil_append]
      | some position =>
          have inside := Search.add_length_le_of_indexOf? found
          rw [length_srcToken] at inside
          set behind := piece.drop (position + 9) with behindEq
          have nonempty : behind ≠ [] := by
            intro empty
            obtain ⟨_, ⟨tail, stands⟩, _⟩ := Search.indexOf?_eq_some_iff.mp found
            have noTail : tail = [] := by
              have lengths := congrArg List.length stands
              have dropped := congrArg List.length (behindEq.symm.trans empty)
              rw [List.length_append, List.length_drop, length_srcToken] at lengths
              rw [List.length_drop, List.length_nil] at dropped
              exact List.length_eq_zero_iff.mp (by omega)
            rw [noTail, List.append_nil] at stands
            have noSuffix : ¬ srcToken <:+ piece :=
              blank.not_suffix (by decide) (List.cons_ne_nil _ _)
            apply noSuffix
            rw [stands]
            exact List.drop_suffix _ _
          have behindBlank := blank.of_suffix (List.drop_suffix _ _) nonempty
          have step : ∀ rest, loadEntries (piece ++ (srcToken ++ rest)) =
              (loadEntry (behind ++ srcToken) (entryEnd behind)).toList ++
                loadEntries (behind.drop (entryEnd behind) ++ (srcToken ++ rest)) := by
            intro rest
            have endBound : entryEnd behind ≤ behind.length := by
              have ends := congrArg List.length
                (List.take_append_drop (entryEnd behind) behind)
              have follows := entryEnd_of_mayFollow (mayFollow_entryEnd behind)
              rw [List.take_append_drop] at follows
              rw [follows]
              exact List.length_take_le' _ _
            rw [loadEntries_of_some (Search.indexOf?_append found _),
              List.drop_append_of_le_length inside, entryEnd_next_src behindBlank,
              loadEntry_next_src behindBlank, List.drop_append_of_le_length endBound]
          have alone := step []
          rw [List.append_nil] at alone
          rw [step, alone, List.append_assoc]
          congr 1
          by_cases last : behind.drop (entryEnd behind) = []
          · have nothing : loadEntries srcToken = [] := by decide +kernel
            rw [last, List.nil_append, List.nil_append, nothing, List.nil_append]
          · refine inductionHypothesis (behind.drop (entryEnd behind)).length ?_
              (behindBlank.of_suffix (List.drop_suffix _ _) last) rfl
            rw [behindEq, List.length_drop, List.length_drop]
            omega

end StadiumRecomp.Translate
