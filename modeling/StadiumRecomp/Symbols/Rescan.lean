import StadiumRecomp.Symbols.Growth
import StadiumRecomp.Symbols.ReadBack
import Mathlib.Order.Bounds.Basic

/-!
Contract: a scan for missing functions between two generations of `symbols.toml`.

Owns: the emitted functions as owners with the next emitted address as limit, that adds outside
of every function leave each function as it is, and one generation, a scan and the generation
behind it.

Does not own: the words the scan takes for a prologue.
-/

set_option autoImplicit false

namespace StadiumRecomp.Symbols

open StadiumRecomp.Lib
open StadiumRecomp.Lib.PyInt

/-! ## The emitted functions -/

section Emitted

variable {bounds : Section} {inputs : Inputs}

/-- Where a function at `vram` has to end at the latest. -/
def Inputs.Limits (bounds : Section) (inputs : Inputs) (vram : Int) : Set Int :=
  {limit | vram < limit ∧ (limit = bounds.hi ∨ inputs.Emits bounds limit)}

/-- What stands at an emitted address: its owner, as far as the next address. -/
structure Inputs.Owns (bounds : Section) (inputs : Inputs) (fn source : Fn) (next : Int) :
    Prop where
  owner : inputs.owner fn.vram = some source
  kept : keeps bounds inputs.drops fn.vram = true
  name : fn.name = (inputs.renames.get? fn.vram).getD source.name
  limit : IsLeast (inputs.Limits bounds fn.vram) next
  size : fn.size = finalSize ((inputs.sizeOverrides.get? fn.vram).getD 0)
    (next - fn.vram) source.size

theorem exists_emitted_iff (wellFormed : inputs.WellFormed) (vram : Int) :
    (∃ fn ∈ emitted bounds inputs inputs.sizeOverrides, fn.vram = vram) ↔
      inputs.Emits bounds vram := by
  have vrams : (emitted bounds inputs inputs.sizeOverrides).map Fn.vram =
      (listed bounds inputs).map Fn.vram := by
    rw [← clampSizes_map_vram bounds inputs.sizeOverrides (listed bounds inputs), emitted,
      List.map_map]
    rfl
  rw [← listed_vrams wellFormed, ← List.mem_map, ← List.mem_map, vrams]

/-- In a list that increases, what follows a function is the next address of the list. -/
theorem isLeast_nextVram {funcs earlier later : List Fn} {fn : Fn} (increasing : Increasing funcs)
    (split : funcs = earlier ++ fn :: later) (below : ∀ other ∈ funcs, other.vram < bounds.hi) :
    IsLeast {limit | fn.vram < limit ∧
      (limit = bounds.hi ∨ ∃ other ∈ funcs, other.vram = limit)} (nextVram bounds later) := by
  have behind := lt_nextVram increasing below split
  subst split
  obtain ⟨_, tail, before⟩ := List.pairwise_append.mp increasing
  refine ⟨⟨behind, ?_⟩, ?_⟩
  · cases later with
    | nil => exact Or.inl rfl
    | cons next later =>
        exact Or.inr ⟨next, List.mem_append_right _ (.tail _ (.head _)), rfl⟩
  · rintro limit ⟨above, atEnd | ⟨other, member, rfl⟩⟩
    · rw [atEnd]
      cases later with
      | nil => exact Int.le_refl _
      | cons next later =>
          exact Int.le_of_lt (below next (List.mem_append_right _ (.tail _ (.head _))))
    · rcases List.mem_append.mp member with inEarlier | inTail
      · exact absurd (before other inEarlier fn List.mem_cons_self) (by omega)
      · rcases List.mem_cons.mp inTail with rfl | inLater
        · exact absurd above (Int.lt_irrefl _)
        · cases later with
          | nil => cases inLater
          | cons next later =>
              show next.vram ≤ other.vram
              rcases List.mem_cons.mp inLater with rfl | behindNext
              · exact Int.le_refl _
              · have order := (List.pairwise_cons.mp (List.pairwise_cons.mp tail).2).1
                exact Int.le_of_lt (order other behindNext)

theorem exists_owns_of_mem (wellFormed : inputs.WellFormed) {fn : Fn}
    (member : fn ∈ emitted bounds inputs inputs.sizeOverrides) :
    ∃ source next, inputs.Owns bounds fn source next := by
  obtain ⟨earlier, later, split⟩ := List.append_of_mem member
  obtain ⟨source, owner, kept, name, size, -⟩ := emitted_entry wellFormed split
  have below : ∀ other ∈ emitted bounds inputs inputs.sizeOverrides, other.vram < bounds.hi :=
    fun other inside => ((exists_emitted_iff wellFormed other.vram).mp ⟨other, inside, rfl⟩).2.2.1
  have least := isLeast_nextVram (emitted_increasing inputs.sizeOverrides) split below
  refine ⟨source, _, owner, kept, name, ?_, size⟩
  have same : inputs.Limits bounds fn.vram = {limit | fn.vram < limit ∧
      (limit = bounds.hi ∨
        ∃ other ∈ emitted bounds inputs inputs.sizeOverrides, other.vram = limit)} := by
    unfold Inputs.Limits
    simp only [exists_emitted_iff wellFormed]
  exact same ▸ least

/-- Nothing else than an owner up to its limit is emitted. -/
theorem mem_emitted_of_owns (wellFormed : inputs.WellFormed) {fn source : Fn} {next : Int}
    (owns : inputs.Owns bounds fn source next) :
    fn ∈ emitted bounds inputs inputs.sizeOverrides := by
  have emits : inputs.Emits bounds fn.vram :=
    ⟨(inputs.owner_isSome_iff fn.vram).mp (by rw [owns.owner]; rfl), (keeps_iff fn.vram).mp owns.kept⟩
  obtain ⟨other, member, vram⟩ := (exists_emitted_iff wellFormed fn.vram).mpr emits
  obtain ⟨otherSource, otherNext, otherOwns⟩ := exists_owns_of_mem wellFormed member
  have sameSource : otherSource = source := by
    have owner := otherOwns.owner
    rw [vram, owns.owner] at owner
    exact (Option.some.inj owner).symm
  have sameNext : otherNext = next := (vram ▸ otherOwns.limit).unique owns.limit
  have same : fn = other := by
    have name := otherOwns.name
    have size := otherOwns.size
    rw [vram, sameSource] at name size
    rw [sameNext] at size
    cases fn
    cases other
    simp only [Fn.mk.injEq]
    exact ⟨owns.name.trans name.symm, vram.symm, owns.size.trans size.symm⟩
  exact same ▸ member

end Emitted

/-! ## More adds -/

/-- A limit that moves down to a word boundary behind the function leaves its size. -/
theorem finalSize_of_limit {override limit moved : Int} (size : Int)
    (fits : finalSize override limit size ≤ moved) (le : moved ≤ limit)
    (aligned : moved = limit ∨ moved % 4 = 0) :
    finalSize override moved size = finalSize override limit size := by
  rcases aligned with same | word
  · rw [same]
  unfold finalSize at fits ⊢
  simp only at fits ⊢
  generalize (if override > size then override else size) = wanted at fits ⊢
  by_cases outside : wanted ≤ 0 ∨ wanted > limit
  · rw [if_pos outside] at fits ⊢
    rw [if_pos (show wanted ≤ 0 ∨ wanted > moved by omega)]
    split at fits <;> split <;> omega
  · rw [if_neg outside] at fits ⊢
    by_cases beyond : wanted ≤ 0 ∨ wanted > moved
    · rw [if_pos beyond]
      split at fits <;> split <;> omega
    · rw [if_neg beyond]

section MoreAdds

variable {bounds : Section} {inputs : Inputs} {more : Dict Int Fn}

/-- The inputs with more adds behind those of the file. -/
def Inputs.withAdds (inputs : Inputs) (more : Dict Int Fn) : Inputs :=
  { inputs with adds := inputs.adds ++ more }

theorem get?_append (adds : Dict Int Fn) (more : Dict Int Fn) (vram : Int) :
    (adds ++ more : Dict Int Fn).get? vram = (adds.get? vram).or (more.get? vram) := by
  induction adds with
  | nil => rfl
  | cons entry adds inductionHypothesis =>
      rw [List.cons_append, Dict.get?_cons, Dict.get?_cons, inductionHypothesis]
      split <;> rfl

/-- The added addresses are new and outside of every function. -/
structure Outside (funcs : List Fn) (more : Dict Int Fn) : Prop where
  vram : ∀ fn ∈ funcs, more.get? fn.vram = none
  body : ∀ fn ∈ funcs, ∀ entry ∈ more, fn.vram < entry.1 → fn.vram + fn.size ≤ entry.1

theorem emits_withAdds_iff (vram : Int) : (inputs.withAdds more).Emits bounds vram ↔
    inputs.Emits bounds vram ∨
      ((more.get? vram).isSome ∧ keeps bounds inputs.drops vram = true) := by
  have added : ((inputs.adds ++ more : Dict Int Fn).get? vram).isSome ↔
      (inputs.adds.get? vram).isSome ∨ (more.get? vram).isSome := by
    rw [get?_append]
    cases inputs.adds.get? vram <;> simp
  show ((_ ∨ ((inputs.adds ++ more : Dict Int Fn).get? vram).isSome) ∧ _) ↔ _
  rw [added, keeps_iff]
  unfold Inputs.Emits Inputs.Declares
  show ((∃ fn ∈ inputs.functions, fn.vram = vram) ∨ _ ∨ _) ∧
    (_ ∧ _ ∧ _ ∧ vram ∉ inputs.drops) ↔ _
  rw [← or_assoc, or_and_right]

theorem exists_emits_withAdds (emits : ∃ vram, inputs.Emits bounds vram) (more : Dict Int Fn) :
    ∃ vram, (inputs.withAdds more).Emits bounds vram :=
  emits.imp fun vram emits => (emits_withAdds_iff vram).mpr (Or.inl emits)

/-- Adds outside of every function leave each function as it is. -/
theorem mem_emitted_withAdds (wellFormed : inputs.WellFormed)
    (grownFormed : (inputs.withAdds more).WellFormed)
    (outside : Outside (emitted bounds inputs inputs.sizeOverrides) more) {fn : Fn}
    (member : fn ∈ emitted bounds inputs inputs.sizeOverrides) :
    fn ∈ emitted bounds (inputs.withAdds more) inputs.sizeOverrides := by
  obtain ⟨source, next, owns⟩ := exists_owns_of_mem wellFormed member
  have emits := (exists_emitted_iff wellFormed fn.vram).mp ⟨fn, member, rfl⟩
  have owner : (inputs.withAdds more).owner fn.vram = some source := by
    have isOwner : (inputs.adds.get? fn.vram).or (firstAt inputs.functions fn.vram) =
        some source := owns.owner
    show ((inputs.adds ++ more : Dict Int Fn).get? fn.vram).or _ = _
    rw [get?_append, outside.vram fn member, Option.or_none]
    exact isOwner
  -- The next address of the larger list ends the same function.
  obtain ⟨grown, grownMember, vram⟩ := (exists_emitted_iff grownFormed fn.vram).mpr
    ((emits_withAdds_iff fn.vram).mpr (Or.inl emits))
  obtain ⟨_, moved, grownOwns⟩ := exists_owns_of_mem grownFormed grownMember
  have least : IsLeast ((inputs.withAdds more).Limits bounds fn.vram) moved :=
    vram ▸ grownOwns.limit
  have le : moved ≤ next := by
    obtain ⟨above, atEnd | emitted⟩ := owns.limit.1
    · exact least.2 ⟨above, Or.inl atEnd⟩
    · exact least.2 ⟨above, Or.inr ((emits_withAdds_iff next).mpr (Or.inl emitted))⟩
  have reached : moved = next ∨ (fn.vram + fn.size ≤ moved ∧ moved % 4 = 0) := by
    obtain ⟨above, atEnd | emitted⟩ := least.1
    · exact Or.inl (Int.le_antisymm le (owns.limit.2 ⟨above, Or.inl atEnd⟩))
    · rcases (emits_withAdds_iff moved).mp emitted with older | ⟨added, kept⟩
      · exact Or.inl (Int.le_antisymm le (owns.limit.2 ⟨above, Or.inr older⟩))
      · obtain ⟨entry, found⟩ := Option.isSome_iff_exists.mp added
        have body := outside.body fn member _ (Dict.mem_of_get? found) above
        exact Or.inr ⟨body, ((keeps_iff moved).mp kept).2.2.1⟩
  have size : fn.size = finalSize ((inputs.sizeOverrides.get? fn.vram).getD 0)
      (moved - fn.vram) source.size := by
    rcases reached with rfl | ⟨behind, word⟩
    · exact owns.size
    · have vramWord := ((keeps_iff fn.vram).mp owns.kept).2.2.1
      rw [owns.size]
      refine (finalSize_of_limit source.size ?_ ?_ (Or.inr ?_)).symm
      · rw [← owns.size]
        omega
      · omega
      · omega
  exact mem_emitted_of_owns grownFormed ⟨owner, owns.kept, owns.name, least, size⟩

/-- What is new stands at an added address. -/
theorem mem_emitted_of_withAdds (wellFormed : inputs.WellFormed)
    (grownFormed : (inputs.withAdds more).WellFormed)
    (outside : Outside (emitted bounds inputs inputs.sizeOverrides) more) {fn : Fn}
    (member : fn ∈ emitted bounds (inputs.withAdds more) inputs.sizeOverrides) :
    fn ∈ emitted bounds inputs inputs.sizeOverrides ∨ (more.get? fn.vram).isSome := by
  have emits := (exists_emitted_iff grownFormed fn.vram).mp ⟨fn, member, rfl⟩
  rcases (emits_withAdds_iff fn.vram).mp emits with older | ⟨added, _⟩
  · obtain ⟨same, inOut, vram⟩ := (exists_emitted_iff wellFormed fn.vram).mpr older
    have inGrown := mem_emitted_withAdds wellFormed grownFormed outside inOut
    have increasing : Increasing (emitted bounds (inputs.withAdds more) inputs.sizeOverrides) :=
      emitted_increasing inputs.sizeOverrides
    have first := firstAt_of_mem increasing inGrown
    rw [vram, firstAt_of_mem increasing member] at first
    rw [Option.some.inj first]
    exact Or.inl inOut
  · exact Or.inr added

end MoreAdds

/-! ## What the scan sees of a generation -/

/-- The section and the functions of a generation. -/
def layoutOf (romOffset : Int) (bounds : Section) (funcs : List Fn) : Layout :=
  ⟨romOffset, bounds, funcs.map fun fn => (fn.vram, fn.size)⟩

section Scan

variable {romOffset : Int} {bounds : Section} {funcs : List Fn}

theorem isCovered_iff (increasing : Increasing funcs) (vram : Int) :
    isCovered vram (layoutOf romOffset bounds funcs).covered = true ↔
      ∃ fn ∈ funcs, fn.vram ≤ vram ∧ vram < fn.vram + fn.size := by
  show isCovered vram ((funcs.map fun fn => (fn.vram, fn.size)).map
    fun fn => (fn.1, fn.1 + fn.2)) = true ↔ _
  rw [List.map_map]
  induction funcs with
  | nil => simp [isCovered]
  | cons fn funcs inductionHypothesis =>
      obtain ⟨before, rest⟩ := List.pairwise_cons.mp increasing
      show (if fn.vram ≤ vram ∧ vram < fn.vram + fn.size then true
        else if fn.vram > vram then false else isCovered vram _) = true ↔ _
      rw [List.exists_mem_cons_iff]
      by_cases here : fn.vram ≤ vram ∧ vram < fn.vram + fn.size
      · rw [if_pos here]
        exact iff_of_true rfl (Or.inl here)
      · rw [if_neg here]
        by_cases behind : fn.vram > vram
        · rw [if_pos behind]
          refine iff_of_false (by decide) ?_
          rintro (first | ⟨other, member, le, _⟩)
          · exact here first
          · exact absurd (before other member) (by omega)
        · rw [if_neg behind, inductionHypothesis rest]
          exact ⟨Or.inr, fun found => found.resolve_left here⟩

/-- A prologue that is missing stands outside of every function. -/
theorem outside_of_missing {rom : List UInt8} {window vram : Int} (increasing : Increasing funcs)
    (missing : (layoutOf romOffset bounds funcs).Missing rom window vram) :
    ∀ fn ∈ funcs, fn.vram ≠ vram ∧ (fn.vram < vram → fn.vram + fn.size ≤ vram) := by
  intro fn member
  obtain ⟨uncovered, unknown, _⟩ := missing
  constructor
  · rintro rfl
    refine unknown ?_
    show fn.vram ∈ (funcs.map fun fn => (fn.vram, fn.size)).map Prod.fst
    rw [List.map_map]
    exact List.mem_map_of_mem member
  · intro above
    by_contra inside
    have covered : isCovered vram (layoutOf romOffset bounds funcs).covered = true :=
      (isCovered_iff increasing vram).mpr ⟨fn, member, Int.le_of_lt above, Int.not_le.mp inside⟩
    rw [uncovered] at covered
    cases covered

/-- With more functions fewer prologues are missing. -/
theorem missing_of_subset {rom : List UInt8} {window vram : Int} {larger : List Fn}
    (increasing : Increasing funcs) (largerIncreasing : Increasing larger)
    (subset : ∀ fn ∈ funcs, fn ∈ larger)
    (missing : (layoutOf romOffset bounds larger).Missing rom window vram) :
    (layoutOf romOffset bounds funcs).Missing rom window vram := by
  have outside := outside_of_missing largerIncreasing missing
  refine ⟨?_, ?_, missing.2.2⟩
  · rw [← Bool.not_eq_true, isCovered_iff increasing]
    rintro ⟨fn, member, le, inside⟩
    obtain ⟨other, above⟩ := outside fn (subset fn member)
    have behind := above (lt_of_le_of_ne le other)
    omega
  · intro known
    obtain ⟨pair, inPairs, rfl⟩ := List.mem_map.mp known
    obtain ⟨fn, member, rfl⟩ := List.mem_map.mp inPairs
    exact (outside fn (subset fn member)).1 rfl

end Scan

/-! ## Generate, scan, generate -/

/-- No name holds an equals sign. -/
structure Inputs.NamesPlain (inputs : Inputs) : Prop where
  functions : ∀ fn ∈ inputs.functions, '=' ∉ fn.name
  adds : ∀ entry ∈ inputs.adds, '=' ∉ entry.2.name
  renames : ∀ entry ∈ inputs.renames, '=' ∉ entry.2

section Generations

variable {bounds : Section} {inputs : Inputs}

theorem emit_eq_ok_iff (wellFormed : inputs.WellFormed) {out : List Fn} :
    emit bounds inputs = .ok out ↔
      (∃ vram, inputs.Emits bounds vram) ∧ out = emitted bounds inputs inputs.sizeOverrides := by
  have empty : (collect bounds inputs).isEmpty = true ↔ ∀ vram, ¬ inputs.Emits bounds vram :=
    collect_isEmpty_iff wellFormed
  unfold emit
  by_cases nothing : (collect bounds inputs).isEmpty = true
  · simp only [nothing, if_true]
    exact iff_of_false (fun same => by cases same)
      fun ⟨⟨vram, emits⟩, _⟩ => empty.mp nothing vram emits
  · simp only [nothing, if_false, Bool.false_eq_true]
    have some := not_forall_not.mp (mt empty.mpr nothing)
    exact ⟨fun same => ⟨some, (Except.ok.inj same).symm⟩, fun ⟨_, same⟩ => same ▸ rfl⟩

theorem plain_of_mem_emitted (wellFormed : inputs.WellFormed) (plain : inputs.NamesPlain)
    (start : 0 ≤ bounds.vram) {fn : Fn}
    (member : fn ∈ emitted bounds inputs inputs.sizeOverrides) :
    '=' ∉ fn.name ∧ 0 ≤ fn.vram ∧ 0 ≤ fn.size := by
  obtain ⟨source, next, owns⟩ := exists_owns_of_mem wellFormed member
  have inside : bounds.vram ≤ fn.vram := ((keeps_iff fn.vram).mp owns.kept).1
  have word := emitted_word wellFormed member
  have sourcePlain : '=' ∉ source.name := by
    have owner : (inputs.adds.get? fn.vram).or (firstAt inputs.functions fn.vram) =
        some source := owns.owner
    rcases Option.or_eq_some_iff.mp owner with added | ⟨_, function⟩
    · exact plain.adds _ (Dict.mem_of_get? added)
    · exact plain.functions source (List.mem_of_find?_eq_some function)
  refine ⟨?_, by omega, by omega⟩
  rw [owns.name]
  cases renamed : inputs.renames.get? fn.vram with
  | none => exact sourcePlain
  | some name => exact plain.renames _ (Dict.mem_of_get? renamed)

theorem sortPairs_of_increasing {funcs : List Fn} (increasing : Increasing funcs) :
    sortPairs (funcs.map fun fn => (fn.vram, fn.size)) =
      funcs.map fun fn => (fn.vram, fn.size) := by
  refine List.Pairwise.insertionSort_eq ?_
  rw [List.pairwise_map]
  exact increasing.imp Or.inl

/-- The scan sees the generation it is run on. -/
theorem readSymbols_emitted {sectionName : Text} {romOffset : Int}
    (wellFormed : inputs.WellFormed) (plain : inputs.NamesPlain)
    (sectionPlain : '=' ∉ sectionName) (romNonneg : 0 ≤ romOffset) (start : 0 ≤ bounds.vram)
    (emits : ∃ vram, inputs.Emits bounds vram) :
    readSymbols (writeSymbols sectionName romOffset bounds
      (emitted bounds inputs inputs.sizeOverrides)) =
        some (layoutOf romOffset bounds (emitted bounds inputs inputs.sizeOverrides)) := by
  have extent : 0 ≤ bounds.size := by
    obtain ⟨vram, _, above, below, _⟩ := emits
    unfold Section.lo at above
    unfold Section.hi at below
    omega
  rw [readSymbols_writeSymbols sectionPlain romNonneg start extent
    (fun fn member => plain_of_mem_emitted wellFormed plain start member),
    sortPairs_of_increasing (emitted_increasing inputs.sizeOverrides)]
  rfl

end Generations

theorem defaultName_plain (vram : Int) : '=' ∉ defaultName vram := by
  intro member
  rcases List.mem_append.mp member with label | number
  · exact absurd label (by decide)
  · have same : (hexPadded 8 vram).map id = hexPadded 8 vram := List.map_id _
    rw [← same] at number
    rcases symbol_of_mem_hexPadded keepsDigits_id rfl rfl 8 vram number with digit | ⟨_, sign⟩
    · exact absurd digit (by decide)
    · exact absurd sign (by decide)

/-- The command line of a scan, and of the generator before it. -/
structure ScanSetup where
  sectionName : Text
  romOffset : Int
  bounds : Section
  rom : List UInt8
  window : Int

namespace ScanSetup

variable (setup : ScanSetup)

/-- A scan run on the file of a generation. -/
def scan (funcs : List Fn) : AddsTool :=
  .scanMissing (writeSymbols setup.sectionName setup.romOffset setup.bounds funcs) setup.rom
    setup.window

/-- The prologues that a scan of these functions finds. -/
def missing (funcs : List Fn) : List Int :=
  (layoutOf setup.romOffset setup.bounds funcs).missing setup.rom setup.window

/-- The section can be read back. -/
structure Plain : Prop where
  sectionName : '=' ∉ setup.sectionName
  romOffset : 0 ≤ setup.romOffset
  start : 0 ≤ setup.bounds.vram

variable {setup} {inputs : Inputs}

theorem offers_scan (setupPlain : setup.Plain) (wellFormed : inputs.WellFormed)
    (plain : inputs.NamesPlain) (emits : ∃ vram, inputs.Emits setup.bounds vram) :
    (setup.scan (emitted setup.bounds inputs inputs.sizeOverrides)).offers =
      (setup.missing (emitted setup.bounds inputs inputs.sizeOverrides)).map
        fun vram => (vram, none) := by
  unfold scan AddsTool.offers
  simp only [readSymbols_emitted wellFormed plain setupPlain.sectionName setupPlain.romOffset
    setupPlain.start emits]
  rfl

theorem startsNonneg_scan (setupPlain : setup.Plain) (wellFormed : inputs.WellFormed)
    (plain : inputs.NamesPlain) (emits : ∃ vram, inputs.Emits setup.bounds vram) :
    (setup.scan (emitted setup.bounds inputs inputs.sizeOverrides)).StartsNonneg := by
  intro layout read
  rw [readSymbols_emitted wellFormed plain setupPlain.sectionName setupPlain.romOffset
    setupPlain.start emits] at read
  rw [← Option.some.inj read]
  exact setupPlain.start

/-- What a scan adds stands outside of every function it was run on. -/
theorem outside_fresh {funcs : List Fn} (increasing : Increasing funcs)
    (offers : (setup.scan funcs).offers = (setup.missing funcs).map fun vram => (vram, none))
    (adds : Dict Int Fn) : Outside funcs ((setup.scan funcs).fresh adds) := by
  have apart : ∀ fn ∈ funcs, ∀ entry ∈ (setup.scan funcs).fresh adds,
      fn.vram ≠ entry.1 ∧ (fn.vram < entry.1 → fn.vram + fn.size ≤ entry.1) := by
    intro fn member entry added
    obtain ⟨offer, kept, rfl⟩ := List.mem_map.mp added
    have offered := (List.mem_filter.mp kept).1
    rw [offers] at offered
    obtain ⟨vram, found, rfl⟩ := List.mem_map.mp offered
    exact outside_of_missing increasing (Layout.mem_missingFrom.mp found).2.2.2 fn member
  refine ⟨fun fn member => ?_, fun fn member entry added => (apart fn member entry added).2⟩
  rw [Dict.get?_eq_none_iff]
  exact fun entry added => Ne.symm (apart fn member entry added).1

theorem namesPlain_fresh (plain : inputs.NamesPlain) (tool : AddsTool) :
    (inputs.withAdds (tool.fresh inputs.adds)).NamesPlain := by
  refine ⟨plain.functions, fun entry member => ?_, plain.renames⟩
  rcases List.mem_append.mp member with older | newest
  · exact plain.adds entry older
  · obtain ⟨offer, _, rfl⟩ := List.mem_map.mp newest
    exact defaultName_plain offer.1

theorem readInputs_withAdds {files : SideFiles} {raw : List RawFunction}
    (read : readInputs files raw = .ok inputs) {adds : Option Text} {more : Dict Int Fn}
    (loaded : loadAdds adds = .ok (inputs.adds ++ more)) :
    readInputs { files with adds := adds } raw = .ok (inputs.withAdds more) := by
  obtain ⟨drops, merges, dropsOk, mergesOk, isDrops, sizesOk, renamesOk, _, functionsOk⟩ :=
    readInputs_eq_ok read
  unfold readInputs
  simp only [dropsOk, mergesOk, sizesOk, renamesOk, loaded, functionsOk]
  unfold Inputs.withAdds
  rw [isDrops]
  rfl

theorem mem_missing_of_fresh {funcs : List Fn}
    (offers : (setup.scan funcs).offers = (setup.missing funcs).map fun vram => (vram, none))
    {adds : Dict Int Fn} {vram : Int}
    (added : (((setup.scan funcs).fresh adds).get? vram).isSome) : vram ∈ setup.missing funcs := by
  rw [Dict.isSome_get?_iff] at added
  obtain ⟨entry, fresh, rfl⟩ := List.mem_map.mp added
  obtain ⟨offer, kept, rfl⟩ := List.mem_map.mp fresh
  have offered := (List.mem_filter.mp kept).1
  rw [offers] at offered
  obtain ⟨vram, found, rfl⟩ := List.mem_map.mp offered
  exact found

section Next

variable {more : Dict Int Fn} (nextFormed : (inputs.withAdds more).WellFormed) {vram : Int}
  (found : vram ∈ setup.missing
    (emitted setup.bounds (inputs.withAdds more) (inputs.withAdds more).sizeOverrides))

include nextFormed found

/-- A prologue that the second scan finds, the first has found. -/
theorem mem_missing_of_next (wellFormed : inputs.WellFormed)
    (outside : Outside (emitted setup.bounds inputs inputs.sizeOverrides) more) :
    vram ∈ setup.missing (emitted setup.bounds inputs inputs.sizeOverrides) := by
  obtain ⟨ahead, below, step, missing⟩ := Layout.mem_missingFrom.mp found
  exact Layout.mem_missingFrom.mpr ⟨ahead, below, step, missing_of_subset
    (emitted_increasing _) (emitted_increasing _)
    (fun fn member => mem_emitted_withAdds wellFormed nextFormed outside member) missing⟩

/-- A prologue that the adds hold is emitted, unless the generator may not emit it. -/
theorem dropped_of_missing_next
    (held : (inputs.adds ++ more : Dict Int Fn).get? vram ≠ none) :
    vram ∈ inputs.drops ∨ vram % 4 ≠ 0 := by
  obtain ⟨ahead, below, _, missing⟩ := Layout.mem_missingFrom.mp found
  by_contra regular
  obtain ⟨notDropped, word⟩ := not_or.mp regular
  have emits : (inputs.withAdds more).Emits setup.bounds vram :=
    ⟨Or.inr (Option.isSome_iff_ne_none.mpr held), ahead, below, not_not.mp word, notDropped⟩
  obtain ⟨fn, member, same⟩ := (exists_emitted_iff nextFormed vram).mpr emits
  exact (outside_of_missing (emitted_increasing _) missing fn member).1 same

end Next

/-- **A scan between two generations** disturbs nothing and is needed once. Every function of the
first generation is one of the second, what is new stands at a prologue that the scan found, the
prologues still missing are dropped or unaligned, and a scan of the second generation leaves the
adds as they are. -/
theorem generation_scanned (setupPlain : setup.Plain) {files : SideFiles}
    {raw : List RawFunction} {out : List Fn} (read : readInputs files raw = .ok inputs)
    (generated : genSymbolsToml setup.bounds files raw = .ok out) (plain : inputs.NamesPlain) :
    ∃ next, genSymbolsToml setup.bounds
        { files with adds := (setup.scan out).run files.adds } raw = .ok next ∧
      (∀ fn ∈ out, fn ∈ next) ∧
      (∀ fn ∈ next, fn ∈ out ∨ fn.vram ∈ setup.missing out) ∧
      (∀ vram ∈ setup.missing next, vram ∈ inputs.drops ∨ vram % 4 ≠ 0) ∧
      (setup.scan next).run ((setup.scan out).run files.adds) =
        (setup.scan out).run files.adds := by
  have wellFormed := readInputs_wellFormed read
  rw [genSymbolsToml_of_read read, emit_eq_ok_iff wellFormed] at generated
  obtain ⟨emits, rfl⟩ := generated
  obtain ⟨_, _, _, _, _, _, _, addsOk, _⟩ := readInputs_eq_ok read
  have offers := offers_scan setupPlain wellFormed plain emits
  have outside := outside_fresh (emitted_increasing _) offers inputs.adds
  have loaded := AddsTool.loadAdds_run
    (startsNonneg_scan setupPlain wellFormed plain emits) addsOk
  have held : ∀ vram ∈ setup.missing (emitted setup.bounds inputs inputs.sizeOverrides), _ :=
    fun vram found => AddsTool.get?_append_fresh (offers ▸ List.mem_map_of_mem found) inputs.adds
  -- The second generation reads the adds with the fresh ones behind them.
  have reread := readInputs_withAdds read loaded
  have nextFormed := readInputs_wellFormed reread
  have nextOffers := offers_scan setupPlain nextFormed (namesPlain_fresh plain _)
    (exists_emits_withAdds emits _)
  have again := (emit_eq_ok_iff nextFormed).mpr ⟨exists_emits_withAdds emits _, rfl⟩
  rw [← genSymbolsToml_of_read reread] at again
  refine ⟨_, again, fun fn member => mem_emitted_withAdds wellFormed nextFormed outside member,
    ?_, ?_, ?_⟩
  · exact fun fn member => (mem_emitted_of_withAdds wellFormed nextFormed outside member).imp id
      (mem_missing_of_fresh offers)
  · exact fun vram found => dropped_of_missing_next nextFormed found
      (held vram (mem_missing_of_next nextFormed found wellFormed outside))
  · refine AddsTool.run_of_held _ loaded fun offer offered => ?_
    rw [nextOffers] at offered
    obtain ⟨vram, found, rfl⟩ := List.mem_map.mp offered
    exact held vram (mem_missing_of_next nextFormed found wellFormed outside)

/-- Ten words with two prologues around the one known function. -/
def framed : ScanSetup where
  sectionName := "text".toList
  romOffset := 0
  bounds := ⟨0, 40⟩
  rom := [0x27, 0xBD, 0xFF, 0xE8, 0xAF, 0xBF, 0x00, 0x14, 0x03, 0xE0, 0x00, 0x08, 0, 0, 0, 0,
    0x03, 0xE0, 0x00, 0x08, 0, 0, 0, 0, 0x27, 0xBD, 0xFF, 0xE8, 0xAF, 0xBF, 0x00, 0x14,
    0x03, 0xE0, 0x00, 0x08, 0, 0, 0, 0]
  window := 8

theorem generation_scanned_framed :
    ∃ next, genSymbolsToml framed.bounds
        ⟨none, none, none, none, (framed.scan [⟨"main".toList, 16, 8⟩]).run none⟩
        [⟨"main".toList, .int 16, some (.int 8)⟩] = .ok next ∧
      (∀ fn ∈ [(⟨"main".toList, 16, 8⟩ : Fn)], fn ∈ next) ∧
      (∀ fn ∈ next, fn ∈ [(⟨"main".toList, 16, 8⟩ : Fn)] ∨
        fn.vram ∈ framed.missing [⟨"main".toList, 16, 8⟩]) ∧
      (∀ vram ∈ framed.missing next, vram ∈ ([] : List Int) ∨ vram % 4 ≠ 0) ∧
      (framed.scan next).run ((framed.scan [⟨"main".toList, 16, 8⟩]).run none) =
        (framed.scan [⟨"main".toList, 16, 8⟩]).run none := by
  have setupPlain : framed.Plain := ⟨by decide, Int.le_refl 0, Int.le_refl 0⟩
  have plain : (⟨[], [], [], [], [⟨"main".toList, 16, 8⟩]⟩ : Inputs).NamesPlain :=
    ⟨by decide, fun _ member => absurd member List.not_mem_nil,
      fun _ member => absurd member List.not_mem_nil⟩
  have read : readInputs ⟨none, none, none, none, none⟩
      [⟨"main".toList, .int 16, some (.int 8)⟩] =
        .ok ⟨[], [], [], [], [⟨"main".toList, 16, 8⟩]⟩ := rfl
  have generated : genSymbolsToml framed.bounds ⟨none, none, none, none, none⟩
      [⟨"main".toList, .int 16, some (.int 8)⟩] = .ok [⟨"main".toList, 16, 8⟩] := by
    decide +kernel
  have scanned := generation_scanned setupPlain read generated plain
  exact scanned

end ScanSetup

end StadiumRecomp.Symbols
