import StadiumRecomp.Symbols.Listing
import Mathlib.Logic.Function.Iterate

/-!
Contract: one round of `fix_truncated_delay_slots` and `gen_symbols_toml` on the sizes of
the emitted functions.

Owns: the growth of one function and of all, where it ends, what the fixer appends for
functions it can read, and the next generation as a round of growth.

Does not own: the files between the two tools.
-/

set_option autoImplicit false

namespace StadiumRecomp.Symbols

open StadiumRecomp.Lib

/-! ## Sizes that grow -/

/-- A size reached by steps of one word, none of which ends behind the limit. -/
def GrowsTo (limit size larger : Int) : Prop :=
  larger = size ∨ size ≤ larger ∧ larger ≤ limit ∧ (larger - size) % 4 = 0

/-- Nothing the fixer reads in a line ends in a branch or jump. -/
def SoundLine (rom : List UInt8) (line : Text) : Prop :=
  ∀ fn ∈ lineFunctions line, endsInBranch rom fn = some false

instance (rom : List UInt8) (line : Text) : Decidable (SoundLine rom line) :=
  inferInstanceAs (Decidable (∀ fn ∈ lineFunctions line, endsInBranch rom fn = some false))

/-- The fixer can unpack the last word of everything it reads in a line. -/
def ReadableLine (rom : List UInt8) (line : Text) : Prop :=
  ∀ fn ∈ lineFunctions line, (endsInBranch rom fn).isSome

/-- One round for one function: a word more where its line is not sound and the next
function leaves room. -/
def growFn (rom : List UInt8) (limit : Int) (fn : Fn) : Fn :=
  if SoundLine rom (functionLine fn) ∨ limit < fn.size + 4 then fn
  else { fn with size := fn.size + 4 }

/-- One round for all functions. -/
def growAll (rom : List UInt8) (bounds : Section) : List Fn → List Fn
  | [] => []
  | fn :: rest =>
      growFn rom (nextVram bounds rest - fn.vram) fn :: growAll rom bounds rest

section Grow

variable {rom : List UInt8} {bounds : Section} {limit : Int}

theorem growFn_of_sound (limit : Int) {fn : Fn} (sound : SoundLine rom (functionLine fn)) :
    growFn rom limit fn = fn := if_pos (Or.inl sound)

@[simp] theorem growFn_vram (fn : Fn) : (growFn rom limit fn).vram = fn.vram := by
  unfold growFn
  split <;> rfl

@[simp] theorem growFn_name (fn : Fn) : (growFn rom limit fn).name = fn.name := by
  unfold growFn
  split <;> rfl

theorem growFn_size (rom : List UInt8) (limit : Int) (fn : Fn) :
    GrowsTo limit fn.size (growFn rom limit fn).size := by
  unfold growFn
  split
  next => exact Or.inl rfl
  next grows =>
    push Not at grows
    refine Or.inr ⟨?_, grows.2, ?_⟩
    · show fn.size ≤ fn.size + 4
      omega
    · show (fn.size + 4 - fn.size) % 4 = 0
      omega

theorem GrowsTo.trans {size middle larger : Int} (first : GrowsTo limit size middle)
    (second : GrowsTo limit middle larger) : GrowsTo limit size larger := by
  unfold GrowsTo at first second ⊢
  omega

theorem growFn_iterate (rom : List UInt8) (limit : Int) (rounds : Nat) (fn : Fn) :
    ∃ size, (growFn rom limit)^[rounds] fn = { fn with size := size } ∧
      GrowsTo limit fn.size size := by
  induction rounds with
  | zero => exact ⟨fn.size, rfl, Or.inl rfl⟩
  | succ rounds inductionHypothesis =>
      obtain ⟨size, reached, grows⟩ := inductionHypothesis
      have step := growFn_size rom limit { fn with size := size }
      refine ⟨(growFn rom limit { fn with size := size }).size, ?_, grows.trans step⟩
      rw [Function.iterate_succ_apply', reached]
      unfold growFn
      split <;> rfl

/-- A function reaches a sound size within its limit, or an earlier one. -/
theorem exists_sound_of_growsTo {larger : Int} (steps : Nat) (fn : Fn)
    (apart : larger = fn.size + 4 * steps) (grows : GrowsTo limit fn.size larger)
    (sound : SoundLine rom (functionLine { fn with size := larger })) :
    ∃ rounds, SoundLine rom (functionLine ((growFn rom limit)^[rounds] fn)) := by
  induction steps generalizing fn with
  | zero =>
      have same : larger = fn.size := by omega
      subst same
      exact ⟨0, sound⟩
  | succ steps inductionHypothesis =>
      by_cases already : SoundLine rom (functionLine fn)
      · exact ⟨0, already⟩
      have step : growFn rom limit fn = { fn with size := fn.size + 4 } := by
        refine if_neg ?_
        unfold GrowsTo at grows
        push_cast at apart
        rintro (isSound | full)
        · exact already isSound
        · omega
      have left : larger = fn.size + 4 + 4 * steps := by
        push_cast at apart
        omega
      have leftGrows : GrowsTo limit (fn.size + 4) larger := by
        unfold GrowsTo at grows ⊢
        omega
      obtain ⟨rounds, reached⟩ := inductionHypothesis { fn with size := fn.size + 4 }
        left leftGrows sound
      refine ⟨rounds + 1, ?_⟩
      rw [Function.iterate_succ_apply, step]
      exact reached

theorem exists_sound_iff (fn : Fn) :
    (∃ rounds, SoundLine rom (functionLine ((growFn rom limit)^[rounds] fn))) ↔
      ∃ size, GrowsTo limit fn.size size ∧
        SoundLine rom (functionLine { fn with size := size }) := by
  constructor
  · intro ⟨rounds, sound⟩
    obtain ⟨size, reached, grows⟩ := growFn_iterate rom limit rounds fn
    rw [reached] at sound
    exact ⟨size, grows, sound⟩
  · intro ⟨size, grows, sound⟩
    have apart : size = fn.size + 4 * ((size - fn.size) / 4).toNat := by
      unfold GrowsTo at grows
      omega
    exact exists_sound_of_growsTo _ fn apart grows sound

theorem nextVram_growAll (later : List Fn) :
    nextVram bounds (growAll rom bounds later) = nextVram bounds later := by
  cases later with
  | nil => rfl
  | cons next later =>
      show (growFn rom _ next).vram = next.vram
      exact growFn_vram next

/-- The limit of a function stays where it is, so that each function grows for itself. -/
theorem growAll_iterate_cons (rounds : Nat) (fn : Fn) (rest : List Fn) :
    (growAll rom bounds)^[rounds] (fn :: rest) =
      (growFn rom (nextVram bounds rest - fn.vram))^[rounds] fn ::
        (growAll rom bounds)^[rounds] rest := by
  induction rounds generalizing fn rest with
  | zero => rfl
  | succ rounds inductionHypothesis =>
      have limits : nextVram bounds (growAll rom bounds rest) -
          (growFn rom (nextVram bounds rest - fn.vram) fn).vram =
            nextVram bounds rest - fn.vram := by
        rw [nextVram_growAll, growFn_vram]
      rw [Function.iterate_succ_apply, growAll, inductionHypothesis, limits]
      rfl

theorem growAll_of_sound (bounds : Section) {funcs : List Fn}
    (sound : ∀ fn ∈ funcs, SoundLine rom (functionLine fn)) :
    growAll rom bounds funcs = funcs := by
  induction funcs with
  | nil => rfl
  | cons fn rest inductionHypothesis =>
      rw [growAll, growFn_of_sound _ (sound fn List.mem_cons_self),
        inductionHypothesis (fun other member => sound other (List.mem_cons_of_mem _ member))]

/-- The rounds end where every function has a sound size within its limit, and only there. -/
theorem exists_sound_growAll_iff (funcs : List Fn) :
    (∃ rounds, ∀ fn ∈ (growAll rom bounds)^[rounds] funcs, SoundLine rom (functionLine fn)) ↔
      ∀ earlier fn later, funcs = earlier ++ fn :: later →
        ∃ size, GrowsTo (nextVram bounds later - fn.vram) fn.size size ∧
          SoundLine rom (functionLine { fn with size := size }) := by
  induction funcs with
  | nil =>
      refine iff_of_true ⟨0, fun fn member => absurd member List.not_mem_nil⟩ ?_
      intro earlier fn later split
      exact absurd split.symm (by simp)
  | cons head rest inductionHypothesis =>
      constructor
      · intro ⟨rounds, sound⟩
        rw [growAll_iterate_cons] at sound
        intro earlier fn later split
        cases earlier with
        | nil =>
            cases split
            exact (exists_sound_iff head).mp ⟨rounds, sound _ List.mem_cons_self⟩
        | cons first earlier =>
            exact inductionHypothesis.mp
              ⟨rounds, fun other member => sound other (List.mem_cons_of_mem _ member)⟩
              earlier fn later (List.cons.inj split).2
      · intro reach
        obtain ⟨headRounds, headSound⟩ := (exists_sound_iff head).mpr (reach [] head rest rfl)
        obtain ⟨restRounds, restSound⟩ := inductionHypothesis.mpr
          (fun earlier fn later split => reach (head :: earlier) fn later (by rw [split]; rfl))
        -- Whoever is sound first waits for the others.
        refine ⟨restRounds + headRounds, ?_⟩
        have headWaits := Function.iterate_fixed
          (growFn_of_sound (nextVram bounds rest - head.vram) headSound) restRounds
        have restWaits := Function.iterate_fixed
          (growAll_of_sound bounds restSound) headRounds
        rw [growAll_iterate_cons, Function.iterate_add_apply, headWaits, Nat.add_comm,
          Function.iterate_add_apply, restWaits]
        intro fn member
        rcases List.mem_cons.mp member with rfl | later
        · exact headSound
        · exact restSound fn later

end Grow

/-! ## What the fixer reads -/

/-- The entries the fixer finds in a name are sound. -/
def OthersSound (rom : List UInt8) (name : Text) (vram : Int) : Prop :=
  ∃ (others : List Fn) (own : Option Text),
    (∀ size, 0 ≤ size → lineFunctions (functionLine ⟨name, vram, size⟩) =
      others ++ own.toList.map (fun own => ⟨own, vram, size⟩)) ∧
    ∀ other ∈ others, endsInBranch rom other = some false

section Read

variable {rom : List UInt8} {fn : Fn}

theorem othersSound_of_sound {name : Text} {vram size : Int} (nonneg : 0 ≤ size)
    (sound : SoundLine rom (functionLine ⟨name, vram, size⟩)) : OthersSound rom name vram := by
  obtain ⟨others, own, read⟩ := lineFunctions_functionLine name vram
  refine ⟨others, own, read, fun other member => sound other ?_⟩
  rw [read size nonneg]
  exact List.mem_append_left _ member

/-- One function is truncated at most: the one the line is written for. -/
theorem truncated_of_line (others : OthersSound rom fn.name fn.vram) (nonneg : 0 ≤ fn.size)
    (readable : ReadableLine rom (functionLine fn)) :
    ((lineFunctions (functionLine fn)).filter
        (fun fn => endsInBranch rom fn = some true)).map (fun fn => (fn.vram, fn.size)) =
      if SoundLine rom (functionLine fn) then [] else [(fn.vram, fn.size)] := by
  obtain ⟨others, own, read, sound⟩ := others
  have line : lineFunctions (functionLine fn) =
      others ++ own.toList.map (fun own => ⟨own, fn.vram, fn.size⟩) := read fn.size nonneg
  have noOther : others.filter (fun fn => endsInBranch rom fn = some true) = [] := by
    rw [List.filter_eq_nil_iff]
    intro other member
    rw [sound other member]
    decide
  have soundIff : SoundLine rom (functionLine fn) ↔
      ∀ name ∈ own, endsInBranch rom ⟨name, fn.vram, fn.size⟩ = some false := by
    unfold SoundLine
    rw [line]
    constructor
    · intro all name isOwn
      cases isOwn
      exact all _ (List.mem_append_right _ (List.mem_singleton.mpr rfl))
    · intro ownSound entry member
      rcases List.mem_append.mp member with inOthers | isOwn
      · exact sound entry inOthers
      · obtain ⟨name, inOwn, rfl⟩ := List.mem_map.mp isOwn
        exact ownSound name (Option.mem_toList.mp inOwn)
  simp only [soundIff]
  rw [line, List.filter_append, noOther, List.nil_append]
  cases own with
  | none =>
      rw [if_pos (by simp)]
      rfl
  | some name =>
      obtain ⟨flag, isFlag⟩ := Option.isSome_iff_exists.mp (readable ⟨name, fn.vram, fn.size⟩
        (by rw [line]; exact List.mem_append_right _ (List.mem_singleton.mpr rfl)))
      cases flag with
      | true => simp [isFlag]
      | false => simp [isFlag]

/-- On word boundaries, only an offset before the start of the ROM cannot be unpacked. -/
theorem isSome_endsInBranch_iff (vramWord : fn.vram % 4 = 0) (sizeWord : fn.size % 4 = 0)
    (positive : 4 ≤ fn.size) : (endsInBranch rom fn).isSome ↔
      0 ≤ fn.vram + fn.size - 4 - 0x80000400 + 0x1000 + rom.length := by
  unfold endsInBranch
  rw [if_neg (by omega)]
  simp only
  generalize isOff : fn.vram + fn.size - 4 - 0x80000400 + 0x1000 = off
  have word : off % 4 = 0 := by omega
  by_cases behind : off + 4 > rom.length
  · rw [if_pos behind]
    refine iff_of_true rfl ?_
    omega
  · rw [if_neg behind, Option.isSome_map]
    unfold unpackWord
    by_cases outside : off < 0 ∧ (-4 < off ∨ off + rom.length < 0)
    · rw [if_pos outside]
      refine iff_of_false (by simp) ?_
      omega
    · rw [if_neg outside]
      refine iff_of_true ?_ (by omega)
      have room : 4 ≤ (rom.drop (if off < 0 then off + rom.length else off).toNat).length := by
        rw [List.length_drop]
        split <;> omega
      simp only
      generalize rom.drop (if off < 0 then off + rom.length else off).toNat = bytes at room
      match bytes, room with
      | _ :: _ :: _ :: _ :: _, _ => rfl

theorem ReadableLine.grow (others : OthersSound rom fn.name fn.vram)
    (vramWord : fn.vram % 4 = 0) (sizeWord : fn.size % 4 = 0) (positive : 4 ≤ fn.size)
    (readable : ReadableLine rom (functionLine fn)) :
    ReadableLine rom (functionLine { fn with size := fn.size + 4 }) := by
  obtain ⟨others, own, read, sound⟩ := others
  have before : lineFunctions (functionLine fn) =
      others ++ own.toList.map (fun own => ⟨own, fn.vram, fn.size⟩) :=
    read fn.size (by omega)
  have after : lineFunctions (functionLine { fn with size := fn.size + 4 }) =
      others ++ own.toList.map (fun own => ⟨own, fn.vram, fn.size + 4⟩) :=
    read (fn.size + 4) (by omega)
  intro entry member
  rw [after] at member
  rcases List.mem_append.mp member with inOthers | isOwn
  · rw [sound entry inOthers]
    rfl
  · obtain ⟨name, inOwn, rfl⟩ := List.mem_map.mp isOwn
    have ownBefore := readable ⟨name, fn.vram, fn.size⟩
      (by rw [before]; exact List.mem_append_right _ (List.mem_map.mpr ⟨name, inOwn, rfl⟩))
    have offset := (isSome_endsInBranch_iff
      (show (Fn.mk name fn.vram fn.size).vram % 4 = 0 from vramWord) sizeWord positive).mp ownBefore
    refine (isSome_endsInBranch_iff
      (show (Fn.mk name fn.vram (fn.size + 4)).vram % 4 = 0 from vramWord)
      (show (fn.size + 4) % 4 = 0 by omega) (show 4 ≤ fn.size + 4 by omega)).mpr ?_
    simp only at offset ⊢
    omega

end Read

/-- Functions the fixer reads through, each at its address, nothing else being truncated. -/
structure Steady (rom : List UInt8) (funcs : List Fn) : Prop where
  increasing : Increasing funcs
  vramWord : ∀ fn ∈ funcs, fn.vram % 4 = 0
  sizeWord : ∀ fn ∈ funcs, 4 ≤ fn.size ∧ fn.size % 4 = 0
  others : ∀ fn ∈ funcs, OthersSound rom fn.name fn.vram
  readable : ∀ fn ∈ funcs, ReadableLine rom (functionLine fn)

section Step

variable {rom : List UInt8} {bounds : Section} {funcs : List Fn}

theorem growAll_map_vram (funcs : List Fn) :
    (growAll rom bounds funcs).map Fn.vram = funcs.map Fn.vram := by
  induction funcs with
  | nil => rfl
  | cons fn rest inductionHypothesis =>
      rw [growAll, List.map_cons, List.map_cons, growFn_vram, inductionHypothesis]

theorem exists_of_mem_growAll {grown : Fn} (member : grown ∈ growAll rom bounds funcs) :
    ∃ fn ∈ funcs, ∃ limit, grown = growFn rom limit fn := by
  induction funcs with
  | nil => exact absurd member List.not_mem_nil
  | cons fn rest inductionHypothesis =>
      rcases List.mem_cons.mp member with rfl | later
      · exact ⟨fn, List.mem_cons_self, _, rfl⟩
      · obtain ⟨source, inRest, limit, same⟩ := inductionHypothesis later
        exact ⟨source, List.mem_cons_of_mem _ inRest, limit, same⟩

/-- A round keeps what the next one needs. -/
theorem Steady.growAll (steady : Steady rom funcs) : Steady rom (growAll rom bounds funcs) := by
  refine ⟨?_, ?_, ?_, ?_, ?_⟩
  · have increasing := steady.increasing
    unfold Increasing at increasing ⊢
    rw [← List.pairwise_map (f := Fn.vram) (R := (· < ·))] at increasing ⊢
    rwa [growAll_map_vram]
  all_goals
    intro grown member
    obtain ⟨fn, inFuncs, limit, rfl⟩ := exists_of_mem_growAll member
    have vramWord := steady.vramWord fn inFuncs
    obtain ⟨positive, sizeWord⟩ := steady.sizeWord fn inFuncs
    have others := steady.others fn inFuncs
    have readable := steady.readable fn inFuncs
  · rwa [growFn_vram]
  · unfold growFn
    split
    next => exact ⟨positive, sizeWord⟩
    next =>
      show 4 ≤ fn.size + 4 ∧ (fn.size + 4) % 4 = 0
      omega
  · rwa [growFn_name, growFn_vram]
  · unfold growFn
    split
    next => exact readable
    next => exact readable.grow others vramWord sizeWord positive

theorem Steady.iterate (steady : Steady rom funcs) (rounds : Nat) :
    Steady rom ((Symbols.growAll rom bounds)^[rounds] funcs) := by
  induction rounds with
  | zero => exact steady
  | succ rounds inductionHypothesis =>
      rw [Function.iterate_succ_apply']
      exact inductionHypothesis.growAll

/-- What the fixer finds in the whole file. -/
theorem truncatedSizes_writeSymbols {sectionName : Text} {romOffset : Int}
    (header : ∀ line ∈ symbolsHeader sectionName romOffset bounds, SoundLine rom line)
    (steady : Steady rom funcs) :
    truncatedSizes rom (writeSymbols sectionName romOffset bounds funcs) =
      (funcs.filter (fun fn => ¬ SoundLine rom (functionLine fn))).map
        (fun fn => (fn.vram, fn.size)) := by
  have noHeader : ((symbolsHeader sectionName romOffset bounds).flatMap lineFunctions).filter
      (fun fn => endsInBranch rom fn = some true) = [] := by
    rw [List.filter_eq_nil_iff]
    intro entry member
    obtain ⟨line, inHeader, inLine⟩ := List.mem_flatMap.mp member
    rw [header line inHeader entry inLine]
    decide
  have lines : ∀ funcs : List Fn, (∀ fn ∈ funcs, OthersSound rom fn.name fn.vram ∧
        0 ≤ fn.size ∧ ReadableLine rom (functionLine fn)) →
      ((funcs.flatMap (fun fn => lineFunctions (functionLine fn))).filter
          (fun fn => endsInBranch rom fn = some true)).map (fun fn => (fn.vram, fn.size)) =
        (funcs.filter (fun fn => ¬ SoundLine rom (functionLine fn))).map
          (fun fn => (fn.vram, fn.size)) := by
    intro funcs all
    induction funcs with
    | nil => rfl
    | cons fn rest inductionHypothesis =>
        obtain ⟨others, nonneg, readable⟩ := all fn List.mem_cons_self
        rw [List.flatMap_cons, List.filter_append, List.map_append,
          truncated_of_line others nonneg readable,
          inductionHypothesis (fun other member => all other (List.mem_cons_of_mem _ member))]
        by_cases sound : SoundLine rom (functionLine fn)
        · rw [if_pos sound, List.filter_cons_of_neg (by simpa using sound)]
          rfl
        · rw [if_neg sound, List.filter_cons_of_pos (by simpa using sound)]
          rfl
  unfold truncatedSizes
  rw [symbolsFunctions_writeSymbols, List.filter_append, noHeader, List.nil_append]
  refine lines funcs (fun fn member => ⟨steady.others fn member, ?_, steady.readable fn member⟩)
  have positive := (steady.sizeWord fn member).1
  omega

/-- The entries of a round: a word more for each function that is not sound. -/
def roundSizes (rom : List UInt8) (funcs : List Fn) : List (Int × Int) :=
  (funcs.filter (fun fn => ¬ SoundLine rom (functionLine fn))).map
    (fun fn => (fn.vram, fn.size + 4))

/-- The fixer runs through and appends the entries of a round. -/
theorem fixes_writeSymbols {sectionName : Text} {romOffset : Int}
    (header : ∀ line ∈ symbolsHeader sectionName romOffset bounds, SoundLine rom line)
    (steady : Steady rom funcs) :
    fixes rom (writeSymbols sectionName romOffset bounds funcs) =
      some (roundSizes rom funcs) := by
  rw [fixes_eq_some_iff, truncatedSizes_writeSymbols header steady, List.map_map]
  refine ⟨?_, rfl⟩
  rw [forall_symbolsFunctions_iff]
  refine ⟨fun line inHeader entry inLine => ?_, steady.readable⟩
  rw [header line inHeader entry inLine]
  rfl

/-- The override of a truncated function is a word more than its size, any other one stays. -/
theorem get?_writes_roundSizes (increasing : Increasing funcs) (overrides : Dict Int Int)
    {fn : Fn} (member : fn ∈ funcs) :
    (Dict.writes overrides (roundSizes rom funcs)).get? fn.vram =
      if SoundLine rom (functionLine fn) then overrides.get? fn.vram
      else some (fn.size + 4) := by
  rw [Dict.get?_writes]
  by_cases sound : SoundLine rom (functionLine fn)
  · have absent : Dict.lastWrite (roundSizes rom funcs) fn.vram = none := by
      rw [Dict.lastWrite_eq_none_iff]
      intro entry inside same
      obtain ⟨other, kept, rfl⟩ := List.mem_map.mp inside
      obtain ⟨inFuncs, unsound⟩ := List.mem_filter.mp kept
      have found := firstAt_of_mem increasing inFuncs
      rw [show other.vram = fn.vram from same, firstAt_of_mem increasing member] at found
      cases found
      exact of_decide_eq_true unsound sound
    rw [if_pos sound, absent]
    rfl
  · have distinct : Dict.Distinct (roundSizes rom funcs) := by
      unfold Dict.Distinct roundSizes
      rw [List.map_map]
      exact (List.pairwise_map.mpr (increasing.imp (fun less => ne_of_lt less))).sublist
        (List.filter_sublist.map _)
    have kept : (fn.vram, fn.size + 4) ∈ roundSizes rom funcs :=
      List.mem_map.mpr ⟨fn, List.mem_filter.mpr ⟨member, decide_eq_true sound⟩, rfl⟩
    rw [if_neg sound, Dict.lastWrite_of_mem distinct kept]
    rfl

end Step

/-! ## What the generator makes of it -/

/-- Every emitted size is a whole number of words. -/
theorem finalSize_word (override : Int) {maxSize : Int} (size : Int) (positive : 0 < maxSize) :
    4 ≤ finalSize override maxSize size ∧ finalSize override maxSize size % 4 = 0 := by
  unfold finalSize
  simp only
  generalize (if override > size then override else size) = wanted
  by_cases outside : wanted ≤ 0 ∨ wanted > maxSize
  · rw [if_pos outside]
    split <;> omega
  · rw [if_neg outside]
    split <;> omega

/-- A word more than the emitted size is emitted as it is, or the size stays. -/
theorem finalSize_grow (override : Int) {maxSize : Int} (size : Int) (positive : 0 < maxSize) :
    finalSize (finalSize override maxSize size + 4) maxSize size =
      if maxSize < finalSize override maxSize size + 4 then finalSize override maxSize size
      else finalSize override maxSize size + 4 := by
  -- The size in use is the wanted one where it fits and the whole room otherwise.
  have used : ∃ used, 0 < used ∧ used ≤ maxSize ∧ (used = maxSize ∨ size ≤ used) ∧
      finalSize override maxSize size = wordSize used := by
    unfold finalSize wordSize
    simp only
    generalize isWanted : (if override > size then override else size) = wanted
    have raised : size ≤ wanted := by
      rw [← isWanted]
      split <;> omega
    by_cases outside : wanted ≤ 0 ∨ wanted > maxSize
    · rw [if_pos outside]
      exact ⟨maxSize, positive, le_rfl, Or.inl rfl, rfl⟩
    · rw [if_neg outside]
      exact ⟨wanted, by omega, by omega, Or.inr raised, rfl⟩
  obtain ⟨used, usedPositive, fits, larger, isFinal⟩ := used
  have word : (wordSize used ≤ used ∨ wordSize used = 4) ∧ used < wordSize used + 4 ∧
      4 ≤ wordSize used ∧ wordSize used % 4 = 0 := by
    unfold wordSize
    split <;> omega
  rw [isFinal]
  generalize wordSize used = current at word
  unfold finalSize
  simp only
  by_cases full : maxSize < current + 4
  · have outside : (if current + 4 > size then current + 4 else size) > maxSize := by
      split <;> omega
    rw [if_pos full, if_pos (Or.inr outside)]
    split <;> omega
  · have wanted : (if current + 4 > size then current + 4 else size) = current + 4 :=
      if_pos (by omega)
    rw [if_neg full, wanted, if_neg (by omega), if_neg (by omega)]
    omega

/-- The functions a generation emits for these size overrides. -/
def emitted (bounds : Section) (inputs : Inputs) (overrides : Dict Int Int) : List Fn :=
  (clampSizes bounds overrides (listed bounds inputs)).map (applyRename inputs.renames)

section Emitted

variable {rom : List UInt8} {bounds : Section} {inputs : Inputs}

theorem growFn_finalSize (fn : Fn) {override grown : Option Int} {maxSize : Int} (size : Int)
    (positive : 0 < maxSize)
    (overridden : grown =
      if SoundLine rom (functionLine
          { fn with size := finalSize (override.getD 0) maxSize size }) then override
      else some (finalSize (override.getD 0) maxSize size + 4)) :
    { fn with size := finalSize (grown.getD 0) maxSize size } =
      growFn rom maxSize { fn with size := finalSize (override.getD 0) maxSize size } := by
  have grows := finalSize_grow (override.getD 0) size positive
  generalize isSize : finalSize (override.getD 0) maxSize size = current at overridden grows ⊢
  by_cases sound : SoundLine rom (functionLine { fn with size := current })
  · rw [if_pos sound] at overridden
    rw [growFn_of_sound _ sound, overridden, isSize]
  · rw [if_neg sound] at overridden
    rw [overridden, Option.getD_some, grows, growFn]
    by_cases full : maxSize < current + 4
    · rw [if_pos full, if_pos (Or.inr full)]
    · rw [if_neg full, if_neg (not_or.mpr ⟨sound, full⟩)]

/-- With a word more for every function that is not sound, the clamp makes a round. -/
theorem clampSizes_grow {renames : Dict Int Text} {overrides grown : Dict Int Int}
    (funcs : List Fn)
    (room : ∀ earlier fn later, funcs = earlier ++ fn :: later →
      fn.vram < nextVram bounds later)
    (overridden : ∀ fn ∈ (clampSizes bounds overrides funcs).map (applyRename renames),
      grown.get? fn.vram =
        if SoundLine rom (functionLine fn) then overrides.get? fn.vram
        else some (fn.size + 4)) :
    (clampSizes bounds grown funcs).map (applyRename renames) =
      growAll rom bounds ((clampSizes bounds overrides funcs).map (applyRename renames)) := by
  induction funcs with
  | nil => rfl
  | cons fn rest inductionHypothesis =>
      have tail := inductionHypothesis
        (fun earlier other later split => room (fn :: earlier) other later (by rw [split]; rfl))
        (fun other member => overridden other (List.mem_cons_of_mem _ member))
      have here := overridden _ List.mem_cons_self
      have positive : 0 < nextVram bounds rest - fn.vram := by
        have before := room [] fn rest rfl
        omega
      have limit : nextVram bounds ((clampSizes bounds overrides rest).map
          (applyRename renames)) = nextVram bounds rest := by
        rw [nextVram_map_applyRename, nextVram_clampSizes]
      have head := growFn_finalSize (applyRename renames fn) fn.size positive here
      show _ :: (clampSizes bounds grown rest).map (applyRename renames) =
        growFn rom (nextVram bounds _ - fn.vram) _ :: growAll rom bounds _
      rw [tail, limit]
      exact congrArg (· :: _) head

/-- Names and addresses do not depend on the overrides. -/
theorem emitted_map_key (overrides : Dict Int Int) :
    (emitted bounds inputs overrides).map (fun fn => (fn.name, fn.vram)) =
      (listed bounds inputs).map
        (fun fn => ((applyRename inputs.renames fn).name, fn.vram)) := by
  unfold emitted
  generalize listed bounds inputs = funcs
  rw [List.map_map]
  induction funcs with
  | nil => rfl
  | cons fn rest inductionHypothesis =>
      rw [clampSizes, List.map_cons, List.map_cons, inductionHypothesis]
      rfl

theorem exists_of_mem_emitted {overrides : Dict Int Int} (other : Dict Int Int) {fn : Fn}
    (member : fn ∈ emitted bounds inputs overrides) :
    ∃ same ∈ emitted bounds inputs other, same.name = fn.name ∧ same.vram = fn.vram := by
  have keyed : (fn.name, fn.vram) ∈
      (emitted bounds inputs other).map (fun fn => (fn.name, fn.vram)) := by
    rw [emitted_map_key, ← emitted_map_key overrides]
    exact List.mem_map.mpr ⟨fn, member, rfl⟩
  obtain ⟨same, inOther, key⟩ := List.mem_map.mp keyed
  exact ⟨same, inOther, (Prod.mk.inj key).1, (Prod.mk.inj key).2⟩

theorem emitted_word (wellFormed : inputs.WellFormed) {overrides : Dict Int Int} {fn : Fn}
    (member : fn ∈ emitted bounds inputs overrides) :
    fn.vram % 4 = 0 ∧ 4 ≤ fn.size ∧ fn.size % 4 = 0 := by
  obtain ⟨earlier, later, split⟩ := List.append_of_mem member
  have sameInputs : ({ inputs with sizeOverrides := overrides } : Inputs).WellFormed :=
    ⟨wellFormed.distinct, wellFormed.keyed⟩
  obtain ⟨source, _, kept, _, isSize, room⟩ := emitted_entry sameInputs split
  have vramWord := ((keeps_iff fn.vram).mp kept).2.2.1
  have word := finalSize_word ((overrides.get? fn.vram).getD 0) source.size
    (show 0 < nextVram bounds later - fn.vram by omega)
  rw [isSize]
  exact ⟨vramWord, word⟩

theorem emitted_increasing (overrides : Dict Int Int) :
    Increasing (emitted bounds inputs overrides) := by
  have increasing : Increasing (clampSizes bounds overrides (listed bounds inputs)) :=
    clamped_increasing overrides
  unfold Increasing at increasing ⊢
  rw [emitted, List.pairwise_map]
  exact increasing

/-- Where the fixer reads through, the next generation is one round further. -/
theorem emitted_writes_roundSizes (wellFormed : inputs.WellFormed) {overrides : Dict Int Int}
    (steady : Steady rom (emitted bounds inputs overrides)) :
    emitted bounds inputs (Dict.writes overrides
        (roundSizes rom (emitted bounds inputs overrides))) =
      growAll rom bounds (emitted bounds inputs overrides) := by
  refine clampSizes_grow (listed bounds inputs) ?_ ?_
  · intro earlier fn later split
    refine lt_nextVram listed_increasing ?_ split
    intro other member
    exact ((keeps_iff other.vram).mp (owner_of_mem_listed wellFormed member).2).2.1
  · intro fn member
    exact get?_writes_roundSizes steady.increasing overrides member

end Emitted

end StadiumRecomp.Symbols
