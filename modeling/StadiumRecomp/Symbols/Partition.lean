import StadiumRecomp.Symbols.Generate

/-!
Contract: the functions `gen_symbols_toml` emits form a clean partition.

Owns: what the sort, the dedup and the size rule each guarantee, the reading of
an emitted entry back to the add or list entry that owns its vram, and
`genSymbolsToml_partition`, the whole-tool statement.

Does not own: the repair loop that feeds the merges and sizes files.
-/

set_option autoImplicit false

namespace StadiumRecomp.Symbols

open StadiumRecomp.Lib

/-! ## Sort and dedup keep the first entry of each vram -/

/-- The first entry at a vram. -/
def firstAt (funcs : List Fn) (vram : Int) : Option Fn :=
  funcs.find? (fun fn => fn.vram = vram)

theorem firstAt_cons (fn : Fn) (rest : List Fn) (vram : Int) :
    firstAt (fn :: rest) vram =
      if fn.vram = vram then some fn else firstAt rest vram := by
  unfold firstAt
  by_cases equal : fn.vram = vram <;> simp [equal]

theorem firstAt_append (left right : List Fn) (vram : Int) :
    firstAt (left ++ right) vram = (firstAt left vram).or (firstAt right vram) :=
  List.find?_append

/-- Inserting never puts an entry behind another one with its vram. -/
theorem firstAt_orderedInsert (fn : Fn) (funcs : List Fn) (vram : Int) :
    firstAt (funcs.orderedInsert (fun left right => left.vram ≤ right.vram) fn) vram =
      if fn.vram = vram then some fn else firstAt funcs vram := by
  induction funcs with
  | nil => simp [firstAt_cons]
  | cons head rest inductionHypothesis =>
      rw [List.orderedInsert_cons]
      by_cases before : fn.vram ≤ head.vram
      · rw [if_pos before, firstAt_cons]
      · rw [if_neg before, firstAt_cons, inductionHypothesis, firstAt_cons]
        by_cases equal : fn.vram = vram
        · have headDifferent : head.vram ≠ vram := by omega
          simp [equal, headDifferent]
        · simp [equal]

theorem firstAt_sortByVram (funcs : List Fn) (vram : Int) :
    firstAt (sortByVram funcs) vram = firstAt funcs vram := by
  unfold sortByVram
  induction funcs with
  | nil => rfl
  | cons fn rest inductionHypothesis =>
      rw [List.insertionSort_cons, firstAt_orderedInsert, inductionHypothesis,
        firstAt_cons]

private theorem firstAt_destutter' (rest : List Fn) (kept : Fn) (vram : Int) :
    firstAt (rest.destutter' (fun kept fn => kept.vram ≠ fn.vram) kept) vram =
      firstAt (kept :: rest) vram := by
  induction rest generalizing kept with
  | nil => rfl
  | cons fn rest inductionHypothesis =>
      by_cases different : kept.vram ≠ fn.vram
      · rw [List.destutter'_cons_pos rest different, firstAt_cons,
          inductionHypothesis, firstAt_cons]
        simp [firstAt_cons]
      · rw [List.destutter'_cons_neg rest different, inductionHypothesis,
          firstAt_cons, firstAt_cons, firstAt_cons]
        have same : kept.vram = fn.vram := by simpa using different
        by_cases equal : kept.vram = vram
        · simp [equal]
        · rw [if_neg equal, if_neg equal, if_neg (same ▸ equal)]

theorem firstAt_dedup (funcs : List Fn) (vram : Int) :
    firstAt (dedup funcs) vram = firstAt funcs vram := by
  cases funcs with
  | nil => rfl
  | cons fn rest => exact firstAt_destutter' rest fn vram

/-- Strictly increasing vrams. -/
def Increasing (funcs : List Fn) : Prop :=
  funcs.Pairwise (fun left right => left.vram < right.vram)

theorem sortByVram_sorted (funcs : List Fn) :
    (sortByVram funcs).Pairwise (fun left right => left.vram ≤ right.vram) := by
  have : Std.Total (fun left right : Fn => left.vram ≤ right.vram) :=
    ⟨fun left right => le_total left.vram right.vram⟩
  have : IsTrans Fn (fun left right => left.vram ≤ right.vram) :=
    ⟨fun _ _ _ first second => le_trans first second⟩
  exact List.pairwise_insertionSort _ funcs

theorem dedup_increasing {funcs : List Fn}
    (sorted : funcs.Pairwise (fun left right => left.vram ≤ right.vram)) :
    Increasing (dedup funcs) := by
  have : IsTrans Fn (fun left right => left.vram < right.vram) :=
    ⟨fun _ _ _ first second => lt_trans first second⟩
  have keptSorted := sorted.sublist
    (List.destutter_sublist (fun kept fn : Fn => kept.vram ≠ fn.vram) funcs)
  have different :=
    List.isChain_destutter (fun kept fn : Fn => kept.vram ≠ fn.vram) funcs
  unfold Increasing dedup
  rw [← List.isChain_iff_pairwise]
  rw [List.isChain_iff_getElem]
  intro index bound
  have le := List.isChain_iff_getElem.mp keptSorted.isChain index bound
  have ne := List.isChain_iff_getElem.mp different index bound
  exact lt_of_le_of_ne le ne

/-! ## The size rule -/

/-- Round down to a word, but never to nothing. -/
def wordSize (size : Int) : Int := if size / 4 * 4 = 0 then 4 else size / 4 * 4

/-- The size an entry asks for: its own, raised by an override. -/
def wantedSize (override : Option Int) (size : Int) : Int :=
  match override with
  | some minimum => max size minimum
  | none => size

theorem finalSize_bounds (override : Int) {maxSize : Int} (size : Int)
    (positive : 0 < maxSize) (aligned : maxSize % 4 = 0) :
    0 < finalSize override maxSize size ∧
      finalSize override maxSize size ≤ maxSize ∧
      finalSize override maxSize size % 4 = 0 := by
  have clamped : ∀ value : Int, 0 < value → value ≤ maxSize →
      0 < (if value / 4 * 4 = 0 then 4 else value / 4 * 4) ∧
        (if value / 4 * 4 = 0 then 4 else value / 4 * 4) ≤ maxSize ∧
        (if value / 4 * 4 = 0 then 4 else value / 4 * 4) % 4 = 0 := by
    intro value valuePositive fits
    split <;> omega
  unfold finalSize
  simp only
  by_cases outside : (if override > size then override else size) ≤ 0 ∨
      (if override > size then override else size) > maxSize
  · rw [if_pos outside]
    exact clamped maxSize positive le_rfl
  · rw [if_neg outside]
    push Not at outside
    exact clamped _ outside.1 outside.2

theorem finalSize_of_fits {override : Option Int} {maxSize size : Int}
    (positive : 0 < wantedSize override size)
    (fits : wantedSize override size ≤ maxSize) :
    finalSize (override.getD 0) maxSize size = wordSize (wantedSize override size) := by
  have raised : (if override.getD 0 > size then override.getD 0 else size) =
      wantedSize override size := by
    cases override with
    | none =>
        simp only [wantedSize] at positive ⊢
        simp only [Option.getD_none]
        rw [if_neg (by omega)]
    | some minimum =>
        simp only [wantedSize, Option.getD_some, gt_iff_lt]
        split <;> omega
  have inside : ¬ (wantedSize override size ≤ 0 ∨
      wantedSize override size > maxSize) := by
    omega
  simp only [finalSize, wordSize, raised, inside, if_false]

/-! ## The final loop -/

/-- The vram where the entry before `later` has to end. -/
def nextVram (bounds : Section) (later : List Fn) : Int :=
  (later.head?.map Fn.vram).getD bounds.hi

section Clamp

variable (bounds : Section) (overrides : Dict Int Int)

@[simp] theorem clampSizes_map_vram (funcs : List Fn) :
    (clampSizes bounds overrides funcs).map Fn.vram = funcs.map Fn.vram := by
  induction funcs with
  | nil => rfl
  | cons fn rest inductionHypothesis => simp [clampSizes, inductionHypothesis]

theorem nextVram_clampSizes (later : List Fn) :
    nextVram bounds (clampSizes bounds overrides later) = nextVram bounds later := by
  cases later <;> rfl

/-- Every output entry is one input entry with the size rule applied between it
and the entry that follows it. -/
theorem clampSizes_entry {funcs earlier later : List Fn} {fn : Fn}
    (split : clampSizes bounds overrides funcs = earlier ++ fn :: later) :
    ∃ source ∈ funcs, fn = { source with
      size := finalSize ((overrides.get? source.vram).getD 0)
        (nextVram bounds later - source.vram) source.size } := by
  induction funcs generalizing earlier with
  | nil => simp [clampSizes] at split
  | cons head rest inductionHypothesis =>
      simp only [clampSizes] at split
      cases earlier with
      | nil =>
          simp only [List.nil_append, List.cons.injEq] at split
          refine ⟨head, by simp, ?_⟩
          rw [← split.1, ← split.2, nextVram_clampSizes]
          rfl
      | cons first earlier =>
          simp only [List.cons_append, List.cons.injEq] at split
          obtain ⟨source, member, equation⟩ := inductionHypothesis split.2
          exact ⟨source, by simp [member], equation⟩

theorem firstAt_clampSizes_vram {funcs : List Fn} {vram : Int} :
    (∃ fn ∈ clampSizes bounds overrides funcs, fn.vram = vram) ↔
      ∃ fn ∈ funcs, fn.vram = vram := by
  have same := clampSizes_map_vram bounds overrides funcs
  rw [← List.mem_map, ← List.mem_map, same]

end Clamp

/-- In a strictly increasing list below the section end, the next entry lies
strictly later. -/
theorem lt_nextVram {bounds : Section} {funcs earlier later : List Fn} {fn : Fn}
    (increasing : Increasing funcs) (below : ∀ fn ∈ funcs, fn.vram < bounds.hi)
    (split : funcs = earlier ++ fn :: later) : fn.vram < nextVram bounds later := by
  subst split
  cases later with
  | nil => exact below fn (by simp)
  | cons next later =>
      have tail := (List.pairwise_append.mp increasing).2.1
      exact (List.pairwise_cons.mp tail).1 next (by simp)

/-! ## Owners -/

/-- What the readers guarantee of `adds`: one record per vram, filed under its
own vram. -/
structure Inputs.WellFormed (inputs : Inputs) : Prop where
  distinct : Dict.Distinct inputs.adds
  keyed : ∀ entry ∈ inputs.adds, entry.2.vram = entry.1

/-- The record that owns a vram: the add when there is one, else the first
`functions.json` entry. -/
def Inputs.owner (inputs : Inputs) (vram : Int) : Option Fn :=
  (inputs.adds.get? vram).or (firstAt inputs.functions vram)

/-- Some record of `functions.json` or the adds file names this vram. -/
def Inputs.Declares (inputs : Inputs) (vram : Int) : Prop :=
  (∃ fn ∈ inputs.functions, fn.vram = vram) ∨ (inputs.adds.get? vram).isSome

theorem Inputs.owner_isSome_iff (inputs : Inputs) (vram : Int) :
    (inputs.owner vram).isSome ↔ inputs.Declares vram := by
  unfold Inputs.owner Inputs.Declares
  have listed : (firstAt inputs.functions vram).isSome ↔
      ∃ fn ∈ inputs.functions, fn.vram = vram := by
    simp [firstAt]
  rw [← listed]
  cases inputs.adds.get? vram <;> simp

private theorem firstAt_adds {adds : Dict Int Fn} (distinct : Dict.Distinct adds)
    (keyed : ∀ entry ∈ adds, entry.2.vram = entry.1) (vram : Int) :
    firstAt (adds.map Prod.snd) vram = adds.get? vram := by
  induction adds with
  | nil => rfl
  | cons entry rest inductionHypothesis =>
      have restDistinct : Dict.Distinct rest := by
        unfold Dict.Distinct at distinct ⊢
        exact (List.nodup_cons.mp distinct).2
      rw [List.map_cons, firstAt_cons, Dict.get?_cons, keyed entry (by simp),
        inductionHypothesis restDistinct
          (fun other member => keyed other (by simp [member]))]

private theorem firstAt_filter (funcs : List Fn) (p : Int → Bool) (vram : Int) :
    firstAt (funcs.filter (fun fn => p fn.vram)) vram =
      if p vram then firstAt funcs vram else none := by
  induction funcs with
  | nil => simp [firstAt]
  | cons fn rest inductionHypothesis =>
      rw [firstAt_cons]
      by_cases equal : fn.vram = vram
      · subst equal
        by_cases kept : p fn.vram = true
        · simp [kept, firstAt_cons]
        · simp only [kept, List.filter_cons, if_false, Bool.false_eq_true]
          simpa [kept] using inductionHypothesis
      · rw [if_neg equal]
        by_cases kept : p fn.vram = true
        · simp [kept, firstAt_cons, equal, inductionHypothesis]
        · simp [kept, inductionHypothesis]

private theorem get?_filter_keys (adds : Dict Int Fn) (p : Int → Bool) (vram : Int) :
    Dict.get? (adds.filter (fun entry => p entry.1)) vram =
      if p vram then adds.get? vram else none := by
  induction adds with
  | nil => simp
  | cons entry rest inductionHypothesis =>
      rw [Dict.get?_cons]
      by_cases equal : entry.1 = vram
      · by_cases kept : p vram = true
        · simp [kept, equal, Dict.get?_cons]
        · simp only [equal, kept, List.filter_cons, if_false, Bool.false_eq_true]
          simpa [kept] using inductionHypothesis
      · by_cases kept : p entry.1 = true
        · simp [kept, Dict.get?_cons, equal, inductionHypothesis]
        · simp [kept, equal, inductionHypothesis]

/-- The collected list holds, at each kept vram, its owner first. -/
theorem firstAt_collect {bounds : Section} {inputs : Inputs}
    (wellFormed : inputs.WellFormed) (vram : Int) :
    firstAt (collect bounds inputs) vram =
      if keeps bounds inputs.drops vram then inputs.owner vram else none := by
  have addsFiltered : firstAt ((inputs.adds.filter
        (fun entry => keeps bounds inputs.drops entry.1)).map Prod.snd) vram =
      if keeps bounds inputs.drops vram then inputs.adds.get? vram else none := by
    rw [firstAt_adds (wellFormed.distinct.sublist (List.filter_sublist.map _))
      (fun entry member => wellFormed.keyed entry (List.mem_of_mem_filter member)),
      get?_filter_keys]
  unfold collect
  simp only
  rw [firstAt_append, addsFiltered,
    firstAt_filter _ (fun vram => (inputs.adds.get? vram).isNone),
    firstAt_filter]
  unfold Inputs.owner
  cases inputs.adds.get? vram <;> simp

theorem parseAddLine_keyed {line : Text} {entry : Int × Fn}
    (parsed : parseAddLine line = .ok entry) : entry.2.vram = entry.1 := by
  unfold parseAddLine at parsed
  split at parsed
  · cases parsed
  · obtain ⟨vram, _, afterVram⟩ := Outcome.bind_eq_ok parsed
    obtain ⟨size, _, afterSize⟩ := Outcome.bind_eq_ok afterVram
    cases afterSize
    rfl

theorem loadAdds_wellFormed {file : Option Text} {adds : Dict Int Fn}
    (loaded : loadAdds file = .ok adds) :
    Dict.Distinct adds ∧ ∀ entry ∈ adds, entry.2.vram = entry.1 := by
  cases file with
  | none =>
      cases loaded
      exact ⟨List.nodup_nil, by simp⟩
  | some text =>
      obtain ⟨entries, parsed, finish⟩ := Outcome.bind_eq_ok loaded
      cases finish
      refine ⟨Dict.Distinct.writes Dict.Distinct.nil entries, ?_⟩
      intro entry member
      rcases Dict.mem_writes member with inside | inside
      · obtain ⟨line, _, ok⟩ := Outcome.exists_of_mem_mapM parsed inside
        exact parseAddLine_keyed ok
      · simp at inside

/-- What a successful read of all the files consists of. -/
theorem readInputs_eq_ok {files : SideFiles} {raw : List RawFunction}
    {inputs : Inputs} (read : readInputs files raw = .ok inputs) :
    ∃ drops merges, loadAddrFile files.drops = .ok drops ∧
      loadAddrFile files.merges = .ok merges ∧
      inputs.drops = drops ++ merges ∧
      loadSizes files.sizes = .ok inputs.sizeOverrides ∧
      loadRenames files.renames = .ok inputs.renames ∧
      loadAdds files.adds = .ok inputs.adds ∧
      raw.mapM parseFunction = .ok inputs.functions := by
  obtain ⟨drops, dropsOk, read⟩ := Outcome.bind_eq_ok read
  obtain ⟨merges, mergesOk, read⟩ := Outcome.bind_eq_ok read
  obtain ⟨sizes, sizesOk, read⟩ := Outcome.bind_eq_ok read
  obtain ⟨renames, renamesOk, read⟩ := Outcome.bind_eq_ok read
  obtain ⟨adds, addsOk, read⟩ := Outcome.bind_eq_ok read
  obtain ⟨functions, functionsOk, read⟩ := Outcome.bind_eq_ok read
  cases read
  exact ⟨drops, merges, dropsOk, mergesOk, rfl, sizesOk, renamesOk, addsOk,
    functionsOk⟩

theorem readInputs_wellFormed {files : SideFiles} {raw : List RawFunction}
    {inputs : Inputs} (read : readInputs files raw = .ok inputs) :
    inputs.WellFormed := by
  obtain ⟨_, _, _, _, _, _, _, addsOk, _⟩ := readInputs_eq_ok read
  obtain ⟨distinct, keyed⟩ := loadAdds_wellFormed addsOk
  exact ⟨distinct, keyed⟩

/-! ## The partition -/

/-- Vrams that must appear: declared, inside the section, word aligned and
neither dropped nor merged. -/
def Inputs.Emits (bounds : Section) (inputs : Inputs) (vram : Int) : Prop :=
  inputs.Declares vram ∧ bounds.lo ≤ vram ∧ vram < bounds.hi ∧
    vram % 4 = 0 ∧ vram ∉ inputs.drops

/-- The clean partition the recompiler expects. -/
structure CleanPartition (bounds : Section) (inputs : Inputs) (out : List Fn) :
    Prop where
  increasing : Increasing out
  aligned : ∀ fn ∈ out, fn.vram % 4 = 0
  sizePositive : ∀ fn ∈ out, 0 < fn.size ∧ fn.size % 4 = 0
  disjoint : ∀ earlier fn later, out = earlier ++ fn :: later →
    fn.vram + fn.size ≤ nextVram bounds later
  inSection : ∀ fn ∈ out, bounds.lo ≤ fn.vram ∧ fn.vram + fn.size ≤ bounds.hi
  vrams : ∀ vram, (∃ fn ∈ out, fn.vram = vram) ↔ inputs.Emits bounds vram
  /-- Each entry carries its owner's name and, when the wanted size fits, the
  wanted size. -/
  owned : ∀ earlier fn later, out = earlier ++ fn :: later →
    ∃ source, inputs.owner fn.vram = some source ∧
      fn.name = (inputs.renames.get? fn.vram).getD source.name ∧
      (0 < wantedSize (inputs.sizeOverrides.get? fn.vram) source.size →
        fn.vram + wantedSize (inputs.sizeOverrides.get? fn.vram) source.size ≤
          nextVram bounds later →
        fn.size = wordSize (wantedSize (inputs.sizeOverrides.get? fn.vram) source.size))

section Emit

variable {bounds : Section} {inputs : Inputs}

/-- The sorted and deduplicated list the final loop walks. -/
def listed (bounds : Section) (inputs : Inputs) : List Fn :=
  dedup (sortByVram (collect bounds inputs))

theorem listed_increasing : Increasing (listed bounds inputs) :=
  dedup_increasing (sortByVram_sorted _)

theorem keeps_iff (vram : Int) : keeps bounds inputs.drops vram = true ↔
    bounds.lo ≤ vram ∧ vram < bounds.hi ∧ vram % 4 = 0 ∧ vram ∉ inputs.drops := by
  simp only [keeps, ge_iff_le, Bool.and_eq_true, Bool.not_eq_true',
    Bool.or_eq_false_iff, decide_eq_false_iff_not, not_lt, not_le, beq_iff_eq,
    List.contains_eq_mem]
  tauto

theorem firstAt_listed (wellFormed : inputs.WellFormed) (vram : Int) :
    firstAt (listed bounds inputs) vram =
      if keeps bounds inputs.drops vram then inputs.owner vram else none := by
  unfold listed
  rw [firstAt_dedup, firstAt_sortByVram, firstAt_collect wellFormed]

theorem listed_vrams (wellFormed : inputs.WellFormed) (vram : Int) :
    (∃ fn ∈ listed bounds inputs, fn.vram = vram) ↔ inputs.Emits bounds vram := by
  have present : (∃ fn ∈ listed bounds inputs, fn.vram = vram) ↔
      (firstAt (listed bounds inputs) vram).isSome := by
    simp [firstAt]
  rw [present, firstAt_listed wellFormed, Inputs.Emits, ← keeps_iff,
    ← Inputs.owner_isSome_iff]
  by_cases kept : keeps bounds inputs.drops vram = true <;> simp [kept]

/-- With distinct vrams, every entry is the first one at its vram. -/
theorem firstAt_of_mem {funcs : List Fn} (increasing : Increasing funcs) {fn : Fn}
    (member : fn ∈ funcs) : firstAt funcs fn.vram = some fn := by
  induction funcs with
  | nil => simp at member
  | cons head rest inductionHypothesis =>
      obtain ⟨headBefore, restIncreasing⟩ := List.pairwise_cons.mp increasing
      rw [firstAt_cons]
      rcases List.mem_cons.mp member with rfl | tail
      · simp
      · have before := headBefore fn tail
        rw [if_neg (by omega)]
        exact inductionHypothesis restIncreasing tail

theorem owner_of_mem_listed (wellFormed : inputs.WellFormed) {fn : Fn}
    (member : fn ∈ listed bounds inputs) :
    inputs.owner fn.vram = some fn ∧ keeps bounds inputs.drops fn.vram = true := by
  have found := firstAt_of_mem listed_increasing member
  rw [firstAt_listed wellFormed] at found
  by_cases kept : keeps bounds inputs.drops fn.vram = true
  · rw [if_pos kept] at found
    exact ⟨found, kept⟩
  · rw [if_neg kept] at found
    cases found

theorem clamped_increasing (overrides : Dict Int Int) :
    Increasing (clampSizes bounds overrides (listed bounds inputs)) := by
  have increasing : Increasing (listed bounds inputs) := listed_increasing
  unfold Increasing at increasing ⊢
  rw [← List.pairwise_map (f := Fn.vram) (R := (· < ·))] at increasing ⊢
  rw [clampSizes_map_vram]
  exact increasing

theorem nextVram_map_applyRename (renames : Dict Int Text) (later : List Fn) :
    nextVram bounds (later.map (applyRename renames)) = nextVram bounds later := by
  cases later <;> rfl

/-- Every emitted entry, with its owner and the gap it was fitted into. -/
theorem emitted_entry (wellFormed : inputs.WellFormed) {earlier later : List Fn}
    {fn : Fn}
    (split : (clampSizes bounds inputs.sizeOverrides (listed bounds inputs)).map
      (applyRename inputs.renames) = earlier ++ fn :: later) :
    ∃ source, inputs.owner fn.vram = some source ∧
      keeps bounds inputs.drops fn.vram = true ∧
      fn.name = (inputs.renames.get? fn.vram).getD source.name ∧
      fn.size = finalSize ((inputs.sizeOverrides.get? fn.vram).getD 0)
        (nextVram bounds later - fn.vram) source.size ∧
      fn.vram < nextVram bounds later := by
  obtain ⟨earlierClamped, restClamped, splitClamped, _, restEq⟩ :=
    List.map_eq_append_iff.mp split
  obtain ⟨clamped, laterClamped, rfl, renamedEq, rfl⟩ := List.map_eq_cons_iff.mp restEq
  obtain ⟨source, member, clampedEq⟩ :=
    clampSizes_entry bounds inputs.sizeOverrides splitClamped
  obtain ⟨ownerEq, kept⟩ := owner_of_mem_listed wellFormed member
  have vramEq : clamped.vram = source.vram := by rw [clampedEq]
  have below : ∀ fn ∈ clampSizes bounds inputs.sizeOverrides (listed bounds inputs),
      fn.vram < bounds.hi := by
    intro other inside
    obtain ⟨original, originalMember, same⟩ :=
      (firstAt_clampSizes_vram bounds inputs.sizeOverrides).mp ⟨other, inside, rfl⟩
    have originalKept := (owner_of_mem_listed wellFormed originalMember).2
    rw [← same]
    exact (keeps_iff original.vram).mp originalKept |>.2.1
  have later := lt_nextVram (clamped_increasing inputs.sizeOverrides) below splitClamped
  subst renamedEq
  refine ⟨source, ?_, ?_, ?_, ?_, ?_⟩
  · simpa [applyRename, vramEq] using ownerEq
  · simpa [applyRename, vramEq] using kept
  · simp [applyRename, clampedEq]
  · simp [applyRename, clampedEq, nextVram_map_applyRename]
  · simpa [applyRename, nextVram_map_applyRename] using later

end Emit

/-- Word-aligned bounds leave a word-aligned gap after every entry. -/
private theorem nextVram_aligned {bounds : Section} (hiAligned : bounds.hi % 4 = 0)
    {later : List Fn} (aligned : ∀ fn ∈ later, fn.vram % 4 = 0) :
    nextVram bounds later % 4 = 0 := by
  cases later with
  | nil => exact hiAligned
  | cons next later => exact aligned next (by simp)

theorem cleanPartition_of_listed {bounds : Section} {inputs : Inputs}
    (hiAligned : bounds.hi % 4 = 0) (wellFormed : inputs.WellFormed) :
    CleanPartition bounds inputs
      ((clampSizes bounds inputs.sizeOverrides (listed bounds inputs)).map
        (applyRename inputs.renames)) := by
  generalize outEq : (clampSizes bounds inputs.sizeOverrides (listed bounds inputs)).map
    (applyRename inputs.renames) = out
  have entry := fun earlier fn later (split : out = earlier ++ fn :: later) =>
    emitted_entry wellFormed (outEq.trans split)
  have mapVram : out.map Fn.vram = (listed bounds inputs).map Fn.vram := by
    rw [← outEq, List.map_map, ← clampSizes_map_vram bounds inputs.sizeOverrides]
    rfl
  have increasing : Increasing out := by
    have sorted : Increasing (listed bounds inputs) := listed_increasing
    unfold Increasing at sorted ⊢
    rw [← List.pairwise_map (f := Fn.vram) (R := (· < ·))] at sorted ⊢
    rwa [mapVram]
  have kept : ∀ fn ∈ out, keeps bounds inputs.drops fn.vram = true := by
    intro fn member
    obtain ⟨earlier, later, split⟩ := List.append_of_mem member
    obtain ⟨_, _, keptFn, _⟩ := entry earlier fn later split
    exact keptFn
  have aligned : ∀ fn ∈ out, fn.vram % 4 = 0 := fun fn member =>
    ((keeps_iff fn.vram).mp (kept fn member)).2.2.1
  -- The gap after each entry is positive and word aligned, so the size rule applies.
  have fitted : ∀ earlier fn later, out = earlier ++ fn :: later →
      0 < fn.size ∧ fn.vram + fn.size ≤ nextVram bounds later ∧ fn.size % 4 = 0 := by
    intro earlier fn later split
    obtain ⟨source, _, _, _, sizeEq, gap⟩ := entry earlier fn later split
    have laterAligned : ∀ other ∈ later, other.vram % 4 = 0 :=
      fun other member => aligned other (by rw [split]; simp [member])
    have nextAligned := nextVram_aligned hiAligned laterAligned
    have fnAligned := aligned fn (by rw [split]; simp)
    have roomPositive : 0 < nextVram bounds later - fn.vram := by omega
    have roomAligned : (nextVram bounds later - fn.vram) % 4 = 0 := by omega
    obtain ⟨positive, fits, word⟩ := finalSize_bounds
      ((inputs.sizeOverrides.get? fn.vram).getD 0) source.size roomPositive roomAligned
    rw [← sizeEq] at positive fits word
    exact ⟨positive, by omega, word⟩
  have nextLe : ∀ earlier fn later, out = earlier ++ fn :: later →
      nextVram bounds later ≤ bounds.hi := by
    intro earlier fn later split
    cases later with
    | nil => exact le_rfl
    | cons next later =>
        have nextKept := kept next (by rw [split]; simp)
        exact le_of_lt ((keeps_iff next.vram).mp nextKept).2.1
  refine ⟨increasing, aligned, ?_, ?_, ?_, ?_, ?_⟩
  · intro fn member
    obtain ⟨earlier, later, split⟩ := List.append_of_mem member
    exact ⟨(fitted earlier fn later split).1, (fitted earlier fn later split).2.2⟩
  · intro earlier fn later split
    exact (fitted earlier fn later split).2.1
  · intro fn member
    obtain ⟨earlier, later, split⟩ := List.append_of_mem member
    exact ⟨((keeps_iff fn.vram).mp (kept fn member)).1,
      le_trans (fitted earlier fn later split).2.1 (nextLe earlier fn later split)⟩
  · intro vram
    rw [← listed_vrams wellFormed, ← List.mem_map, ← List.mem_map, mapVram]
  · intro earlier fn later split
    obtain ⟨source, ownerEq, _, nameEq, sizeEq, _⟩ := entry earlier fn later split
    refine ⟨source, ownerEq, nameEq, ?_⟩
    intro positive fits
    rw [sizeEq]
    exact finalSize_of_fits positive (by omega)

theorem collect_isEmpty_iff {bounds : Section} {inputs : Inputs}
    (wellFormed : inputs.WellFormed) :
    (collect bounds inputs).isEmpty = true ↔
      ∀ vram, ¬ inputs.Emits bounds vram := by
  rw [List.isEmpty_iff]
  constructor
  · intro empty vram emits
    obtain ⟨fn, member, _⟩ := (listed_vrams wellFormed vram).mpr emits
    have noEntry : listed bounds inputs = [] := by
      unfold listed
      rw [empty]
      rfl
    rw [noEntry] at member
    simp at member
  · intro none
    rw [List.eq_nil_iff_forall_not_mem]
    intro fn member
    have found : (firstAt (collect bounds inputs) fn.vram).isSome := by
      simp only [firstAt, List.find?_isSome]
      exact ⟨fn, member, by simp⟩
    rw [firstAt_collect wellFormed] at found
    by_cases kept : keeps bounds inputs.drops fn.vram = true
    · rw [if_pos kept] at found
      exact none fn.vram
        ⟨(inputs.owner_isSome_iff fn.vram).mp found, (keeps_iff fn.vram).mp kept⟩
    · rw [if_neg kept] at found
      simp at found

theorem genSymbolsToml_of_read {bounds : Section} {files : SideFiles}
    {raw : List RawFunction} {inputs : Inputs} (read : readInputs files raw = .ok inputs) :
    genSymbolsToml bounds files raw = emit bounds inputs := by
  unfold genSymbolsToml
  rw [read]
  rfl

/-- For every function list and every side file the readers accept, the tool
emits a clean partition of the section, and stops without output exactly when
no vram qualifies. -/
theorem genSymbolsToml_partition (bounds : Section)
    (hiAligned : bounds.hi % 4 = 0)
    (files : SideFiles) (raw : List RawFunction) (inputs : Inputs)
    (read : readInputs files raw = .ok inputs) :
    match genSymbolsToml bounds files raw with
    | .ok out => CleanPartition bounds inputs out
    | .error error => error = .noFunctions ∧ ∀ vram, ¬ inputs.Emits bounds vram := by
  have wellFormed := readInputs_wellFormed read
  rw [genSymbolsToml_of_read read]
  unfold emit
  by_cases empty : (collect bounds inputs).isEmpty = true
  · simp only [empty, if_true]
    exact ⟨trivial, (collect_isEmpty_iff wellFormed).mp empty⟩
  · simp only [empty, if_false, Bool.false_eq_true]
    exact cleanPartition_of_listed hiAligned wellFormed

/-- An override, an add, an unaligned entry, a dropped and a merged one in the default section. -/
theorem genSymbolsToml_partition_example :
    CleanPartition ⟨0x80000400, 0x7FC00⟩
      ⟨[0x80000480, 0x80000420], [(0x80000400, 0x24)], [],
        [(0x80000440, ⟨"thread".toList, 0x80000440, 0x10⟩)],
        [⟨"entry".toList, 0x80000400, 0x10⟩, ⟨"data".toList, 0x80000441, 0⟩,
          ⟨"tail".toList, 0x80000420, 8⟩, ⟨"stub".toList, 0x80000480, 8⟩]⟩
      [⟨"entry".toList, 0x80000400, 0x24⟩, ⟨"thread".toList, 0x80000440, 0x10⟩] :=
  genSymbolsToml_partition ⟨0x80000400, 0x7FC00⟩ (by decide)
    ⟨some "0x80000480 # a stub\n".toList, some "# merges\n0x80000420\n".toList,
      some "0x80000400 0x24\n".toList, none, some "# adds\n0x80000440 0x10 thread\n".toList⟩
    [⟨"entry".toList, .int 0x80000400, some (.int 0x10)⟩,
      ⟨"data".toList, .int 0x80000441, none⟩,
      ⟨"tail".toList, .int 0x80000420, some (.int 8)⟩,
      ⟨"stub".toList, .int 0x80000480, some (.int 8)⟩]
    _ rfl

end StadiumRecomp.Symbols
