import StadiumRecomp.Symbols.Growth

/-!
Contract: rounds of `fix_truncated_delay_slots` and `gen_symbols_toml` on their files.

Owns: the two tools run in turn from any sizes file, their rounds as rounds of growth, and
the exact inputs from which they end without a truncated function.

Does not own: runs of `derive_boundary_merges` between the rounds.
-/

set_option autoImplicit false

namespace StadiumRecomp.Symbols

open StadiumRecomp.Lib

/-! ## Rounds of the tools -/

/-- What the rounds leave as it is: the ROM, the command line of the generator and
all it reads but the sizes. -/
structure RepairSetup where
  rom : List UInt8
  sectionName : Text
  romOffset : Int
  bounds : Section
  drops : Option Text
  merges : Option Text
  renames : Option Text
  adds : Option Text
  raw : List RawFunction

namespace RepairSetup

section Rounds

variable (setup : RepairSetup)

def generate : ToolRun :=
  .genSymbols setup.sectionName setup.romOffset setup.bounds setup.drops setup.renames
    setup.adds setup.raw

/-- The first generation, from a sizes file. -/
def start (sizes : Option Text) : ToolFiles :=
  ToolFiles.run ⟨sizes, setup.merges, none⟩ setup.generate

/-- The fixer, then the generator. -/
def round (files : ToolFiles) : ToolFiles :=
  (files.run (.fixTruncated setup.rom)).run setup.generate

/-- The fixer finds no truncated function and appends nothing. -/
def Settled (files : ToolFiles) : Prop :=
  ∃ symbols, files.symbols = some symbols ∧ fixes setup.rom symbols = some []

/-- The functions of a first generation can all be repaired: the fixer reads through, finds
nothing truncated in the header, and each function has a size within its limit at which
nothing in its line is truncated. -/
structure Repairable (funcs : List Fn) : Prop where
  header : ∀ line ∈ symbolsHeader setup.sectionName setup.romOffset setup.bounds,
    SoundLine setup.rom line
  readable : ∀ fn ∈ funcs, ReadableLine setup.rom (functionLine fn)
  sound : ∀ earlier fn later, funcs = earlier ++ fn :: later →
    ∃ size, GrowsTo (nextVram setup.bounds later - fn.vram) fn.size size ∧
      SoundLine setup.rom (functionLine { fn with size := size })

/-- Files behind a generation that read these overrides. -/
structure Generated (inputs : Inputs) (overrides : Dict Int Int) (files : ToolFiles) :
    Prop where
  sizes : loadSizes files.sizes = .ok overrides
  merges : files.merges = setup.merges
  symbols : files.symbols = some (writeSymbols setup.sectionName setup.romOffset setup.bounds
    (emitted setup.bounds inputs overrides))

end Rounds

section Files

variable {setup : RepairSetup} {inputs : Inputs} {overrides : Dict Int Int} {files : ToolFiles}

theorem Generated.settled_iff (generated : setup.Generated inputs overrides files) :
    setup.Settled files ↔
      (∀ line ∈ symbolsHeader setup.sectionName setup.romOffset setup.bounds,
        SoundLine setup.rom line) ∧
      ∀ fn ∈ emitted setup.bounds inputs overrides,
        SoundLine setup.rom (functionLine fn) := by
  have listed : setup.Settled files ↔
      ∀ fn ∈ symbolsFunctions (writeSymbols setup.sectionName setup.romOffset setup.bounds
        (emitted setup.bounds inputs overrides)), endsInBranch setup.rom fn = some false := by
    rw [← fixes_eq_nil_iff]
    constructor
    · intro ⟨symbols, isSymbols, nothing⟩
      rw [generated.symbols] at isSymbols
      cases isSymbols
      exact nothing
    · intro nothing
      exact ⟨_, generated.symbols, nothing⟩
  rw [listed]
  exact forall_symbolsFunctions_iff

section Read

variable {sizes : Option Text}
  (read : readInputs ⟨setup.drops, setup.merges, sizes, setup.renames, setup.adds⟩ setup.raw =
    .ok inputs)
  (nonempty : (collect setup.bounds inputs).isEmpty = false)

include read nonempty

/-- Only the sizes differ from what the first generation read. -/
theorem run_generate (merges : files.merges = setup.merges)
    (loaded : loadSizes files.sizes = .ok overrides) :
    files.run setup.generate = { files with
      symbols := some (writeSymbols setup.sectionName setup.romOffset setup.bounds
        (emitted setup.bounds inputs overrides)) } := by
  obtain ⟨drops, mergesRead, dropsOk, mergesOk, isDrops, _, renamesOk, addsOk, functionsOk⟩ :=
    readInputs_eq_ok read
  have reread : readInputs
      ⟨setup.drops, files.merges, files.sizes, setup.renames, setup.adds⟩ setup.raw =
        .ok { inputs with sizeOverrides := overrides } := by
    unfold readInputs
    simp only [merges, dropsOk, mergesOk, loaded, renamesOk, addsOk, functionsOk]
    rw [isDrops]
    rfl
  have generates : genSymbolsToml setup.bounds
      ⟨setup.drops, files.merges, files.sizes, setup.renames, setup.adds⟩ setup.raw =
        .ok (emitted setup.bounds inputs overrides) := by
    rw [genSymbolsToml_of_read reread, emit]
    show (if (collect setup.bounds inputs).isEmpty then _ else _) = _
    rw [nonempty]
    rfl
  simp only [generate, ToolFiles.run, generates]

theorem generated_generate (merges : files.merges = setup.merges)
    (loaded : loadSizes files.sizes = .ok overrides) :
    setup.Generated inputs overrides (files.run setup.generate) := by
  rw [run_generate read nonempty merges loaded]
  exact ⟨loaded, merges, rfl⟩

theorem generated_start : setup.Generated inputs inputs.sizeOverrides (setup.start sizes) := by
  obtain ⟨_, _, _, _, _, sizesOk, _⟩ := readInputs_eq_ok read
  exact generated_generate read nonempty rfl sizesOk

/-- A round whose fixer runs through. -/
theorem Generated.round (generated : setup.Generated inputs overrides files)
    {fixed : List (Int × Int)}
    (found : fixes setup.rom (writeSymbols setup.sectionName setup.romOffset setup.bounds
      (emitted setup.bounds inputs overrides)) = some fixed) :
    setup.Generated inputs (Dict.writes overrides fixed) (setup.round files) := by
  have ran : files.run (.fixTruncated setup.rom) =
      { files with sizes := appendFixes files.sizes fixed } := by
    simp only [ToolFiles.run, generated.symbols, Option.bind_some, found]
  unfold RepairSetup.round
  rw [ran]
  exact generated_generate read nonempty generated.merges
    (loadSizes_appendFixes generated.sizes (nonneg_of_fixes found))

/-- A round whose fixer stops at a word it cannot unpack. -/
theorem Generated.round_of_unreadable (generated : setup.Generated inputs overrides files)
    (unreadable : fixes setup.rom (writeSymbols setup.sectionName setup.romOffset setup.bounds
      (emitted setup.bounds inputs overrides)) = none) :
    setup.Generated inputs overrides (setup.round files) := by
  have ran : files.run (.fixTruncated setup.rom) = files := by
    simp only [ToolFiles.run, generated.symbols, Option.bind_some, unreadable]
  unfold RepairSetup.round
  rw [ran]
  exact generated_generate read nonempty generated.merges generated.sizes

/-- Where the rounds end, a further one changes no file. -/
theorem Generated.round_of_settled (generated : setup.Generated inputs overrides files)
    (settled : setup.Settled files) : setup.round files = files := by
  have ran : files.run (.fixTruncated setup.rom) = files := by
    obtain ⟨symbols, isSymbols, nothing⟩ := settled
    simp only [ToolFiles.run, isSymbols, Option.bind_some, nothing]
    rw [← isSymbols]
    rfl
  unfold RepairSetup.round
  rw [ran, run_generate read nonempty generated.merges generated.sizes, ← generated.symbols]

/-- Every round leaves a generation. -/
theorem exists_generated (rounds : Nat) : ∃ overrides,
    setup.Generated inputs overrides (setup.round^[rounds] (setup.start sizes)) := by
  induction rounds with
  | zero => exact ⟨_, generated_start read nonempty⟩
  | succ rounds inductionHypothesis =>
      obtain ⟨overrides, generated⟩ := inductionHypothesis
      rw [Function.iterate_succ_apply']
      cases found : fixes setup.rom (writeSymbols setup.sectionName setup.romOffset setup.bounds
          (emitted setup.bounds inputs overrides)) with
      | none => exact ⟨_, generated.round_of_unreadable read nonempty found⟩
      | some fixed => exact ⟨_, generated.round read nonempty found⟩

/-- Where the fixer stops at first, it stops in every round. -/
theorem generated_of_unreadable
    (unreadable : fixes setup.rom (writeSymbols setup.sectionName setup.romOffset setup.bounds
      (emitted setup.bounds inputs inputs.sizeOverrides)) = none) (rounds : Nat) :
    setup.Generated inputs inputs.sizeOverrides
      (setup.round^[rounds] (setup.start sizes)) := by
  induction rounds with
  | zero => exact generated_start read nonempty
  | succ rounds inductionHypothesis =>
      rw [Function.iterate_succ_apply']
      exact inductionHypothesis.round_of_unreadable read nonempty unreadable

/-- With nothing else truncated, the rounds of the tools are rounds of growth. -/
theorem exists_generated_growAll
    (header : ∀ line ∈ symbolsHeader setup.sectionName setup.romOffset setup.bounds,
      SoundLine setup.rom line)
    (steady : Steady setup.rom (emitted setup.bounds inputs inputs.sizeOverrides))
    (rounds : Nat) : ∃ overrides,
      setup.Generated inputs overrides (setup.round^[rounds] (setup.start sizes)) ∧
        emitted setup.bounds inputs overrides =
          (growAll setup.rom setup.bounds)^[rounds]
            (emitted setup.bounds inputs inputs.sizeOverrides) := by
  induction rounds with
  | zero => exact ⟨_, generated_start read nonempty, rfl⟩
  | succ rounds inductionHypothesis =>
      obtain ⟨overrides, generated, grown⟩ := inductionHypothesis
      have steadyHere : Steady setup.rom (emitted setup.bounds inputs overrides) := by
        rw [grown]
        exact steady.iterate rounds
      have found := fixes_writeSymbols header steadyHere
      have next := generated.round read nonempty found
      have nextGrown := emitted_writes_roundSizes (readInputs_wellFormed read) steadyHere
      rw [Function.iterate_succ_apply', Function.iterate_succ_apply', ← grown]
      exact ⟨_, next, nextGrown⟩

omit nonempty in
theorem steady_of_repairable
    (repairable : setup.Repairable (emitted setup.bounds inputs inputs.sizeOverrides)) :
    Steady setup.rom (emitted setup.bounds inputs inputs.sizeOverrides) := by
  have word : ∀ fn ∈ emitted setup.bounds inputs inputs.sizeOverrides,
      fn.vram % 4 = 0 ∧ 4 ≤ fn.size ∧ fn.size % 4 = 0 :=
    fun fn member => emitted_word (readInputs_wellFormed read) member
  refine ⟨emitted_increasing _, fun fn member => (word fn member).1,
    fun fn member => (word fn member).2, fun fn member => ?_, repairable.readable⟩
  obtain ⟨earlier, later, split⟩ := List.append_of_mem member
  obtain ⟨size, grows, sound⟩ := repairable.sound earlier fn later split
  have positive := (word fn member).2.1
  refine othersSound_of_sound ?_ sound
  unfold GrowsTo at grows
  omega

/-- What settles was readable, with nothing truncated besides its functions. -/
theorem steady_of_settled {rounds : Nat}
    (settled : setup.Settled (setup.round^[rounds] (setup.start sizes))) :
    (∀ line ∈ symbolsHeader setup.sectionName setup.romOffset setup.bounds,
      SoundLine setup.rom line) ∧
    Steady setup.rom (emitted setup.bounds inputs inputs.sizeOverrides) := by
  have word : ∀ fn ∈ emitted setup.bounds inputs inputs.sizeOverrides,
      fn.vram % 4 = 0 ∧ 4 ≤ fn.size ∧ fn.size % 4 = 0 :=
    fun fn member => emitted_word (readInputs_wellFormed read) member
  obtain ⟨overrides, generated⟩ := exists_generated read nonempty rounds
  obtain ⟨header, sound⟩ := generated.settled_iff.mp settled
  refine ⟨header, emitted_increasing _, fun fn member => (word fn member).1,
    fun fn member => (word fn member).2, fun fn member => ?_, fun fn member => ?_⟩
  · obtain ⟨same, inOther, nameSame, vramSame⟩ := exists_of_mem_emitted overrides member
    rw [← nameSame, ← vramSame]
    have positive := (emitted_word (readInputs_wellFormed read) inOther).2.1
    exact othersSound_of_sound (by omega) (sound same inOther)
  · cases found : fixes setup.rom (writeSymbols setup.sectionName setup.romOffset setup.bounds
        (emitted setup.bounds inputs inputs.sizeOverrides)) with
    | none =>
        -- The same files again in every round, so the fixer never runs through.
        have stuck := generated_of_unreadable read nonempty found rounds
        obtain ⟨symbols, isSymbols, nothing⟩ := settled
        rw [stuck.symbols] at isSymbols
        cases isSymbols
        rw [found] at nothing
        cases nothing
    | some fixed =>
        obtain ⟨readable, _⟩ := fixes_eq_some_iff.mp found
        exact (forall_symbolsFunctions_iff.mp readable).2 fn member

theorem settles_iff_repairable :
    (∃ rounds, setup.Settled (setup.round^[rounds] (setup.start sizes))) ↔
      setup.Repairable (emitted setup.bounds inputs inputs.sizeOverrides) := by
  constructor
  · intro ⟨rounds, settled⟩
    obtain ⟨header, steady⟩ := steady_of_settled read nonempty settled
    obtain ⟨overrides, generated, grown⟩ :=
      exists_generated_growAll read nonempty header steady rounds
    have sound := (generated.settled_iff.mp settled).2
    rw [grown] at sound
    exact ⟨header, steady.readable, (exists_sound_growAll_iff _).mp ⟨rounds, sound⟩⟩
  · intro repairable
    have steady := steady_of_repairable read repairable
    obtain ⟨rounds, sound⟩ := (exists_sound_growAll_iff _).mpr repairable.sound
    obtain ⟨overrides, generated, grown⟩ :=
      exists_generated_growAll read nonempty repairable.header steady rounds
    refine ⟨rounds, generated.settled_iff.mpr ⟨repairable.header, ?_⟩⟩
    rw [grown]
    exact sound

end Read

end Files

/-- Without a first generation there is nothing for the fixer to read, now and later. -/
theorem not_settled_of_error {setup : RepairSetup} {sizes : Option Text} {error : ToolError}
    (failed : genSymbolsToml setup.bounds
      ⟨setup.drops, setup.merges, sizes, setup.renames, setup.adds⟩ setup.raw = .error error)
    (rounds : Nat) : ¬ setup.Settled (setup.round^[rounds] (setup.start sizes)) := by
  have started : setup.start sizes = ⟨sizes, setup.merges, none⟩ := by
    simp only [start, generate, ToolFiles.run, failed]
  have stays : setup.round (setup.start sizes) = setup.start sizes := by
    rw [started]
    simp only [round, generate, ToolFiles.run, Option.bind_none, failed]
  rw [Function.iterate_fixed stays, started]
  rintro ⟨symbols, isSymbols, _⟩
  cases isSymbols

/-- The rounds of the two tools end at a `symbols.toml` without a truncated function where
a first generation runs through and its functions can all be repaired, and only there. -/
theorem settles_iff (setup : RepairSetup) (sizes : Option Text) :
    (∃ rounds, setup.Settled (setup.round^[rounds] (setup.start sizes))) ↔
      ∃ funcs, genSymbolsToml setup.bounds
          ⟨setup.drops, setup.merges, sizes, setup.renames, setup.adds⟩ setup.raw = .ok funcs ∧
        setup.Repairable funcs := by
  cases generates : genSymbolsToml setup.bounds
      ⟨setup.drops, setup.merges, sizes, setup.renames, setup.adds⟩ setup.raw with
  | error error =>
      refine iff_of_false ?_ ?_
      · intro ⟨rounds, settled⟩
        exact not_settled_of_error generates rounds settled
      · intro ⟨funcs, impossible, _⟩
        cases impossible
  | ok funcs =>
      obtain ⟨inputs, read, emits⟩ := Outcome.bind_eq_ok generates
      have kept : (collect setup.bounds inputs).isEmpty = false ∧
          funcs = emitted setup.bounds inputs inputs.sizeOverrides := by
        unfold emit at emits
        simp only at emits
        split at emits
        next => cases emits
        next nonempty =>
          cases emits
          exact ⟨by simpa using nonempty, rfl⟩
      obtain ⟨nonempty, rfl⟩ := kept
      rw [settles_iff_repairable read nonempty]
      constructor
      · intro repairable
        exact ⟨_, rfl, repairable⟩
      · intro ⟨others, same, repairable⟩
        cases same
        exact repairable

/-- The first function, which ends in `jr $ra`, fills the room before the second. -/
def clamped : RepairSetup where
  rom := List.replicate 0x1004 0 ++ [0x03, 0xE0, 0x00, 0x08]
  sectionName := "resident".toList
  romOffset := 0x1000
  bounds := ⟨0x80000400, 0x100⟩
  drops := none
  merges := none
  renames := none
  adds := none
  raw := [⟨"first".toList, .int 0x80000400, some (.int 8)⟩,
    ⟨"second".toList, .int 0x80000408, some (.int 8)⟩]

/-- The delay slot of a function that ends where the next one starts is never added. -/
theorem not_always_settles : ¬ ∀ (setup : RepairSetup) (sizes : Option Text),
    ∃ rounds, setup.Settled (setup.round^[rounds] (setup.start sizes)) := by
  intro always
  have repairable := (settles_iff_repairable
    (show readInputs ⟨clamped.drops, clamped.merges, none, clamped.renames, clamped.adds⟩
        clamped.raw =
      .ok ⟨[], [], [], [], [⟨"first".toList, 0x80000400, 8⟩, ⟨"second".toList, 0x80000408, 8⟩]⟩
      from rfl) (by decide +kernel)).mp (always clamped none)
  obtain ⟨size, grows, sound⟩ := repairable.sound [] ⟨"first".toList, 0x80000400, 8⟩
    [⟨"second".toList, 0x80000408, 8⟩] (by decide +kernel)
  have same : size = 8 := by
    have limit : nextVram clamped.bounds [⟨"second".toList, 0x80000408, 8⟩] - 0x80000400 = 8 :=
      by decide
    unfold GrowsTo at grows
    simp only [limit] at grows
    omega
  subst same
  revert sound
  decide +kernel

end RepairSetup

end StadiumRecomp.Symbols
