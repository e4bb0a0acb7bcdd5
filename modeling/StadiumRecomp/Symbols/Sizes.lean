import StadiumRecomp.Mips.Decoder
import StadiumRecomp.Symbols.Repair

/-!
Contract: `function_sizes.txt` over runs of the three tools that share it.

Owns: `tools/fix_truncated_delay_slots.py`, the text of `symbols.toml`, the tools as
steps on the files between them, and when the size override of an address shrinks.

Does not own: the printed reports and the reading of `functions.json` and the ROM.
-/

set_option autoImplicit false

namespace StadiumRecomp.Symbols

open StadiumRecomp.Lib
open StadiumRecomp.Lib.PyInt
open StadiumRecomp.Lib.PyText

/-! ## `symbols.toml` -/

/-- `f"{value:#x}"`. -/
def fmtAltHex (value : Int) : Text :=
  (if value < 0 then ['-'] else []) ++ '0' :: 'x' :: Nat.toDigits 16 value.natAbs

/-- One function of `symbols.toml`. -/
def functionLine (fn : Fn) : Text :=
  "    \x7b name = \"".toList ++ fn.name ++ "\", vram = ".toList ++ fmtAltHex fn.vram ++
    ", size = ".toList ++ fmtAltHex fn.size ++ " \x7d,".toList

/-- `symbols.toml` as `gen_symbols_toml` writes it. -/
def writeSymbols (sectionName : Text) (rom : Int) (bounds : Section) (funcs : List Fn) : Text :=
  Text.unlines '\n'
    (["# symbols.toml — generated by tools/gen_symbols_toml.py".toList,
        "# Do not hand-edit; re-run the generator.".toList, [], "[[section]]".toList,
        "name = \"".toList ++ sectionName ++ "\"".toList,
        "rom = ".toList ++ fmtAltHex rom, "vram = ".toList ++ fmtAltHex bounds.vram,
        "size = ".toList ++ fmtAltHex bounds.size, "functions = [".toList] ++
      funcs.map functionLine ++ ["]".toList])

/-! ## `fix_truncated_delay_slots.py` -/

open Mips in
/-- `is_delay_slot_instr`. -/
def isDelaySlotInstr (word : Nat) : Bool :=
  let op := opOf word
  if [2, 3].contains op then true
  else if [4, 5, 6, 7].contains op then true
  else if [0x14, 0x15, 0x16, 0x17].contains op then true
  else if op = 1 then [0, 1, 2, 3, 16, 17, 18, 19].contains (rtOf word)
  else if op = 0 then [8, 9].contains (functOf word)
  else if op = 0x11 then rsOf word = 8
  else false

/-- `name = "<name>", vram = 0x<hex>, size = 0x<hex>`. -/
def matchFunction (text : Text) : Option (Text × Text × Text) := do
  let text ← Search.dropPrefix? "name = \"".toList text
  let name := text.takeWhile (· ≠ '"')
  if name.isEmpty then none
  let text ← Search.dropPrefix? "\", vram = 0x".toList (text.dropWhile (· ≠ '"'))
  let (vram, text) ← hexRun text
  let text ← Search.dropPrefix? ", size = 0x".toList text
  let (size, _) ← hexRun text
  return (name, vram, size)

def functionOfLine (line : Text) : Option Fn := do
  let (_, name, vram, size) ← Search.firstMatch matchFunction line
  let vram ← int16 vram
  let size ← int16 size
  return ⟨name, vram, size⟩

/-- `funcs`: the functions of `symbols.toml`. -/
def symbolsFunctions (symbols : Text) : List Fn := (fileLines symbols).filterMap functionOfLine

/-- `struct.unpack_from('>I', rom, off)`; a negative offset counts from the end. -/
def unpackWord (rom : List UInt8) (off : Int) : Option Nat :=
  if off < 0 ∧ (-4 < off ∨ off + rom.length < 0) then none
  else
    let start := if off < 0 then off + rom.length else off
    match rom.drop start.toNat with
    | first :: second :: third :: last :: _ =>
        some (first.toNat <<< 24 ||| second.toNat <<< 16 ||| third.toNat <<< 8 ||| last.toNat)
    | _ => none

/-- Whether the last word of a function is a branch or jump, so that its delay slot lies
outside. No result when the word cannot be unpacked. -/
def endsInBranch (rom : List UInt8) (fn : Fn) : Option Bool :=
  if fn.size < 4 then some false
  else
    let off := fn.vram + fn.size - 4 - 0x80000400 + 0x1000
    if off + 4 > rom.length then some false
    else (unpackWord rom off).map isDelaySlotInstr

/-- The functions with a truncated delay slot. -/
def truncatedFunctions (rom : List UInt8) : List Fn → Option (List Fn)
  | [] => some []
  | fn :: rest => do
      let truncated ← endsInBranch rom fn
      let others ← truncatedFunctions rom rest
      return if truncated then fn :: others else others

/-- `fixes`: the addresses and sizes to append. -/
def fixes (rom : List UInt8) (symbols : Text) : Option (List (Int × Int)) := do
  let truncated ← truncatedFunctions rom (symbolsFunctions symbols)
  return truncated.map (fun fn => (fn.vram, fn.size + 4))

def fixesHeader : List Text :=
  ["# auto-extended by tools/fix_truncated_delay_slots.py: function ends with a".toList,
    "# branch/jump whose delay slot is outside the recorded size (+4 each).".toList]

/-- A `vram size` line. -/
def sizeEntry (entry : Int × Int) : Text := fmtHex08 entry.1 ++ ' ' :: fmtHex entry.2

/-- The sizes file after `fix_truncated_delay_slots.py`. -/
def appendFixes (sizes : Option Text) (fixes : List (Int × Int)) : Option Text :=
  if fixes.isEmpty then sizes
  else some (sizes.getD [] ++ Text.unlines '\n' (fixesHeader ++ fixes.map sizeEntry))

/-! ## Runs of the tools -/

/-- The files the tools leave for each other. -/
structure ToolFiles where
  sizes : Option Text
  merges : Option Text
  symbols : Option Text

/-- One run of a tool, with what else it reads. -/
inductive ToolRun where
  | deriveMerges (log : Text) (resident : List UInt8) (vrams : List JsonInt)
  | genSymbols (sectionName : Text) (rom : Int) (bounds : Section)
      (drops renames adds : Option Text) (raw : List RawFunction)
  | fixTruncated (rom : List UInt8)

/-- The files after a run. A run that fails has written nothing. -/
def ToolFiles.run (files : ToolFiles) : ToolRun → ToolFiles
  | .deriveMerges log resident vrams =>
      match deriveBoundaryMerges log resident vrams files.merges files.sizes with
      | .ok (merges, sizes) => { files with merges := some merges, sizes := some sizes }
      | .error _ => files
  | .genSymbols sectionName rom bounds drops renames adds raw =>
      match genSymbolsToml bounds ⟨drops, files.merges, files.sizes, renames, adds⟩ raw with
      | .ok funcs => { files with symbols := some (writeSymbols sectionName rom bounds funcs) }
      | .error _ => files
  | .fixTruncated rom =>
      match files.symbols.bind (fixes rom) with
      | some fixes => { files with sizes := appendFixes files.sizes fixes }
      | none => files

/-- `size_overrides.get(vram, 0)` of the next `gen_symbols_toml`. -/
def sizeOverride (sizes : Option Text) (vram : Int) : Run Int := do
  let overrides ← loadSizes sizes
  return (overrides.get? vram).getD 0

/-- The sizes file can be read before and after, and no override is smaller. -/
def OverridesGrow (before after : ToolFiles) : Prop :=
  ∀ vram, ∃ old new, sizeOverride before.sizes vram = .ok old ∧
    sizeOverride after.sizes vram = .ok new ∧ old ≤ new

/-- Where the fixer runs through, the size in `symbols.toml` of the last truncated
function at an address, with its delay slot, is at least the override in force. -/
def FixesGrow (files : ToolFiles) : ToolRun → Prop
  | .fixTruncated rom => ∀ symbols, files.symbols = some symbols →
      (∀ fn ∈ symbolsFunctions symbols, (endsInBranch rom fn).isSome) →
      ∀ vram size, Dict.lastWrite (((symbolsFunctions symbols).filter
          (fun fn => endsInBranch rom fn = some true)).map
            (fun fn => (fn.vram, fn.size))) vram = some size →
        ∀ old, sizeOverride files.sizes vram = .ok old → old ≤ size + 4
  | _ => True

/-! ## What the tools write -/

/-- A line of a sizes file. -/
inductive SizesLine where
  | comment (rest : Text)
  | entry (size : Int × Int)

def SizesLine.render : SizesLine → Text
  | .comment rest => '#' :: rest
  | .entry size => sizeEntry size

def SizesLine.entry? : SizesLine → Option (Int × Int)
  | .comment _ => none
  | .entry size => some size

/-- Comments hold no line break, numbers are not negative. -/
def SizesLine.WellFormed : SizesLine → Prop
  | .comment rest => ∀ symbol ∈ rest, symbol ≠ '\n' ∧ symbol ≠ '\r'
  | .entry size => 0 ≤ size.1 ∧ 0 ≤ size.2

/-- A sizes file with these entries, as the tools leave it. -/
def IsSizesFile (file : Option Text) (entries : List (Int × Int)) : Prop :=
  ∃ lines : List SizesLine, (∀ line ∈ lines, line.WellFormed) ∧
    entries = lines.filterMap SizesLine.entry? ∧
    (file = none ∧ lines = [] ∨ file = some (Text.unlines '\n' (lines.map SizesLine.render)))

theorem IsSizesFile.nonneg {file : Option Text} {entries : List (Int × Int)}
    (isFile : IsSizesFile file entries) : ∀ entry ∈ entries, 0 ≤ entry.1 ∧ 0 ≤ entry.2 := by
  obtain ⟨lines, wellFormed, rfl, _⟩ := isFile
  intro entry member
  obtain ⟨line, inLines, isEntry⟩ := List.mem_filterMap.mp member
  cases line with
  | comment rest => cases isEntry
  | entry size =>
      cases isEntry
      exact wellFormed _ inLines

theorem SizesLine.render_plain {line : SizesLine} (wellFormed : line.WellFormed) :
    ∀ symbol ∈ line.render, symbol ≠ '\n' ∧ symbol ≠ '\r' := by
  cases line with
  | comment rest =>
      intro symbol member
      rcases List.mem_cons.mp member with rfl | inRest
      · decide
      · exact wellFormed symbol inRest
  | entry size => exact (sizeEntry_data size.1 size.2).2.2

section Header

variable {header : List Text}

theorem wellFormed_header
    (plain : ∀ line ∈ header, ∀ symbol ∈ line, symbol ≠ '\n' ∧ symbol ≠ '\r') :
    ∀ line ∈ header.map fun line => SizesLine.comment line.tail, line.WellFormed := by
  intro line member
  obtain ⟨text, inHeader, rfl⟩ := List.mem_map.mp member
  exact fun symbol inside => plain text inHeader symbol (List.mem_of_mem_tail inside)

theorem filterMap_header (header : List Text) :
    (header.map fun line => SizesLine.comment line.tail).filterMap SizesLine.entry? = [] := by
  rw [List.filterMap_map, List.filterMap_eq_nil_iff]
  intro line _
  rfl

/-- A header of comments is rendered as it stands. -/
theorem map_render_header (comments : ∀ line ∈ header, ∃ rest, line = '#' :: rest) :
    (header.map fun line => SizesLine.comment line.tail).map SizesLine.render = header := by
  have same : header.map (SizesLine.render ∘ fun line => SizesLine.comment line.tail) =
      header.map id := by
    apply List.map_congr_left
    intro line member
    obtain ⟨rest, rfl⟩ := comments line member
    rfl
  rw [List.map_map, same, List.map_id]

end Header

theorem dataLines_render (lines : List SizesLine) (wellFormed : ∀ line ∈ lines, line.WellFormed) :
    dataLines (Text.unlines '\n' (lines.map SizesLine.render)) =
      (lines.filterMap SizesLine.entry?).map sizeEntry := by
  unfold dataLines
  rw [fileLines_unlines]
  · clear wellFormed
    induction lines with
    | nil => rfl
    | cons line lines inductionHypothesis =>
        cases line with
        | comment rest =>
            rw [List.map_cons, List.map_cons, SizesLine.render, stripComment_comment,
              List.filter_cons_of_neg (by simp), inductionHypothesis]
            rfl
        | entry size =>
            obtain ⟨_, isData, _⟩ := sizeEntry_data size.1 size.2
            have kept : (!(stripComment (sizeEntry size)).isEmpty) = true := by
              rw [sizeEntry, isData]
              simp
            rw [List.map_cons, List.map_cons, SizesLine.render, List.filter_cons, if_pos kept,
              inductionHypothesis, sizeEntry, isData]
            rfl
  · intro text member
    obtain ⟨line, inLines, rfl⟩ := List.mem_map.mp member
    exact SizesLine.render_plain (wellFormed line inLines)

theorem parseSizeLine_sizeEntry {entry : Int × Int} (nonneg : 0 ≤ entry.1 ∧ 0 ≤ entry.2) :
    parseSizeLine (sizeEntry entry) = .ok entry := by
  unfold parseSizeLine sizeEntry
  rw [words_sizeEntry]
  simp only [int0_fmtHex08_of_nonneg nonneg.1, int0_fmtHex_of_nonneg nonneg.2]
  rfl

theorem mapM_parseSizeLine {entries : List (Int × Int)}
    (nonneg : ∀ entry ∈ entries, 0 ≤ entry.1 ∧ 0 ≤ entry.2) :
    (entries.map sizeEntry).mapM parseSizeLine = .ok entries := by
  induction entries with
  | nil => rfl
  | cons entry entries inductionHypothesis =>
      rw [List.map_cons, List.mapM_cons, parseSizeLine_sizeEntry (nonneg _ List.mem_cons_self),
        inductionHypothesis (fun other member => nonneg _ (List.mem_cons_of_mem _ member))]
      rfl

/-- The larger of the size kept for an address and another one. -/
def raise (needSize : Dict Int Int) (entry : Int × Int) : Dict Int Int :=
  needSize.set entry.1 (max ((needSize.get? entry.1).getD 0) entry.2)

theorem loadNeedLine_sizeEntry {entry : Int × Int} (nonneg : 0 ≤ entry.1 ∧ 0 ≤ entry.2)
    (needSize : Dict Int Int) : loadNeedLine needSize (sizeEntry entry) =
      .ok (raise needSize entry) := by
  have vram := int16_fmtHex08 entry.1.toNat
  have size := int16_fmtHex entry.2.toNat
  rw [Int.toNat_of_nonneg nonneg.1] at vram
  rw [Int.toNat_of_nonneg nonneg.2] at size
  unfold loadNeedLine sizeEntry
  rw [words_sizeEntry]
  simp only [vram, size]
  rfl

section Files

variable {file : Option Text} {entries : List (Int × Int)}

/-- The generator keeps the last entry of an address. -/
theorem loadSizes_of_isSizesFile (isFile : IsSizesFile file entries) :
    loadSizes file = .ok (Dict.writes [] entries) := by
  have nonneg := isFile.nonneg
  obtain ⟨lines, wellFormed, rfl, ⟨rfl, rfl⟩ | rfl⟩ := isFile
  · rfl
  · unfold loadSizes
    simp only
    rw [dataLines_render lines wellFormed, mapM_parseSizeLine nonneg]
    rfl

/-- The derivation keeps the largest entry of an address. -/
theorem loadExistingSizes_of_isSizesFile (isFile : IsSizesFile file entries) :
    loadExistingSizes file = .ok (entries.foldl raise []) := by
  have nonneg := isFile.nonneg
  obtain ⟨lines, wellFormed, rfl, ⟨rfl, rfl⟩ | rfl⟩ := isFile
  · rfl
  · have loaded : ∀ (entries : List (Int × Int)) (needSize : Dict Int Int),
        (∀ entry ∈ entries, 0 ≤ entry.1 ∧ 0 ≤ entry.2) →
        (entries.map sizeEntry).foldlM loadNeedLine needSize =
          .ok (entries.foldl raise needSize) := by
      intro entries needSize nonneg
      induction entries generalizing needSize with
      | nil => rfl
      | cons entry entries inductionHypothesis =>
          rw [List.map_cons, List.foldlM_cons,
            loadNeedLine_sizeEntry (nonneg _ List.mem_cons_self)]
          exact inductionHypothesis _ (fun other member => nonneg _ (List.mem_cons_of_mem _ member))
    unfold loadExistingSizes
    simp only
    rw [dataLines_render lines wellFormed]
    exact loaded _ _ nonneg

theorem sizeOverride_of_isSizesFile (isFile : IsSizesFile file entries) (vram : Int) :
    sizeOverride file vram = .ok ((Dict.lastWrite entries vram).getD 0) := by
  unfold sizeOverride
  rw [loadSizes_of_isSizesFile isFile]
  change Except.ok _ = _
  rw [Dict.get?_writes]
  simp

end Files

/-! ## What a run does to the overrides -/

section Largest

/-- An address and a size that may be read and written. -/
def NonnegDict (needSize : Dict Int Int) : Prop := ∀ entry ∈ needSize, 0 ≤ entry.1 ∧ 0 ≤ entry.2

theorem getD_set {needSize : Dict Int Int} {vram size : Int} (other : Int)
    (larger : (needSize.get? vram).getD 0 ≤ size) :
    (needSize.get? other).getD 0 ≤ ((needSize.set vram size).get? other).getD 0 := by
  rw [Dict.get?_set]
  by_cases same : vram = other
  · rw [if_pos same, ← same]
    exact larger
  · rw [if_neg same]

theorem NonnegDict.set {needSize : Dict Int Int} (nonneg : NonnegDict needSize) {vram size : Int}
    (vramNonneg : 0 ≤ vram) (sizeNonneg : 0 ≤ size) : NonnegDict (needSize.set vram size) := by
  intro entry member
  rcases Dict.mem_set member with rfl | old
  · exact ⟨vramNonneg, sizeNonneg⟩
  · exact nonneg entry old

theorem getD_foldl_raise (entries : List (Int × Int)) (needSize : Dict Int Int) (vram : Int) :
    (needSize.get? vram).getD 0 ≤ ((entries.foldl raise needSize).get? vram).getD 0 := by
  induction entries generalizing needSize with
  | nil => exact le_rfl
  | cons entry entries inductionHypothesis =>
      exact (getD_set vram (le_max_left _ _)).trans (inductionHypothesis (raise needSize entry))

/-- The largest entry is at least the last one. -/
theorem lastWrite_le_foldl_raise {entries : List (Int × Int)} {needSize : Dict Int Int}
    {vram size : Int} (last : Dict.lastWrite entries vram = some size) :
    size ≤ ((entries.foldl raise needSize).get? vram).getD 0 := by
  induction entries generalizing needSize with
  | nil => cases last
  | cons entry entries inductionHypothesis =>
      rw [Dict.lastWrite] at last
      cases later : Dict.lastWrite entries vram with
      | some value =>
          rw [later] at last
          cases last
          exact inductionHypothesis later
      | none =>
          rw [later] at last
          simp only at last
          split at last
          next isVram =>
            cases last
            refine le_trans ?_ (getD_foldl_raise entries (raise needSize entry) vram)
            rw [raise, Dict.get?_set, if_pos isVram]
            exact le_max_right _ _
          next => cases last

theorem nonnegDict_foldl_raise {entries : List (Int × Int)} {needSize : Dict Int Int}
    (nonneg : NonnegDict needSize) (entriesNonneg : ∀ entry ∈ entries, 0 ≤ entry.1 ∧ 0 ≤ entry.2) :
    NonnegDict (entries.foldl raise needSize) := by
  induction entries generalizing needSize with
  | nil => exact nonneg
  | cons entry entries inductionHypothesis =>
      obtain ⟨vramNonneg, sizeNonneg⟩ := entriesNonneg entry List.mem_cons_self
      exact inductionHypothesis (nonneg.set vramNonneg (le_max_of_le_right sizeNonneg))
        (fun other member => entriesNonneg other (List.mem_cons_of_mem _ member))

end Largest

/-- Logged addresses are hexadecimal digits without a sign. -/
theorem nonneg_of_hexRun {text run rest : Text} (matched : hexRun text = some (run, rest))
    {value : Int} (read : int16 run = some value) : 0 ≤ value := by
  unfold hexRun at matched
  simp only at matched
  split at matched
  next => cases matched
  next =>
    cases matched
    exact nonneg_of_int16 (fun symbol member => List.mem_takeWhile_imp member) read

theorem nonneg_of_matchOutside {text start target : Text}
    (matched : matchOutside text = some (start, target)) {value : Int}
    (read : int16 start = some value) : 0 ≤ value := by
  obtain ⟨_, _, matched⟩ := Option.bind_eq_some_iff.mp matched
  obtain ⟨⟨run, rest⟩, isRun, matched⟩ := Option.bind_eq_some_iff.mp matched
  obtain ⟨_, _, matched⟩ := Option.bind_eq_some_iff.mp matched
  obtain ⟨_, _, matched⟩ := Option.bind_eq_some_iff.mp matched
  obtain ⟨_, _, matched⟩ := Option.bind_eq_some_iff.mp matched
  cases matched
  exact nonneg_of_hexRun isRun read

theorem nonneg_of_matchUnhandled {text start target : Text}
    (matched : matchUnhandled text = some (start, target)) {value : Int}
    (read : int16 start = some value) : 0 ≤ value := by
  obtain ⟨_, _, matched⟩ := Option.bind_eq_some_iff.mp matched
  obtain ⟨⟨run, rest⟩, isRun, matched⟩ := Option.bind_eq_some_iff.mp matched
  obtain ⟨_, _, matched⟩ := Option.bind_eq_some_iff.mp matched
  obtain ⟨_, _, matched⟩ := Option.bind_eq_some_iff.mp matched
  obtain ⟨_, _, matched⟩ := Option.bind_eq_some_iff.mp matched
  obtain ⟨_, _, matched⟩ := Option.bind_eq_some_iff.mp matched
  cases matched
  exact nonneg_of_hexRun isRun read

theorem nonneg_of_loggedPairs {log : Text} {pair : Int × Int} (logged : pair ∈ loggedPairs log) :
    0 ≤ pair.1 := by
  obtain ⟨line, _, isPair⟩ := List.mem_filterMap.mp logged
  obtain ⟨⟨position, start, target⟩, matched, isPair⟩ := Option.bind_eq_some_iff.mp isPair
  obtain ⟨_, startRead, isPair⟩ := Option.bind_eq_some_iff.mp isPair
  obtain ⟨_, _, isPair⟩ := Option.bind_eq_some_iff.mp isPair
  cases isPair
  obtain ⟨_, accepted, _⟩ := Search.firstMatch_eq_some_iff.mp matched
  rcases Option.or_eq_some_iff.mp accepted with outside | ⟨_, unhandled⟩
  · exact nonneg_of_matchOutside outside startRead
  · exact nonneg_of_matchUnhandled unhandled startRead

theorem nonneg_of_symbolsFunctions {symbols : Text} {fn : Fn}
    (listed : fn ∈ symbolsFunctions symbols) : 0 ≤ fn.vram ∧ 0 ≤ fn.size := by
  obtain ⟨line, _, isFn⟩ := List.mem_filterMap.mp listed
  obtain ⟨⟨position, name, vram, size⟩, matched, isFn⟩ := Option.bind_eq_some_iff.mp isFn
  obtain ⟨_, vramRead, isFn⟩ := Option.bind_eq_some_iff.mp isFn
  obtain ⟨_, sizeRead, isFn⟩ := Option.bind_eq_some_iff.mp isFn
  cases isFn
  obtain ⟨_, accepted, _⟩ := Search.firstMatch_eq_some_iff.mp matched
  obtain ⟨_, _, accepted⟩ := Option.bind_eq_some_iff.mp accepted
  simp only at accepted
  split at accepted
  next => cases accepted
  next =>
    obtain ⟨_, _, accepted⟩ := Option.bind_eq_some_iff.mp accepted
    obtain ⟨⟨vramRun, _⟩, isVram, accepted⟩ := Option.bind_eq_some_iff.mp accepted
    obtain ⟨_, _, accepted⟩ := Option.bind_eq_some_iff.mp accepted
    obtain ⟨⟨sizeRun, _⟩, isSize, accepted⟩ := Option.bind_eq_some_iff.mp accepted
    cases accepted
    exact ⟨nonneg_of_hexRun isVram vramRead, nonneg_of_hexRun isSize sizeRead⟩

/-! ## The derivation -/

/-- What the repair loop starts from only grows. -/
theorem foldl_repairPair_extends (resident : List UInt8) (entries : List Int)
    (pairs : List (Int × Int)) (repair : Repair) (vram : Int) :
    (repair.needSize.get? vram).getD 0 ≤
      ((pairs.foldl (repairPair resident entries) repair).needSize.get? vram).getD 0 := by
  induction pairs generalizing repair with
  | nil => exact le_rfl
  | cons pair pairs inductionHypothesis =>
      exact ((repairPair_extends repair pair).needSize vram).trans (inductionHypothesis _)

theorem repairPair_nonneg {resident : List UInt8} {entries : List Int} {repair : Repair}
    {pair : Int × Int} (nonneg : NonnegDict repair.needSize) (pairNonneg : 0 ≤ pair.1) :
    NonnegDict (repairPair resident entries repair pair).needSize := by
  unfold repairPair
  simp only
  split
  next larger =>
    simp only [foldl_absorb_needSize] at larger ⊢
    refine nonneg.set pairNonneg (le_trans ?_ larger.le)
    cases found : repair.needSize.get? pair.1 with
    | none => exact le_rfl
    | some size => exact (nonneg _ (Dict.mem_of_get? found)).2
  next =>
    rw [foldl_absorb_needSize]
    exact nonneg

theorem foldl_repairPair_nonneg {resident : List UInt8} {entries : List Int}
    {pairs : List (Int × Int)} {repair : Repair} (nonneg : NonnegDict repair.needSize)
    (pairsNonneg : ∀ pair ∈ pairs, 0 ≤ pair.1) :
    NonnegDict (pairs.foldl (repairPair resident entries) repair).needSize := by
  induction pairs generalizing repair with
  | nil => exact nonneg
  | cons pair pairs inductionHypothesis =>
      exact inductionHypothesis (repairPair_nonneg nonneg (pairsNonneg pair List.mem_cons_self))
        (fun other member => pairsNonneg other (List.mem_cons_of_mem _ member))

/-- The entries of a rewritten sizes file. -/
def writtenEntries (needSize : Dict Int Int) : List (Int × Int) :=
  (sortedInts (needSize.map Prod.fst)).map (fun vram => (vram, (needSize.get? vram).getD 0))

theorem lastWrite_writtenEntries (needSize : Dict Int Int) (vram : Int) :
    Dict.lastWrite (writtenEntries needSize) vram = needSize.get? vram := by
  unfold writtenEntries
  by_cases listed : vram ∈ needSize.map Prod.fst
  · obtain ⟨size, found⟩ := Option.isSome_iff_exists.mp ((Dict.isSome_get?_iff _ _).mpr listed)
    rw [Dict.lastWrite_map_of_mem _ _ (mem_sortedInts.mpr listed), found]
    rfl
  · have missing : needSize.get? vram = none := by
      rw [← Option.not_isSome_iff_eq_none, Dict.isSome_get?_iff]
      exact listed
    rw [missing, Dict.lastWrite_eq_none_iff]
    intro entry member
    obtain ⟨key, isKey, rfl⟩ := List.mem_map.mp member
    rintro rfl
    exact listed (mem_sortedInts.mp isKey)

theorem isSizesFile_writeSizes {needSize : Dict Int Int} (nonneg : NonnegDict needSize) :
    IsSizesFile (some (writeSizes needSize)) (writtenEntries needSize) := by
  refine ⟨sizesHeader.map (fun line => .comment line.tail) ++
    (writtenEntries needSize).map .entry, ?_, ?_, Or.inr ?_⟩
  · intro line member
    rcases List.mem_append.mp member with header | data
    · exact wellFormed_header (fun text isHeader => (sizesHeader_plain text isHeader).2) line header
    · obtain ⟨entry, isEntry, rfl⟩ := List.mem_map.mp data
      obtain ⟨vram, isKey, rfl⟩ := List.mem_map.mp isEntry
      obtain ⟨stored, inDict, rfl⟩ := List.mem_map.mp (mem_sortedInts.mp isKey)
      refine ⟨(nonneg stored inDict).1, ?_⟩
      cases found : needSize.get? stored.1 with
      | none => exact le_rfl
      | some size => exact (nonneg _ (Dict.mem_of_get? found)).2
  · rw [List.filterMap_append, filterMap_header, List.filterMap_map, List.nil_append]
    exact (List.filterMap_some).symm
  · have header := map_render_header fun line member => (sizesHeader_plain line member).1
    have data : (writtenEntries needSize).map (SizesLine.render ∘ SizesLine.entry) =
        (sortedInts (needSize.map Prod.fst)).map (sizeLine needSize) := by
      rw [writtenEntries, List.map_map]
      rfl
    rw [List.map_append, header, List.map_map, data]
    rfl

/-- A derivation rewrites the file with every override at least as large. -/
theorem deriveBoundaryMerges_grows {log : Text} {resident : List UInt8} {vrams : List JsonInt}
    {merges sizes : Option Text} {entries : List (Int × Int)} {newMerges newSizes : Text}
    (isFile : IsSizesFile sizes entries)
    (derived : deriveBoundaryMerges log resident vrams merges sizes = .ok (newMerges, newSizes)) :
    ∃ newEntries, IsSizesFile (some newSizes) newEntries ∧
      ∀ vram, (Dict.lastWrite entries vram).getD 0 ≤ (Dict.lastWrite newEntries vram).getD 0 := by
  obtain ⟨vramEntries, _, derived⟩ := Outcome.bind_eq_ok derived
  obtain ⟨existing, existingOk, derived⟩ := Outcome.bind_eq_ok derived
  obtain ⟨oldMerges, _, existingOk⟩ := Outcome.bind_eq_ok existingOk
  rw [loadExistingSizes_of_isSizesFile isFile] at existingOk
  cases existingOk
  cases derived
  have loaded : NonnegDict (entries.foldl raise []) :=
    nonnegDict_foldl_raise (fun entry member => by cases member) isFile.nonneg
  have repaired : NonnegDict ((loggedPairs log).foldl (repairPair resident vramEntries)
      ⟨oldMerges.dedup, [], entries.foldl raise []⟩).needSize :=
    foldl_repairPair_nonneg loaded (fun pair logged => nonneg_of_loggedPairs logged)
  refine ⟨_, isSizesFile_writeSizes repaired, ?_⟩
  intro vram
  rw [lastWrite_writtenEntries]
  refine le_trans ?_ (foldl_repairPair_extends _ _ _ _ vram)
  cases last : Dict.lastWrite entries vram with
  | some size => exact lastWrite_le_foldl_raise last
  | none => exact getD_foldl_raise entries [] vram

/-! ## The fixer -/

theorem truncatedFunctions_eq {rom : List UInt8} {funcs : List Fn}
    (readable : ∀ fn ∈ funcs, (endsInBranch rom fn).isSome) :
    truncatedFunctions rom funcs =
      some (funcs.filter (fun fn => endsInBranch rom fn = some true)) := by
  induction funcs with
  | nil => rfl
  | cons fn funcs inductionHypothesis =>
      obtain ⟨truncated, found⟩ := Option.isSome_iff_exists.mp (readable fn List.mem_cons_self)
      have others := inductionHypothesis
        (fun other member => readable other (List.mem_cons_of_mem _ member))
      rw [truncatedFunctions, found, others]
      cases truncated <;> simp [found]

theorem readable_of_truncatedFunctions {rom : List UInt8} {funcs truncated : List Fn}
    (found : truncatedFunctions rom funcs = some truncated) :
    ∀ fn ∈ funcs, (endsInBranch rom fn).isSome := by
  induction funcs generalizing truncated with
  | nil => simp
  | cons fn funcs inductionHypothesis =>
      obtain ⟨flag, isFlag, found⟩ := Option.bind_eq_some_iff.mp found
      obtain ⟨others, isOthers, _⟩ := Option.bind_eq_some_iff.mp found
      intro other member
      rcases List.mem_cons.mp member with rfl | later
      · rw [isFlag]
        rfl
      · exact inductionHypothesis isOthers other later

/-- The truncated functions of `symbols.toml`, with their addresses and sizes. -/
def truncatedSizes (rom : List UInt8) (symbols : Text) : List (Int × Int) :=
  ((symbolsFunctions symbols).filter (fun fn => endsInBranch rom fn = some true)).map
    (fun fn => (fn.vram, fn.size))

theorem fixes_eq_some_iff {rom : List UInt8} {symbols : Text} {fixed : List (Int × Int)} :
    fixes rom symbols = some fixed ↔
      (∀ fn ∈ symbolsFunctions symbols, (endsInBranch rom fn).isSome) ∧
        fixed = (truncatedSizes rom symbols).map (fun entry => (entry.1, entry.2 + 4)) := by
  have written : ∀ funcs : List Fn, (funcs.map (fun fn => (fn.vram, fn.size))).map
      (fun entry => (entry.1, entry.2 + 4)) = funcs.map (fun fn => (fn.vram, fn.size + 4)) := by
    intro funcs
    rw [List.map_map]
    rfl
  rw [truncatedSizes, written]
  constructor
  · intro found
    obtain ⟨truncated, isTruncated, same⟩ := Option.bind_eq_some_iff.mp found
    have readable := readable_of_truncatedFunctions isTruncated
    rw [truncatedFunctions_eq readable] at isTruncated
    cases isTruncated
    cases same
    exact ⟨readable, rfl⟩
  · rintro ⟨readable, rfl⟩
    unfold fixes
    rw [truncatedFunctions_eq readable]
    rfl

theorem nonneg_of_truncatedSizes (rom : List UInt8) (symbols : Text) :
    ∀ entry ∈ (truncatedSizes rom symbols).map (fun entry => (entry.1, entry.2 + 4)),
      0 ≤ entry.1 ∧ 0 ≤ entry.2 := by
  intro entry member
  obtain ⟨_, inSizes, rfl⟩ := List.mem_map.mp member
  obtain ⟨fn, isFn, rfl⟩ := List.mem_map.mp inSizes
  obtain ⟨vramNonneg, sizeNonneg⟩ := nonneg_of_symbolsFunctions (List.mem_of_mem_filter isFn)
  exact ⟨vramNonneg, Int.add_nonneg sizeNonneg (by decide)⟩

theorem nonneg_of_fixes {rom : List UInt8} {symbols : Text} {fixed : List (Int × Int)}
    (found : fixes rom symbols = some fixed) : ∀ entry ∈ fixed, 0 ≤ entry.1 ∧ 0 ≤ entry.2 := by
  obtain ⟨_, rfl⟩ := fixes_eq_some_iff.mp found
  exact nonneg_of_truncatedSizes rom symbols

/-- The fixer finds nothing where it reads through and nothing ends in a branch or jump. -/
theorem fixes_eq_nil_iff {rom : List UInt8} {symbols : Text} :
    fixes rom symbols = some [] ↔
      ∀ fn ∈ symbolsFunctions symbols, endsInBranch rom fn = some false := by
  rw [fixes_eq_some_iff]
  have nothing : [] = (truncatedSizes rom symbols).map (fun entry => (entry.1, entry.2 + 4)) ↔
      ∀ fn ∈ symbolsFunctions symbols, endsInBranch rom fn ≠ some true := by
    rw [eq_comm, List.map_eq_nil_iff, truncatedSizes, List.map_eq_nil_iff,
      List.filter_eq_nil_iff]
    simp only [decide_eq_true_eq]
  rw [nothing]
  constructor
  · intro ⟨readable, untruncated⟩ fn member
    obtain ⟨flag, isFlag⟩ := Option.isSome_iff_exists.mp (readable fn member)
    cases flag with
    | true => exact absurd isFlag (untruncated fn member)
    | false => exact isFlag
  · intro sound
    refine ⟨fun fn member => ?_, fun fn member => ?_⟩
    · rw [sound fn member]
      rfl
    · rw [sound fn member]
      decide

/-- What the fixer appends. -/
def fixesLines (fixed : List (Int × Int)) : List SizesLine :=
  fixesHeader.map (fun line => .comment line.tail) ++ fixed.map .entry

theorem fixesHeader_plain : ∀ line ∈ fixesHeader,
    (∃ rest, line = '#' :: rest) ∧ ∀ symbol ∈ line, symbol ≠ '\n' ∧ symbol ≠ '\r' :=
  isHeaderLine_plain (by decide +kernel)

section Appended

variable {fixed : List (Int × Int)}

theorem fixesLines_wellFormed (nonneg : ∀ entry ∈ fixed, 0 ≤ entry.1 ∧ 0 ≤ entry.2) :
    ∀ line ∈ fixesLines fixed, line.WellFormed := by
  intro line member
  rcases List.mem_append.mp member with isHeader | data
  · exact wellFormed_header (fun text inHeader => (fixesHeader_plain text inHeader).2) line isHeader
  · obtain ⟨entry, isEntry, rfl⟩ := List.mem_map.mp data
    exact nonneg entry isEntry

theorem filterMap_fixesLines (fixed : List (Int × Int)) :
    (fixesLines fixed).filterMap SizesLine.entry? = fixed := by
  rw [fixesLines, List.filterMap_append, filterMap_header, List.filterMap_map, List.nil_append]
  exact List.filterMap_some

theorem map_render_fixesLines (fixed : List (Int × Int)) :
    (fixesLines fixed).map SizesLine.render = fixesHeader ++ fixed.map sizeEntry := by
  have header := map_render_header fun line member => (fixesHeader_plain line member).1
  rw [fixesLines, List.map_append, header, List.map_map]
  rfl

theorem dataLines_fixes (nonneg : ∀ entry ∈ fixed, 0 ≤ entry.1 ∧ 0 ≤ entry.2) :
    dataLines (Text.unlines '\n' (fixesHeader ++ fixed.map sizeEntry)) =
      fixed.map sizeEntry := by
  rw [← map_render_fixesLines, dataLines_render _ (fixesLines_wellFormed nonneg),
    filterMap_fixesLines]

theorem isSizesFile_appendFixes {sizes : Option Text} {entries : List (Int × Int)}
    (isFile : IsSizesFile sizes entries) (nonneg : ∀ entry ∈ fixed, 0 ≤ entry.1 ∧ 0 ≤ entry.2) :
    IsSizesFile (appendFixes sizes fixed) (entries ++ fixed) := by
  unfold appendFixes
  by_cases none : fixed = []
  · rw [none, List.isEmpty_nil, if_pos rfl, List.append_nil]
    exact isFile
  obtain ⟨lines, wellFormed, rfl, written⟩ := isFile
  rw [if_neg (by simpa using none)]
  refine ⟨lines ++ fixesLines fixed, ?_, ?_, Or.inr ?_⟩
  · intro line member
    rcases List.mem_append.mp member with old | new
    · exact wellFormed line old
    · exact fixesLines_wellFormed nonneg line new
  · rw [List.filterMap_append, filterMap_fixesLines]
  · have before : sizes.getD [] = Text.unlines '\n' (lines.map SizesLine.render) := by
      rcases written with ⟨rfl, rfl⟩ | rfl
      · rfl
      · rfl
    rw [before, List.map_append, map_render_fixesLines]
    unfold Text.unlines
    rw [← List.flatMap_append]

end Appended

/-! ## Runs -/

/-- The file behind the fixer's lines. -/
theorem isSizesFile_fixes {sizes : Option Text} {entries : List (Int × Int)}
    (isFile : IsSizesFile sizes entries) (rom : List UInt8) (symbols : Text) :
    IsSizesFile (appendFixes sizes ((truncatedSizes rom symbols).map
        (fun entry => (entry.1, entry.2 + 4))))
      (entries ++ (truncatedSizes rom symbols).map (fun entry => (entry.1, entry.2 + 4))) := by
  exact isSizesFile_appendFixes isFile (nonneg_of_truncatedSizes rom symbols)

theorem overridesGrow_refl {files : ToolFiles} {entries : List (Int × Int)}
    (isFile : IsSizesFile files.sizes entries) : OverridesGrow files files := by
  intro vram
  have override := sizeOverride_of_isSizesFile isFile vram
  exact ⟨_, _, override, override, le_rfl⟩

/-- A run of the fixer shrinks an override only where it appends too small a size. -/
theorem fixTruncated_grows_iff {files : ToolFiles} {entries : List (Int × Int)}
    (isFile : IsSizesFile files.sizes entries) (rom : List UInt8) :
    (∃ newEntries, IsSizesFile (files.run (.fixTruncated rom)).sizes newEntries) ∧
      (OverridesGrow files (files.run (.fixTruncated rom)) ↔
        FixesGrow files (.fixTruncated rom)) := by
  have override := sizeOverride_of_isSizesFile isFile
  simp only [ToolFiles.run]
  cases fixing : files.symbols.bind (fixes rom) with
  | none =>
      refine ⟨⟨entries, isFile⟩, iff_of_true (overridesGrow_refl isFile) ?_⟩
      intro symbols isSymbols readable
      rw [isSymbols, Option.bind_some, fixes_eq_some_iff.mpr ⟨readable, rfl⟩] at fixing
      cases fixing
  | some fixed =>
      obtain ⟨symbols, isSymbols, found⟩ := Option.bind_eq_some_iff.mp fixing
      obtain ⟨readable, rfl⟩ := fixes_eq_some_iff.mp found
      have isNew := isSizesFile_fixes isFile rom symbols
      have newOverride := sizeOverride_of_isSizesFile isNew
      refine ⟨⟨_, isNew⟩, ?_, ?_⟩
      · intro grows others isOthers _ vram size last old isOld
        rw [isSymbols] at isOthers
        cases isOthers
        obtain ⟨old', new, oldOk, newOk, le⟩ := grows vram
        rw [oldOk] at isOld
        cases isOld
        change Dict.lastWrite (truncatedSizes rom symbols) vram = some size at last
        rw [newOverride, Dict.lastWrite_append,
          Dict.lastWrite_map_snd _ (fun size => size + 4), last] at newOk
        cases newOk
        exact le
      · intro grows vram
        refine ⟨_, _, override vram, newOverride vram, ?_⟩
        rw [Dict.lastWrite_append, Dict.lastWrite_map_snd _ (fun size => size + 4)]
        cases last : Dict.lastWrite (truncatedSizes rom symbols) vram with
        | none => exact le_rfl
        | some size => exact grows symbols isSymbols readable vram size last _ (override vram)

/-- One run keeps the sizes file in order, and shrinks an override only where the fixer
appends too small a size. -/
theorem run_grows_iff {files : ToolFiles} {entries : List (Int × Int)}
    (isFile : IsSizesFile files.sizes entries) (tool : ToolRun) :
    (∃ newEntries, IsSizesFile (files.run tool).sizes newEntries) ∧
      (OverridesGrow files (files.run tool) ↔ FixesGrow files tool) := by
  have unchanged := overridesGrow_refl isFile
  cases tool with
  | deriveMerges log resident vrams =>
      simp only [ToolFiles.run, FixesGrow, iff_true]
      cases derived : deriveBoundaryMerges log resident vrams files.merges files.sizes with
      | error => exact ⟨⟨entries, isFile⟩, unchanged⟩
      | ok written =>
          obtain ⟨newEntries, isNew, grows⟩ := deriveBoundaryMerges_grows isFile derived
          exact ⟨⟨newEntries, isNew⟩, fun vram =>
            ⟨_, _, sizeOverride_of_isSizesFile isFile vram,
              sizeOverride_of_isSizesFile isNew vram, grows vram⟩⟩
  | genSymbols sectionName rom bounds drops renames adds raw =>
      simp only [ToolFiles.run, FixesGrow, iff_true]
      cases genSymbolsToml bounds ⟨drops, files.merges, files.sizes, renames, adds⟩ raw with
      | error => exact ⟨⟨entries, isFile⟩, unchanged⟩
      | ok funcs => exact ⟨⟨entries, isFile⟩, unchanged⟩
  | fixTruncated rom => exact fixTruncated_grows_iff isFile rom

/-- Every sizes file the tools leave behind is one of theirs. -/
theorem isSizesFile_foldl_run (tools : List ToolRun) {files : ToolFiles}
    {entries : List (Int × Int)} (isFile : IsSizesFile files.sizes entries) :
    ∃ newEntries, IsSizesFile (tools.foldl ToolFiles.run files).sizes newEntries := by
  induction tools generalizing files entries with
  | nil => exact ⟨entries, isFile⟩
  | cons tool tools inductionHypothesis =>
      obtain ⟨newEntries, isNew⟩ := (run_grows_iff isFile tool).1
      exact inductionHypothesis isNew

/-- From an empty or absent sizes file, no run of a tool shrinks an override, as long as
and only as long as the fixer appends no size below the one in force. -/
theorem sizeOverrides_grow_iff {initial : ToolFiles}
    (fresh : initial.sizes = none ∨ initial.sizes = some []) (tools : List ToolRun) :
    (∀ before tool after, tools = before ++ tool :: after →
        OverridesGrow (before.foldl ToolFiles.run initial)
          ((before ++ [tool]).foldl ToolFiles.run initial)) ↔
      ∀ before tool after, tools = before ++ tool :: after →
        FixesGrow (before.foldl ToolFiles.run initial) tool := by
  have isFile : IsSizesFile initial.sizes [] := by
    refine ⟨[], by simp, rfl, ?_⟩
    rcases fresh with absent | empty
    · exact Or.inl ⟨absent, rfl⟩
    · exact Or.inr empty
  refine forall_congr' fun before => forall_congr' fun tool => forall_congr' fun after =>
    imp_congr_right fun _ => ?_
  obtain ⟨entries, reached⟩ := isSizesFile_foldl_run before isFile
  rw [List.foldl_append]
  exact (run_grows_iff reached tool).2

/-- The branch of the first function ends behind the second, which is called elsewhere. -/
def shrinkingDerivation : ToolRun :=
  .deriveMerges
    "Function FUN_80000400 is branching outside of the function (to 0x80000480)".toList
    (jalBytes 0x80000408) [.int 0x80000400, .int 0x80000408]

/-- The second function clamps the first. -/
def shrinkingGeneration : ToolRun :=
  .genSymbols "resident".toList 0x1000 ⟨0x80000400, 0x100⟩ none none none
    [⟨"first".toList, .int 0x80000400, some (.int 8)⟩,
      ⟨"second".toList, .int 0x80000408, some (.int 8)⟩]

/-- The derivation writes an override, and the generation behind it keeps it. -/
theorem sizeOverrides_grow_iff_example :
    (∀ before tool after,
      [shrinkingDerivation, shrinkingGeneration] = before ++ tool :: after →
        OverridesGrow (before.foldl ToolFiles.run ⟨none, none, none⟩)
          ((before ++ [tool]).foldl ToolFiles.run ⟨none, none, none⟩)) ∧
      sizeOverride ([shrinkingDerivation, shrinkingGeneration].foldl ToolFiles.run
        ⟨none, none, none⟩).sizes 0x80000400 = .ok 0x84 := by
  refine ⟨(sizeOverrides_grow_iff (Or.inl rfl) _).mpr fun before tool after shape => ?_,
    by decide +kernel⟩
  have member : tool ∈ [shrinkingDerivation, shrinkingGeneration] := by
    rw [shape]
    exact List.mem_append_right before List.mem_cons_self
  rcases List.mem_cons.mp member with rfl | second
  · trivial
  · rw [List.mem_singleton.mp second]
    trivial

/-! ## A shrinking override -/

/-- The clamped function ends in `jr $ra`. -/
def shrinkingFix : ToolRun :=
  .fixTruncated (List.replicate 0x1004 0 ++ [0x03, 0xE0, 0x00, 0x08])

theorem fixTruncated_shrinks :
    sizeOverride ([shrinkingDerivation, shrinkingGeneration].foldl ToolFiles.run
        ⟨none, none, none⟩).sizes 0x80000400 = .ok 0x84 ∧
      sizeOverride ([shrinkingDerivation, shrinkingGeneration, shrinkingFix].foldl ToolFiles.run
        ⟨none, none, none⟩).sizes 0x80000400 = .ok 0xC := by
  exact ⟨by decide +kernel, by decide +kernel⟩

end StadiumRecomp.Symbols
