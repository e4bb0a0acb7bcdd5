import StadiumRecomp.Mips.GapSeed
import StadiumRecomp.Symbols.Boundary

/-!
Contract: `tools/scan_missing_funcs.py`, from its three files to the addresses it finds.

Owns: the patterns over `symbols.toml`, `is_covered`, the scan with what it has found, and that
the scan finds the prologues outside every known function that the adds do not list.

Does not own: the adds file and what is appended to it.
-/

set_option autoImplicit false

namespace StadiumRecomp.Symbols

open StadiumRecomp.Lib
open StadiumRecomp.Lib.PyInt
open StadiumRecomp.Lib.PyText

/-! ## `symbols.toml` -/

/-- `key\s*=\s*`, with what follows. -/
def assignment (key text : Text) : Option Text := do
  let text ← Search.dropPrefix? key text
  let text ← Search.dropPrefix? ['='] (text.dropWhile pySpace)
  return text.dropWhile pySpace

/-- The value that `^key\s*=\s*(\S+)` takes at the start of a line. -/
def assignedValue (key text : Text) : Option Text := do
  let text ← assignment key text
  let value := text.takeWhile fun symbol => !pySpace symbol
  if value.isEmpty then none else some value

/-- `re.search(r"^key\s*=\s*(\S+)", text, re.M).group(1)`; a line starts behind a line feed. -/
def searchAssigned (key text : Text) : Option Text :=
  (Search.firstMatch
    (fun text => (Search.dropPrefix? ['\n'] text).bind (assignedValue key))
    ('\n' :: text)).map Prod.snd

/-- `key\s*=\s*(0x[0-9a-fA-F]+)`, with what follows. -/
def hexField (key text : Text) : Option (Text × Text) := do
  let text ← assignment key text
  let text ← Search.dropPrefix? ['0', 'x'] text
  let (digits, text) ← hexRun text
  return ('0' :: 'x' :: digits, text)

/-- `vram\s*=\s*(0x[0-9a-fA-F]+),\s*size\s*=\s*(0x[0-9a-fA-F]+)`. -/
def matchEntry (text : Text) : Option ((Text × Text) × Text) := do
  let (vram, text) ← hexField "vram".toList text
  let text ← Search.dropPrefix? [','] text
  let (size, text) ← hexField "size".toList (text.dropWhile pySpace)
  return ((vram, size), text)

/-- What the scan reads of `symbols.toml`: the section, and `funcs` sorted as pairs. -/
structure Layout where
  rom : Int
  bounds : Section
  funcs : List (Int × Int)
deriving DecidableEq, Repr

def entryOfMatch (found : Text × Text) : Option (Int × Int) := do
  let vram ← int0 found.1
  let size ← int0 found.2
  return (vram, size)

def sortPairs (pairs : List (Int × Int)) : List (Int × Int) :=
  pairs.insertionSort fun left right =>
    left.1 < right.1 ∨ (left.1 = right.1 ∧ left.2 ≤ right.2)

/-- The reading of `symbols.toml`; no result is an exception. -/
def readSymbols (symbols : Text) : Option Layout := do
  let text := universalNewlines symbols
  let rom ← (searchAssigned "rom".toList text).bind int0
  let vram ← (searchAssigned "vram".toList text).bind int0
  let size ← (searchAssigned "size".toList text).bind int0
  let funcs ← (Search.findAll matchEntry 0 text).mapM entryOfMatch
  return ⟨rom, ⟨vram, size⟩, sortPairs funcs⟩

/-! ## The scan -/

/-- `is_covered`, over the intervals in their order. -/
def isCovered (vram : Int) : List (Int × Int) → Bool
  | [] => false
  | (lo, hi) :: rest =>
      if lo ≤ vram ∧ vram < hi then true
      else if lo > vram then false
      else isCovered vram rest

namespace Layout

variable (layout : Layout) (rom : List UInt8) (window : Int)

/-- `covered`. -/
def covered : List (Int × Int) := layout.funcs.map fun fn => (fn.1, fn.1 + fn.2)

/-- `known`. -/
def known : List Int := layout.funcs.map Prod.fst

/-- The ROM behind `word`. -/
def setup : Mips.Setup := ⟨rom, layout.rom, layout.bounds, layout.bounds.lo, []⟩

/-- `addiu $sp,$sp,-N`, and `sw $ra` before any `jr $ra` within the window. -/
def isPrologue (vram : Int) : Bool :=
  Mips.opensFrame ((layout.setup rom).word vram) &&
    (layout.setup rom).savesReturnWithin window.toNat (vram + 4)

/-- The loop over `vram`. -/
def scanFrom (existing found : List Int) (vram : Int) : List Int :=
  if vram < layout.bounds.hi then
    if isCovered vram layout.covered ∨ vram ∈ layout.known ∨ vram ∈ existing ∨ vram ∈ found then
      scanFrom existing found (vram + 4)
    else if layout.isPrologue rom window vram then
      scanFrom existing (found ++ [vram]) (vram + 4)
    else scanFrom existing found (vram + 4)
  else found
termination_by (layout.bounds.hi - vram).toNat

/-- `found`, with the adds of the file. -/
def found (existing : List Int) : List Int :=
  layout.scanFrom rom window existing [] layout.bounds.lo

/-! ## What the scan finds -/

/-- A prologue outside every known function. -/
def Missing (vram : Int) : Prop :=
  isCovered vram layout.covered = false ∧ vram ∉ layout.known ∧
    layout.isPrologue rom window vram = true

instance (vram : Int) : Decidable (layout.Missing rom window vram) :=
  inferInstanceAs (Decidable (_ ∧ _ ∧ _))

/-- The addresses of the walk at which a prologue is missing. -/
def missingFrom (vram : Int) : List Int :=
  if vram < layout.bounds.hi then
    if layout.Missing rom window vram then vram :: missingFrom (vram + 4)
    else missingFrom (vram + 4)
  else []
termination_by (layout.bounds.hi - vram).toNat

/-- All that the scan of these files can find. -/
def missing : List Int := layout.missingFrom rom window layout.bounds.lo

variable {layout rom window}

theorem missingFrom_cons {start : Int} (inside : start < layout.bounds.hi)
    (missing : layout.Missing rom window start) :
    layout.missingFrom rom window start = start :: layout.missingFrom rom window (start + 4) := by
  conv_lhs => rw [missingFrom, if_pos inside, if_pos missing]

theorem missingFrom_skip {start : Int} (inside : start < layout.bounds.hi)
    (present : ¬ layout.Missing rom window start) :
    layout.missingFrom rom window start = layout.missingFrom rom window (start + 4) := by
  conv_lhs => rw [missingFrom, if_pos inside, if_neg present]

theorem mem_missingFrom {start vram : Int} :
    vram ∈ layout.missingFrom rom window start ↔
      start ≤ vram ∧ vram < layout.bounds.hi ∧ (vram - start) % 4 = 0 ∧
        layout.Missing rom window vram := by
  fun_induction layout.missingFrom rom window start with
  | case1 start inside missing inductionHypothesis =>
      rw [List.mem_cons, inductionHypothesis]
      constructor
      · rintro (rfl | ⟨later, below, aligned, here⟩)
        · exact ⟨Int.le_refl _, inside, by omega, missing⟩
        · exact ⟨by omega, below, by omega, here⟩
      · rintro ⟨later, below, aligned, here⟩
        by_cases first : vram = start
        · exact Or.inl first
        · exact Or.inr ⟨by omega, below, by omega, here⟩
  | case2 start inside listed inductionHypothesis =>
      rw [inductionHypothesis]
      constructor
      · rintro ⟨later, below, aligned, here⟩
        exact ⟨by omega, below, by omega, here⟩
      · rintro ⟨later, below, aligned, here⟩
        have other : vram ≠ start := fun same => listed (same ▸ here)
        exact ⟨by omega, below, by omega, here⟩
  | case3 start outside =>
      constructor
      · exact fun none => absurd none List.not_mem_nil
      · exact fun ⟨later, below, _⟩ => absurd (Int.lt_of_le_of_lt later below) outside

theorem missingFrom_increasing (start : Int) :
    (layout.missingFrom rom window start).Pairwise (· < ·) := by
  fun_induction layout.missingFrom rom window start with
  | case1 start inside missing inductionHypothesis =>
      refine List.Pairwise.cons (fun vram later => ?_) inductionHypothesis
      have bound := (mem_missingFrom.mp later).1
      omega
  | case2 start inside listed inductionHypothesis => exact inductionHypothesis
  | case3 start outside => exact List.Pairwise.nil

/-- The scan adds to what it has found the missing prologues ahead that are not listed. -/
theorem scanFrom_eq (existing : List Int) {found : List Int} {start : Int}
    (before : ∀ vram ∈ found, vram < start) :
    layout.scanFrom rom window existing found start =
      found ++ (layout.missingFrom rom window start).filter (· ∉ existing) := by
  fun_induction layout.scanFrom rom window existing found start with
  | case1 found start inside skipped inductionHypothesis =>
      have ahead := inductionHypothesis fun vram member =>
        Int.lt_trans (before vram member) (by omega)
      rw [ahead]
      by_cases missing : layout.Missing rom window start
      · have ⟨open', unknown, _⟩ := missing
        have listed : start ∈ existing := by
          rcases skipped with covered | known | listed | again
          · exact absurd covered (Bool.eq_false_iff.mp open')
          · exact absurd known unknown
          · exact listed
          · exact absurd (before start again) (Int.lt_irrefl start)
        rw [missingFrom_cons inside missing, List.filter_cons_of_neg (by simpa using listed)]
      · rw [missingFrom_skip inside missing]
  | case2 found start inside fresh prologue inductionHypothesis =>
      have ahead := inductionHypothesis fun vram member => by
        rcases List.mem_append.mp member with older | newest
        · exact Int.lt_trans (before vram older) (by omega)
        · rw [List.mem_singleton.mp newest]
          omega
      rw [not_or, not_or, not_or] at fresh
      obtain ⟨open', unknown, unlisted, -⟩ := fresh
      have missing : layout.Missing rom window start :=
        ⟨Bool.eq_false_iff.mpr open', unknown, prologue⟩
      rw [ahead, missingFrom_cons inside missing,
        List.filter_cons_of_pos (by simpa using unlisted), List.append_assoc]
      rfl
  | case3 found start inside fresh plain inductionHypothesis =>
      have ahead := inductionHypothesis fun vram member =>
        Int.lt_trans (before vram member) (by omega)
      have present : ¬ layout.Missing rom window start := fun missing => plain missing.2.2
      rw [ahead, missingFrom_skip inside present]
  | case4 found start outside =>
      rw [missingFrom, if_neg outside]
      exact (List.append_nil found).symm

theorem found_eq (existing : List Int) :
    layout.found rom window existing =
      (layout.missing rom window).filter (· ∉ existing) :=
  scanFrom_eq existing fun _ member => absurd member List.not_mem_nil

end Layout

end StadiumRecomp.Symbols
