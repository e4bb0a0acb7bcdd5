import StadiumRecomp.Lib.Search
import StadiumRecomp.Symbols.Generate

/-!
Contract: `tools/derive_boundary_merges.py`, from a recompiler log to the
merges and sizes files it rewrites.

Owns: the warning patterns, `is_jal_target`, the existing-file reader, the
repair loop and both written files.

Does not own: how `gen_symbols_toml` uses the files.
-/

set_option autoImplicit false

namespace StadiumRecomp.Symbols

open StadiumRecomp.Lib
open StadiumRecomp.Lib.PyInt
open StadiumRecomp.Lib.PyText

/-! ## Logged pairs -/

/-- `[0-9A-Fa-f]+` at the front of the text. -/
def hexRun (text : Text) : Option (Text × Text) :=
  let run := text.takeWhile isHexDigit
  if run.isEmpty then none else some (run, text.dropWhile isHexDigit)

/-- `Function FUN_<hex> is branching outside of the function (to 0x<hex>)`. -/
def matchOutside (text : Text) : Option (Text × Text) := do
  let text ← Search.dropPrefix? "Function FUN_".toList text
  let (start, text) ← hexRun text
  let text ← Search.dropPrefix?
    " is branching outside of the function (to 0x".toList text
  let (target, text) ← hexRun text
  let _ ← Search.dropPrefix? ")".toList text
  return (start, target)

/-- `Unhandled branch in FUN_<hex> at 0x<hex> to 0x<hex>`. -/
def matchUnhandled (text : Text) : Option (Text × Text) := do
  let text ← Search.dropPrefix? "Unhandled branch in FUN_".toList text
  let (start, text) ← hexRun text
  let text ← Search.dropPrefix? " at 0x".toList text
  let (_, text) ← hexRun text
  let text ← Search.dropPrefix? " to 0x".toList text
  let (target, _) ← hexRun text
  return (start, target)

/-- `pair_re.search(line)`, as the two addresses. -/
def pairOfLine (line : Text) : Option (Int × Int) := do
  let (_, start, target) ← Search.firstMatch
    (fun text => (matchOutside text).or (matchUnhandled text)) line
  let start ← int16 start
  let target ← int16 target
  return (start, target)

/-- `pairs`: (branching function start, branch target), in log order. -/
def loggedPairs (log : Text) : List (Int × Int) :=
  (fileLines log).filterMap pairOfLine

/-! ## Inputs of the repair loop -/

/-- The big-endian bytes of a `jal` to `vram`. -/
def jalBytes (vram : Int) : List UInt8 :=
  let word := 0x0C000000 + (vram % 0x10000000).toNat / 4
  [UInt8.ofNat (word / 0x1000000), UInt8.ofNat (word / 0x10000),
    UInt8.ofNat (word / 0x100), UInt8.ofNat word]

/-- `is_jal_target`: the word occurs anywhere in the image. -/
def isJalTarget (resident : List UInt8) (vram : Int) : Bool :=
  (Search.indexOf? (jalBytes vram) resident).isSome

/-- A vram used as an integer without `parse_int`. -/
def JsonInt.asInt : JsonInt → Run Int
  | .int value => .ok value
  | .str _ => .error .typeError

def JsonInt.isStr : JsonInt → Bool
  | .int _ => false
  | .str _ => true

/-- `sorted(...)` of a set of integers. -/
def sortedInts (values : List Int) : List Int :=
  values.insertionSort (· ≤ ·)

/-- `entry_vrams`. String vrams cannot be compared with the logged addresses. -/
def entryVrams (vrams : List JsonInt) (pairs : List (Int × Int)) : Run (List Int) :=
  match vrams.mapM JsonInt.asInt with
  | .ok values => .ok (sortedInts values.dedup)
  | .error error =>
      if pairs.isEmpty && vrams.all JsonInt.isStr then .ok [] else .error error

/-- What accumulates across passes. -/
structure Repair where
  merges : List Int
  kept : List Int
  needSize : Dict Int Int

/-- One line of an existing sizes file. -/
def loadNeedLine (needSize : Dict Int Int) (line : Text) : Run (Dict Int Int) :=
  match Text.words pySpace line with
  | [vram, size] => do
      let size ← orValueError (int16 size)
      let vram ← orValueError (int16 vram)
      return needSize.set vram (max ((needSize.get? vram).getD 0) size)
  | _ => .error .valueError

/-- `load_existing`, the merges file. -/
def loadExistingMerges : Option Text → Run (List Int)
  | none => .ok []
  | some file => (dataLines file).mapM fun line => orValueError (int16 line)

/-- `load_existing`, the sizes file. -/
def loadExistingSizes : Option Text → Run (Dict Int Int)
  | none => .ok []
  | some file => (dataLines file).foldlM loadNeedLine []

/-- `load_existing`. -/
def loadExisting (merges sizes : Option Text) : Run Repair := do
  let merges ← loadExistingMerges merges
  let needSize ← loadExistingSizes sizes
  return ⟨merges.dedup, [], needSize⟩

/-! ## The repair loop -/

/-- Sort one fragment entry into `merges` or `kept`. -/
def absorb (resident : List UInt8) (repair : Repair) (vram : Int) : Repair :=
  if isJalTarget resident vram then
    { repair with kept := repair.kept.insert vram }
  else
    { repair with merges := repair.merges.insert vram }

/-- One logged pair. -/
def repairPair (resident : List UInt8) (entries : List Int) (repair : Repair)
    (pair : Int × Int) : Repair :=
  let lo := Search.bisectRight entries pair.1
  let hi := Search.bisectRight entries pair.2
  let repair := ((entries.take hi).drop lo).foldl (absorb resident) repair
  let required := (pair.2 - pair.1) + 4
  if required > (repair.needSize.get? pair.1).getD 0 then
    { repair with needSize := repair.needSize.set pair.1 required }
  else repair

/-! ## Written files -/

def mergesHeader : List Text :=
  ["# function_merges.txt — over-split fragments to remove so the".toList,
    "# predecessor absorbs them. Auto-derived by".toList,
    "# tools/derive_boundary_merges.py from _recomp.log.".toList]

def sizesHeader : List Text :=
  ["# function_sizes.txt — minimum byte size for functions Ghidra".toList,
    "# under-sized (branch target fell outside). 'vram size' per line.".toList,
    "# Auto-derived by tools/derive_boundary_merges.py.".toList]

def writeMerges (merges : List Int) : Text :=
  Text.unlines '\n' (mergesHeader ++ (sortedInts merges).map fmtHex08)

/-- One `vram size` line. -/
def sizeLine (needSize : Dict Int Int) (vram : Int) : Text :=
  fmtHex08 vram ++ ' ' :: fmtHex ((needSize.get? vram).getD 0)

def writeSizes (needSize : Dict Int Int) : Text :=
  Text.unlines '\n' (sizesHeader ++
    (sortedInts (needSize.map Prod.fst)).map (sizeLine needSize))

/-- `derive_boundary_merges.py`: the new merges and sizes files. -/
def deriveBoundaryMerges (log : Text) (resident : List UInt8)
    (vrams : List JsonInt) (merges sizes : Option Text) : Run (Text × Text) := do
  let pairs := loggedPairs log
  let entries ← entryVrams vrams pairs
  let existing ← loadExisting merges sizes
  let repair := pairs.foldl (repairPair resident entries) existing
  return (writeMerges repair.merges, writeSizes repair.needSize)

end StadiumRecomp.Symbols
