import StadiumRecomp.Lib.Dict
import StadiumRecomp.Lib.Outcome
import StadiumRecomp.Lib.PyText
import Mathlib.Data.List.Sort
import Mathlib.Data.List.Destutter

/-!
Contract: `tools/gen_symbols_toml.py`, from its JSON and side files to the
functions it emits.

Owns: `parse_int`, the five side-file readers, the section filter, manual adds,
sort, dedup, the size rule and the emitted list.

Does not own: argument parsing and the progress messages. The TOML text of the
result is one line per emitted function in list order.
-/

set_option autoImplicit false

namespace StadiumRecomp.Symbols

open StadiumRecomp.Lib
open StadiumRecomp.Lib.PyInt
open StadiumRecomp.Lib.PyText

/-- Ways a run of the tool ends without writing its output. -/
inductive ToolError where
  | valueError
  | typeError
  | noFunctions
deriving DecidableEq, Repr

abbrev Run := Except ToolError

/-- A number in `functions.json`: a JSON integer or a string. -/
inductive JsonInt where
  | int (value : Int)
  | str (text : Text)
deriving DecidableEq, Repr

def orValueError {α : Type} : Option α → Run α
  | some value => .ok value
  | none => .error .valueError

/-- `parse_int`. -/
def parseInt : JsonInt → Run Int
  | .int value => .ok value
  | .str text => orValueError (int0 text)

/-- One entry of `functions.json`; `size` may be missing. -/
structure RawFunction where
  name : Text
  vram : JsonInt
  size : Option JsonInt
deriving DecidableEq, Repr

/-- A function record of the tool, and an entry of `symbols.toml`. -/
structure Fn where
  name : Text
  vram : Int
  size : Int
deriving DecidableEq, Repr

/-- Section bounds from the command line. -/
structure Section where
  vram : Int
  size : Int
deriving DecidableEq, Repr

def Section.lo (bounds : Section) : Int := bounds.vram
def Section.hi (bounds : Section) : Int := bounds.vram + bounds.size

/-- The five side files; `none` is a missing file. -/
structure SideFiles where
  drops : Option Text
  merges : Option Text
  sizes : Option Text
  renames : Option Text
  adds : Option Text

/-! ## Side files -/

/-- `load_addr_file`. -/
def loadAddrFile : Option Text → Run (List Int)
  | none => .ok []
  | some file => (dataLines file).mapM fun line => orValueError (int0 line)

/-- `v, s = line.split()` with both parts numbers. -/
def parseSizeLine (line : Text) : Run (Int × Int) :=
  match Text.words pySpace line with
  | [vram, size] => do
      let size ← orValueError (int0 size)
      let vram ← orValueError (int0 vram)
      return (vram, size)
  | _ => .error .valueError

/-- `size_overrides`: the last line of a vram wins. -/
def loadSizes : Option Text → Run (Dict Int Int)
  | none => .ok []
  | some file => do
      let entries ← (dataLines file).mapM parseSizeLine
      return Dict.writes [] entries

def parseRenameLine (line : Text) : Run (Int × Text) :=
  match Text.words pySpace line with
  | [vram, name] => do
      let vram ← orValueError (int0 vram)
      return (vram, name)
  | _ => .error .valueError

def loadRenames : Option Text → Run (Dict Int Text)
  | none => .ok []
  | some file => do
      let entries ← (dataLines file).mapM parseRenameLine
      return Dict.writes [] entries

/-- `f"FUN_{v:08x}"`. -/
def defaultName (vram : Int) : Text := "FUN_".toList ++ hexPadded 8 vram

/-- `parse_int(parts[1]) if len(parts) >= 2 else 0`, on `parts[1:]`. -/
def addSize : List Text → Run Int
  | [] => .ok 0
  | size :: _ => orValueError (int0 size)

/-- `parts[2] if len(parts) >= 3 else f"FUN_{v:08x}"`, on `parts[1:]`. -/
def addName (vram : Int) : List Text → Text
  | _ :: name :: _ => name
  | _ => defaultName vram

/-- `vram [size] [name]`. -/
def parseAddLine (line : Text) : Run (Int × Fn) :=
  match Text.words pySpace line with
  | [] => .error .valueError
  | vram :: rest => do
      let vram ← orValueError (int0 vram)
      let size ← addSize rest
      return (vram, ⟨addName vram rest, vram, size⟩)

/-- `adds`: the last line of a vram wins. -/
def loadAdds : Option Text → Run (Dict Int Fn)
  | none => .ok []
  | some file => do
      let entries ← (dataLines file).mapM parseAddLine
      return Dict.writes [] entries

/-! ## Assembly -/

/-- What the readers hand to the rest of `main`. -/
structure Inputs where
  /-- `drops` together with `merges`. -/
  drops : List Int
  sizeOverrides : Dict Int Int
  renames : Dict Int Text
  adds : Dict Int Fn
  functions : List Fn

def parseFunction (raw : RawFunction) : Run Fn := do
  let vram ← parseInt raw.vram
  let size ← parseInt (raw.size.getD (.int 0))
  return ⟨raw.name, vram, size⟩

def readInputs (files : SideFiles) (raw : List RawFunction) : Run Inputs := do
  let drops ← loadAddrFile files.drops
  let merges ← loadAddrFile files.merges
  let sizeOverrides ← loadSizes files.sizes
  let renames ← loadRenames files.renames
  let adds ← loadAdds files.adds
  let functions ← raw.mapM parseFunction
  return ⟨drops ++ merges, sizeOverrides, renames, adds, functions⟩

/-- In the section, not dropped, word aligned. -/
def keeps (bounds : Section) (drops : List Int) (vram : Int) : Bool :=
  !(vram < bounds.lo || vram ≥ bounds.hi) && !drops.contains vram && vram % 4 == 0

/-- `funcs` before sorting: the kept list entries, minus those an add replaces,
then the kept adds. -/
def collect (bounds : Section) (inputs : Inputs) : List Fn :=
  let funcs := inputs.functions.filter (fun fn => keeps bounds inputs.drops fn.vram)
  let funcs := funcs.filter (fun fn => (inputs.adds.get? fn.vram).isNone)
  funcs ++ (inputs.adds.filter (fun entry => keeps bounds inputs.drops entry.1)).map Prod.snd

/-- `funcs.sort(key=vram)`, stable. -/
def sortByVram (funcs : List Fn) : List Fn :=
  funcs.insertionSort (fun left right => left.vram ≤ right.vram)

/-- Append unless the last kept entry has the same vram. -/
def dedup (funcs : List Fn) : List Fn :=
  funcs.destutter (fun kept fn => kept.vram ≠ fn.vram)

/-- The size rule of the final loop. -/
def finalSize (override maxSize size : Int) : Int :=
  let size := if override > size then override else size
  let size := if size ≤ 0 ∨ size > maxSize then maxSize else size
  let size := size / 4 * 4
  if size = 0 then 4 else size

/-- The final loop: every size is clamped to the next entry. -/
def clampSizes (bounds : Section) (overrides : Dict Int Int) : List Fn → List Fn
  | [] => []
  | fn :: rest =>
      let nextVram := (rest.head?.map Fn.vram).getD bounds.hi
      let override := (overrides.get? fn.vram).getD 0
      { fn with size := finalSize override (nextVram - fn.vram) fn.size } ::
        clampSizes bounds overrides rest

def applyRename (renames : Dict Int Text) (fn : Fn) : Fn :=
  { fn with name := (renames.get? fn.vram).getD fn.name }

/-- The emitted functions for inputs that were all read. -/
def emit (bounds : Section) (inputs : Inputs) : Run (List Fn) :=
  let funcs := collect bounds inputs
  if funcs.isEmpty then .error .noFunctions
  else
    .ok ((clampSizes bounds inputs.sizeOverrides (dedup (sortByVram funcs))).map
      (applyRename inputs.renames))

/-- `gen_symbols_toml.py`. -/
def genSymbolsToml (bounds : Section) (files : SideFiles)
    (raw : List RawFunction) : Run (List Fn) := do
  let inputs ← readInputs files raw
  emit bounds inputs

end StadiumRecomp.Symbols
