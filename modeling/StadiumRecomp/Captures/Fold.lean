import StadiumRecomp.Lib.Dict
import StadiumRecomp.Lib.PyText
import StadiumRecomp.Lib.Search
import StadiumRecomp.Lib.Outcome
import Mathlib.Data.List.Sort

/-!
Contract: `tools/fold_captures.py`, from a capture manifest and a `game.toml` to
the `game.toml` it leaves.

Owns: `load_foldable`, the assignment pattern, `find_array_block`,
`parse_existing`, `render_block` and the splice.

Texts are written as on platforms whose line end is the line feed: `write_text`
changes nothing there.

Does not own: JSON decoding of the manifest, the printed report and the dry run.
-/

set_option autoImplicit false

namespace StadiumRecomp.Captures

open StadiumRecomp.Lib
open StadiumRecomp.Lib.PyInt
open StadiumRecomp.Lib.PyText

/-- Ways a run ends without touching the file. -/
inductive FoldError where
  | valueError
  | arrayNotFound
deriving DecidableEq, Repr

abbrev Run := Except FoldError

/-! ## Manifest -/

/-- One entry of the manifest's `misses`. Texts are as Python formats the JSON
values; `none` is a missing key. -/
structure Miss where
  missedAddr : Text
  classification : Option Text
  hitCount : Option Text
  relocAtOffset : Bool
  relocType : Option Text
  relocTargetSection : Text
  relocTargetOffset : Text
  offsetIsKnownFunc : Bool
deriving DecidableEq, Repr

/-- The class of a miss, `"?"` when the manifest gives none. -/
def Miss.cls (miss : Miss) : Text := miss.classification.getD ['?']

/-- The comment of a folded entry. -/
def Miss.comment (miss : Miss) : Text :=
  miss.cls ++ Text.ascii " hit_count=" ++ miss.hitCount.getD ['0']

/-- Why a miss is not folded, if so. -/
def Miss.skipReason (miss : Miss) : Option Text :=
  if miss.relocAtOffset then
    some (Text.ascii "pointer-site (" ++ miss.relocType.getD ['?'] ++
      Text.ascii " -> section[" ++ miss.relocTargetSection ++ Text.ascii "]:" ++
      miss.relocTargetOffset ++ Text.ascii "); resolve target manually")
  else if miss.offsetIsKnownFunc then
    some (Text.ascii "miss on a known function START (eviction/aliasing bug, not a discovery gap)")
  else if miss.cls = Text.ascii "no-sections" then
    some (Text.ascii "no-sections (sections not initialized)")
  else none

/-- `load_foldable`: the addresses to fold with their comments, and the skipped
ones with the reason. -/
structure Foldable where
  fold : Dict Int Text
  skipped : List (Int × Text)

def addMiss (found : Foldable) (miss : Miss) : Run Foldable :=
  match int16 miss.missedAddr with
  | none => .error .valueError
  | some addr =>
      match miss.skipReason with
      | some reason => .ok { found with skipped := found.skipped ++ [(addr, reason)] }
      | none => .ok { found with fold := found.fold.set addr miss.comment }

/-- `load_foldable`. -/
def loadFoldable (misses : List Miss) : Run Foldable :=
  misses.foldlM addMiss ⟨[], []⟩

/-! ## Locating the array -/

def arrayName : Text := Text.ascii "force_function_vrams"

/-- `force_function_vrams\s*=\s*\[` at the front of the text; what follows. -/
def matchAssignment (text : Text) : Option Text := do
  let text ← Search.dropPrefix? arrayName text
  let text ← Search.dropPrefix? ['='] (text.dropWhile pySpace)
  Search.dropPrefix? ['['] (text.dropWhile pySpace)

def isOpen (symbol : Char) : Bool := symbol == '['
def isClose (symbol : Char) : Bool := symbol == ']'

/-- The text around the array: before the assignment, between the brackets and
after the closing one. -/
structure Block where
  before : Text
  inner : Text
  after : Text
deriving DecidableEq, Repr

/-- `find_array_block`. -/
def findArrayBlock (text : Text) : Run Block :=
  match Search.firstMatch matchAssignment text with
  | none => .error .arrayNotFound
  | some (start, _) =>
      match Text.splitFirst isOpen (text.drop start) with
      | none => .error .valueError
      | some (_, opened) =>
          match Text.splitFirst isClose opened with
          | none => .error .valueError
          | some (inner, after) => .ok ⟨text.take start, inner, after⟩

/-! ## The managed region -/

def beginMarker : Text :=
  Text.ascii "# >>> BEGIN auto-folded from runtime_captures.json -- managed by tools/fold_captures.py"

def endMarker : Text :=
  Text.ascii "# <<< END auto-folded (do not edit between markers by hand)"

/-- `marker in line`. -/
def contains (marker line : Text) : Bool := (Search.indexOf? marker line).isSome

/-- `ADDR_RE` at the front of the text. -/
def matchAddr (text : Text) : Option Text := do
  let rest ← Search.dropPrefix? ['0', 'x'] text
  let digits := rest.takeWhile isHexDigit
  if digits.isEmpty then none else some (['0', 'x'] ++ digits)

/-- The address on a line of the region, if it has one. -/
def addrOfLine (line : Text) : Option Int :=
  (Search.firstMatch matchAddr line).bind (fun found => int16 found.2)

/-- What follows the first `#`, stripped; empty when there is none. -/
def commentOfLine (line : Text) : Text :=
  match Text.splitFirst isHash line with
  | some (_, comment) => Text.strip pySpace comment
  | none => []

/-- The state of `parse_existing` between two lines. -/
structure Existing where
  inRegion : Bool
  preamble : List Text
  folded : Dict Int Text
deriving DecidableEq, Repr

def parseLine (state : Existing) (line : Text) : Existing :=
  if contains beginMarker line then { state with inRegion := true }
  else if contains endMarker line then { state with inRegion := false }
  else if state.inRegion then
    match addrOfLine line with
    | some addr => { state with folded := state.folded.set addr (commentOfLine line) }
    | none => state
  else { state with preamble := state.preamble ++ [line] }

/-- `not line.strip()`. -/
def isBlankLine (line : Text) : Bool := (Text.strip pySpace line).isEmpty

/-- `parse_existing` before trailing blank lines are dropped. -/
def parseLines (inner : Text) : Existing :=
  (splitlines inner).foldl parseLine ⟨false, [], []⟩

/-- `parse_existing`: the preamble. -/
def preambleOf (inner : Text) : List Text :=
  (parseLines inner).preamble.rdropWhile isBlankLine

/-- `parse_existing`: the managed addresses with their comments. -/
def foldedOf (inner : Text) : Dict Int Text := (parseLines inner).folded

/-! ## Rendering -/

/-- `    0x<addr>,  # <comment>`, without the comment when it is empty. -/
def entryLine (folded : Dict Int Text) (addr : Int) : Text :=
  let comment := (folded.get? addr).getD []
  let suffix := if comment = [] then [] else Text.ascii "  # " ++ comment
  Text.ascii "    " ++ fmtHEX08 addr ++ ',' :: suffix

/-- `sorted(folded)`. -/
def sortedAddrs (folded : Dict Int Text) : List Int :=
  (folded.map Prod.fst).insertionSort (· ≤ ·)

def markerLine (marker : Text) : Text := Text.ascii "    " ++ marker

/-- The lines between the brackets. -/
def innerLines (preamble : List Text) (folded : Dict Int Text) : List Text :=
  preamble ++ markerLine beginMarker ::
    (sortedAddrs folded).map (entryLine folded) ++ [markerLine endMarker]

def openLine : Text := Text.ascii "force_function_vrams = ["

/-- `render_block`. -/
def renderBlock (preamble : List Text) (folded : Dict Int Text) : Text :=
  Text.unlines '\n' (openLine :: innerLines preamble folded) ++ [']']

/-! ## The tool -/

/-- The new text, from the manifest's addresses and the text read. -/
def foldText (fold : Dict Int Text) (text : Text) : Run Text := do
  let block ← findArrayBlock text
  let merged := Dict.writes (foldedOf block.inner) fold
  return block.before ++ renderBlock (preambleOf block.inner) merged ++ block.after

/-- `main`: the file after a run. Nothing is written when the text is already up
to date. -/
def foldCaptures (misses : List Miss) (file : Text) : Run Text := do
  let found ← loadFoldable misses
  let text := universalNewlines file
  let newText ← foldText found.fold text
  return if newText = text then file else newText

end StadiumRecomp.Captures
