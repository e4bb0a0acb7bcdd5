import StadiumRecomp.Lib.PyJson
import StadiumRecomp.Lib.PyText
import StadiumRecomp.Lib.Utf8

/-!
Contract: `pms_build_translations.py build`, from the string inventory, the English
side file and an earlier `translations.json` to the new one.

Owns: `json_escape`, the rows of `key_en.tsv`, the join, the merge of an earlier
file and the file that is written.

Does not own: reading the inventory's two files, `str.lower`, and the text Python
makes of values that are not strings.
-/

set_option autoImplicit false

namespace StadiumRecomp.Translate

open StadiumRecomp.Lib
open StadiumRecomp.Lib.PyInt
open StadiumRecomp.Lib.PyText
open StadiumRecomp.Lib.PyJson

/-! ## Escaping -/

/-- One symbol of `json_escape`. -/
def escapeSymbol (symbol : Char) : Text :=
  if symbol = '"' then ['\\', '"']
  else if symbol = '\\' then ['\\', '\\']
  else if symbol = '\n' then ['\\', 'n']
  else if symbol = '\t' then ['\\', 't']
  else [symbol]

/-- `json_escape` of a string. -/
def jsonEscape (text : Text) : Text := text.flatMap escapeSymbol

/-- `json_escape` of one item of a sequence: longer strings equal no symbol. -/
def escapeItem : Json → Option Text
  | .str (some [symbol]) => some (escapeSymbol symbol)
  | .str (some text) => some text
  | _ => none

/-- `json_escape` of any value and its encoding; `none` where one of them raises. -/
def escapeValue : Json → Option Text
  | .str text => text.map jsonEscape
  | .arr items => (items.mapM escapeItem).map List.flatten
  | .obj members => (members.mapM (fun member => escapeItem (.str member.1))).map List.flatten
  | _ => none

/-! ## Inventory and English rows -/

/-- One string of the inventory. -/
structure StringRow where
  key : Text
  srcHex : Text
  jp : Text
deriving DecidableEq, Repr

/-- The persistent master TSV by key, and the rows of the current dump. -/
structure Inventory where
  master : Dict Text StringRow
  dump : List StringRow

/-- `en.replace("\\n", "\n")`. -/
def replaceNewlines : Text → Text
  | '\\' :: 'n' :: rest => '\n' :: replaceNewlines rest
  | symbol :: rest => symbol :: replaceNewlines rest
  | [] => []

def isTab (symbol : Char) : Bool := symbol == '\t'

variable (lower : Text → Text)

/-- A line of `key_en.tsv`: its key and English, unless it is blank, a comment or
without a tab. -/
def keyEnRow (line : Text) : Option (Text × Text) :=
  if (Text.strip pySpace line).isEmpty then none
  else if (line.dropWhile pySpace).head? = some '#' then none
  else (Text.splitFirst isTab line).map
    (fun parts => (lower (Text.strip pySpace parts.1), parts.2))

/-- The rows of `key_en.tsv`, in order. -/
def keyEnRows (file : Text) : List (Text × Text) :=
  (splitlines (universalNewlines file)).filterMap (keyEnRow lower)

/-- `rows`: the inventory by lower-case key, the dump behind the master. -/
def inventoryRows (inventory : Inventory) : Dict Text StringRow :=
  inventory.dump.foldl (fun rows row => rows.setDefault (lower row.key) row)
    (Dict.writes [] (inventory.master.map (fun entry => (lower entry.1, entry.2))))

/-- A row of `key_en.tsv` whose key is in the inventory. -/
structure Joined where
  key : Text
  row : StringRow
  en : Text
deriving DecidableEq, Repr

/-- The joined rows, in the order of `key_en.tsv`. -/
def joinRows (inventory : Inventory) (keyEn : Text) : List Joined :=
  (keyEnRows lower keyEn).filterMap (fun row =>
    (Dict.get? (inventoryRows lower inventory) row.1).map
      (fun found => ⟨row.1, found, replaceNewlines row.2⟩))

/-! ## Entries -/

/-- An entry to write: texts from the join, any values from an earlier file. -/
structure Entry where
  srcHex : PyString
  srcJp : Json
  target : Json

/-- The entry of a joined row. -/
def Joined.entry (joined : Joined) : Entry :=
  ⟨some joined.row.srcHex, .str (some joined.row.jp), .str (some joined.en)⟩

variable (pyStr : Json → Text)

/-- `str(value)`. -/
def strOf : Json → PyString
  | .str text => text
  | value => some (pyStr value)

/-- What the merge does with one element of the earlier file: nothing more when it
raises `AttributeError`. -/
def mergeItem (state : List Text × List Entry) (item : Json) :
    Option (List Text × List Entry) :=
  match item with
  | .obj members =>
      let source := strOf pyStr ((PyJson.get? members "src_hex").getD (.str (some [])))
      let entry : Entry := ⟨source, (PyJson.get? members "src_jp").getD (.str (some [])),
        (PyJson.get? members "target").getD (.str (some []))⟩
      match source with
      | none => some (state.1, state.2 ++ [entry])
      | some source =>
          if source = [] ∨ lower source ∈ state.1 then some state
          else some (lower source :: state.1, state.2 ++ [entry])
  | _ => none

/-- The elements `for` runs over; `none` where it raises. -/
def iterate : Json → Option (List Json)
  | .arr items => some items
  | .obj members => some (members.map (fun member => .str member.1))
  | .str (some text) => some (text.map (fun symbol => .str (some [symbol])))
  | .str none => some [.str none]
  | _ => none

/-- The entries kept from an earlier file: none when it cannot be read, `none` when
the tool stops before it writes. -/
def preservedEntries (known : List Text) (file : Bytes) : Option (List Entry) :=
  match (Utf8.decode file).bind (fun text => loads (universalNewlines text)) with
  | none => some []
  | some parsed =>
      (iterate parsed).bind (fun items =>
        (items.foldlM (mergeItem lower pyStr) (known, [])).map Prod.snd)

/-! ## The file -/

/-- One row of the new file; `none` where formatting or writing it raises. -/
def rowText (entry : Entry) (comma : Bool) : Option Text := do
  let source ← entry.srcHex
  let jp ← escapeValue entry.srcJp
  let en ← escapeValue entry.target
  return Text.ascii "  \x7b \"src_hex\": \"" ++ source ++ Text.ascii "\", \"src_jp\": \"" ++ jp ++
    Text.ascii "\", \"target\": \"" ++ en ++ Text.ascii "\" \x7d" ++
    (if comma then [','] else []) ++ ['\n']

/-- The rows and the closing line, as far as they are written. -/
def writeRows : List Entry → Text
  | [] => [']', '\n']
  | entry :: rest =>
      match rowText entry (!rest.isEmpty) with
      | none => []
      | some row => row ++ writeRows rest

/-- The new file. -/
def writeEntries (entries : List Entry) : Bytes :=
  Utf8.encode (['[', '\n'] ++ writeRows entries)

/-- `cmd_build`: `translations.json` after the run. `none` stands for a missing file. -/
def cmdBuild (inventory : Inventory) (keyEn : Option Text) (out : Option Bytes) :
    Option Bytes :=
  match keyEn with
  | none => out
  | some keyEn =>
      let entries := (joinRows lower inventory keyEn).map Joined.entry
      let known := (joinRows lower inventory keyEn).map (fun joined => lower joined.row.srcHex)
      match out with
      | none => some (writeEntries entries)
      | some file =>
          match preservedEntries lower pyStr known file with
          | none => out
          | some preserved => some (writeEntries (entries ++ preserved))

end StadiumRecomp.Translate
