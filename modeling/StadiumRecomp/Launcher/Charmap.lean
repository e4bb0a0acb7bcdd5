import StadiumRecomp.Launcher.SaveGate
import StadiumRecomp.Lib.CLiteral
import StadiumRecomp.Lib.Dict
import StadiumRecomp.Lib.PyText

/-!
Contract: the table of kana glyphs, from the charmap of the game to a trainer name.

Owns: what `gen_gen1_charmap_jp.py` reads of a charmap, the header it writes, the strings of that
header, and that the launcher decodes a name by the charmap.

Does not own: the checksum that a name stands behind.
-/

set_option autoImplicit false

namespace StadiumRecomp.Launcher

open StadiumRecomp.Lib
open StadiumRecomp.Lib.Text (ascii)
open StadiumRecomp.Lib.Search

/-! ## Reading the charmap -/

/-- `",\s*\$([0-9A-Fa-f]{1,2})`. -/
def charmapValue (text : Text) : Option Nat := do
  let text ← dropPrefix? (ascii "\",") text
  let text ← dropPrefix? (ascii "$") (text.dropWhile PyInt.pySpace)
  PyInt.natLiteral 16 ((text.take 2).takeWhile PyInt.isHexDigit)

/-- `charmap\s+"(.*?)",\s*\$([0-9A-Fa-f]{1,2})` at a position; the lazy group ends where the rest
first matches. -/
def charmapMatch (text : Text) : Option (Text × Nat) := do
  let text ← dropPrefix? (ascii "charmap") text
  let text ← PyText.spaces text
  let text ← dropPrefix? (ascii "\"") text
  let (width, value) ← firstMatch charmapValue text
  return (text.take width, value)

/-- The glyph that a line gives a value, if it is one visible character. -/
def charmapEntry (line : Text) : Option (Nat × Char) :=
  match (firstMatch charmapMatch line).map Prod.snd with
  | some ([glyph], value) => if glyph.toNat < 0x20 then none else some (value, glyph)
  | _ => none

def charmapEntries (asm : Text) : List (Nat × Char) :=
  (PyText.fileLines asm).filterMap charmapEntry

/-- `table`. -/
def charmapTable (asm : Text) : Dict Nat Char :=
  let table := Dict.writes [] (charmapEntries asm)
  let table := table.filter fun entry => entry.1 ≠ 0x50
  Dict.set table 0x7F ' '

/-! ## Writing the header -/

/-- `utf8_escape`. -/
def utf8Escape (text : Text) : Text := (Utf8.encode text).flatMap CLiteral.escape

/-- A cell without its quotes. -/
def cellText (table : Dict Nat Char) (code : Nat) : Text :=
  match Dict.get? table code with
  | some glyph => utf8Escape [glyph]
  | none => []

def cell (table : Dict Nat Char) (code : Nat) : Text := '"' :: (cellText table code ++ ['"'])

/-- The line of eight cells. -/
def cellLine (table : Dict Nat Char) (line : Nat) : Text :=
  ascii "    " ++ List.intercalate (ascii ", ") ((List.range' (line * 8) 8).map (cell table)) ++
    ascii ","

def charmapHeaderLines (table : Dict Nat Char) : List Text :=
  [ascii "// Auto-generated from pret/pokered-jp charmap.asm - do not edit by hand.",
    ascii "// Maps a Japanese Gen-1 in-game text byte to its UTF-8 glyph (\"\" = none).",
    ascii "// Regenerate via tools/gen_gen1_charmap_jp.py.",
    ascii "#pragma once",
    [],
    ascii "static const char* const kGen1JpCharmap[256] = \x7b"] ++
  (List.range 32).map (cellLine table) ++ [ascii "\x7d;", []]

/-- The header as written. -/
def charmapHeader (table : Dict Nat Char) : Text := List.intercalate ['\n'] (charmapHeaderLines table)

/-! ## Compiling the header -/

/-- The array, string by string. -/
def charmapStrings (header : Text) : List Text := CLiteral.literals .code header

/-- `kGen1JpCharmap[code]` as the C string that a reader sees. -/
def kGen1JpCharmap (header : Text) (code : UInt8) : Bytes :=
  (CLiteral.bytes none ((charmapStrings header).getD code.toNat [])).takeWhile (· ≠ 0)

/-! ## What the header holds -/

theorem quote_not_mem_cellText (table : Dict Nat Char) (code : Nat) :
    '"' ∉ cellText table code := by
  unfold cellText
  split
  · intro member
    obtain ⟨byte, _, inEscape⟩ := List.mem_flatMap.mp member
    exact CLiteral.quote_not_mem_escape byte inEscape
  · exact List.not_mem_nil

/-- The cells of a line are its strings. -/
theorem literals_cells (table : Dict Nat Char) (codes : List Nat) (rest : Text) :
    CLiteral.literals .code (List.intercalate (ascii ", ") (codes.map (cell table)) ++ rest) =
      codes.map (cellText table) ++ CLiteral.literals .code rest := by
  have separator : CLiteral.Bare (ascii ", ") := by decide
  have one : ∀ code (rest : Text), CLiteral.literals .code (cell table code ++ rest) =
      cellText table code :: CLiteral.literals .code rest := by
    intro code rest
    have quoted := CLiteral.literals_quoted (quote_not_mem_cellText table code) rest
    simpa [cell] using quoted
  induction codes with
  | nil => rfl
  | cons code codes inductionHypothesis =>
      cases codes with
      | nil => simpa using one code rest
      | cons next codes =>
          have joined : List.intercalate (ascii ", ") ((code :: next :: codes).map (cell table)) =
              cell table code ++ (ascii ", " ++
                List.intercalate (ascii ", ") ((next :: codes).map (cell table))) := by
            simp [List.intercalate]
          rw [joined, List.append_assoc, one, List.append_assoc, CLiteral.literals_code separator,
            inductionHypothesis]
          rfl

/-- What a line adds to the strings of its file. -/
def Holds (line : Text) (strings : List Text) : Prop :=
  ∀ rest, CLiteral.literals .code (line ++ '\n' :: rest) =
    strings ++ CLiteral.literals .code rest

theorem holds_code {line : Text} (bare : CLiteral.Bare line) : Holds line [] := by
  intro rest
  have feed : CLiteral.Bare ['\n'] := by decide
  rw [CLiteral.literals_code bare]
  exact CLiteral.literals_code feed rest

theorem holds_comment {text : Text} (oneLine : '\n' ∉ text) : Holds ('/' :: '/' :: text) [] :=
  fun rest => CLiteral.literals_comment oneLine rest

theorem holds_cellLine (table : Dict Nat Char) (line : Nat) :
    Holds (cellLine table line) ((List.range' (line * 8) 8).map (cellText table)) := by
  intro rest
  have front : CLiteral.Bare (ascii "    ") := by decide
  have close : CLiteral.Bare (ascii "," ++ ['\n']) := by decide
  unfold cellLine
  rw [List.append_assoc, List.append_assoc, CLiteral.literals_code front, literals_cells]
  have behind := CLiteral.literals_code close rest
  rw [List.append_assoc] at behind
  exact congrArg _ behind

/-- Lines that are joined hold their strings in order; nothing follows the last line feed. -/
theorem literals_joined {lines : List (Text × List Text)}
    (hold : ∀ line ∈ lines, Holds line.1 line.2) :
    CLiteral.literals .code (List.intercalate ['\n'] (lines.map Prod.fst ++ [[]])) =
      lines.flatMap Prod.snd := by
  induction lines with
  | nil => rfl
  | cons line lines inductionHypothesis =>
      have joined : List.intercalate ['\n'] ((line :: lines).map Prod.fst ++ [[]]) =
          line.1 ++ '\n' :: List.intercalate ['\n'] (lines.map Prod.fst ++ [[]]) := by
        cases lines <;> simp [List.intercalate]
      rw [joined, hold line List.mem_cons_self,
        inductionHypothesis fun other member => hold other (List.mem_cons_of_mem _ member),
        List.flatMap_cons]

theorem flatMap_range'_eight (count : Nat) :
    (List.range count).flatMap (fun line => List.range' (line * 8) 8) = List.range (count * 8) := by
  induction count with
  | zero => rfl
  | succ count inductionHypothesis =>
      rw [List.range_succ, List.flatMap_append, inductionHypothesis, List.flatMap_singleton,
        Nat.succ_mul, List.range_add, List.range'_eq_map_range]

/-- The strings of the header are the cells of the table, all 256 of them. -/
theorem charmapStrings_header (table : Dict Nat Char) :
    charmapStrings (charmapHeader table) = (List.range 256).map (cellText table) := by
  let front : List Text := [
    ascii "// Auto-generated from pret/pokered-jp charmap.asm - do not edit by hand.",
    ascii "// Maps a Japanese Gen-1 in-game text byte to its UTF-8 glyph (\"\" = none).",
    ascii "// Regenerate via tools/gen_gen1_charmap_jp.py.",
    ascii "#pragma once",
    [],
    ascii "static const char* const kGen1JpCharmap[256] = \x7b"]
  let lines : List (Text × List Text) :=
    front.map (fun line => (line, [])) ++
      ((List.range 32).map (fun line =>
        (cellLine table line, (List.range' (line * 8) 8).map (cellText table))) ++
      [(ascii "\x7d;", [])])
  have written : charmapHeaderLines table = lines.map Prod.fst ++ [[]] := by
    simp [charmapHeaderLines, lines, front, Function.comp_def]
  have comments : ∀ line ∈ front.take 3, ∃ text, line = '/' :: '/' :: text ∧ '\n' ∉ text := by
    intro line member
    have starts : ∀ line ∈ front.take 3, line.take 2 = ['/', '/'] ∧ '\n' ∉ line.drop 2 := by
      decide
    obtain ⟨slashes, oneLine⟩ := starts line member
    exact ⟨line.drop 2, by rw [← List.take_append_drop 2 line, slashes]; rfl, oneLine⟩
  have code : ∀ line ∈ front.drop 3 ++ [ascii "\x7d;"], CLiteral.Bare line := by decide
  have hold : ∀ line ∈ lines, Holds line.1 line.2 := by
    intro line member
    rcases List.mem_append.mp member with inFront | behind
    · obtain ⟨text, inText, rfl⟩ := List.mem_map.mp inFront
      rw [← List.take_append_drop 3 front] at inText
      rcases List.mem_append.mp inText with comment | plain
      · obtain ⟨body, rfl, oneLine⟩ := comments text comment
        exact holds_comment oneLine
      · exact holds_code (code text (List.mem_append_left _ plain))
    · rcases List.mem_append.mp behind with cells | close
      · obtain ⟨number, _, rfl⟩ := List.mem_map.mp cells
        exact holds_cellLine table number
      · rw [List.mem_singleton.mp close]
        exact holds_code (code _ (List.mem_append_right _ (List.mem_singleton.mpr rfl)))
  have strings : lines.flatMap Prod.snd = (List.range 32).flatMap fun line =>
      (List.range' (line * 8) 8).map (cellText table) := by
    simp [lines, front, List.flatMap_map]
  unfold charmapStrings charmapHeader
  rw [written, literals_joined hold, strings, ← List.map_flatMap, flatMap_range'_eight]

theorem get?_charmapTable (asm : Text) {code : Nat} (other : code ≠ 0x50) :
    Dict.get? (charmapTable asm) code =
      if code = 0x7F then some ' ' else Dict.lastWrite (charmapEntries asm) code := by
  have popped : Dict.get? ((Dict.writes [] (charmapEntries asm)).filter fun entry =>
      entry.1 ≠ 0x50) code = Dict.get? (Dict.writes [] (charmapEntries asm)) code := by
    unfold Dict.get?
    rw [List.find?_filter]
    congr 2
    funext entry
    by_cases here : entry.1 = code
    · simp [here, other]
    · simp [here]
  unfold charmapTable
  simp only [Dict.get?_set, popped, Dict.get?_writes, Dict.get?_nil, Option.or_none, eq_comm]

/-! ## Names -/

/-- The glyph of a code: the last that a line of the charmap gives it, a space for `0x7F`. -/
def glyphOf (asm : Text) (code : UInt8) : Option Char :=
  if code = 0x7F then some ' ' else Dict.lastWrite (charmapEntries asm) code.toNat

/-- The codes of a trainer name. -/
def nameCodes (save : Bytes) : Bytes :=
  ((save.drop 0x2598).take (0x25A2 + 1 - 0x2598)).takeWhile fun code => code ≠ 0x50 ∧ code ≠ 0

theorem visible_of_glyphOf {asm : Text} {code : UInt8} {glyph : Char}
    (given : glyphOf asm code = some glyph) : 0x20 ≤ glyph.toNat := by
  unfold glyphOf at given
  split at given
  · cases given
    decide
  · obtain ⟨line, _, entry⟩ := List.mem_filterMap.mp (Dict.mem_of_lastWrite given)
    unfold charmapEntry at entry
    split at entry
    · split at entry
      · cases entry
      next visible =>
        cases entry
        exact Nat.le_of_not_lt visible
    · cases entry

/-- Visible characters are a C string of their own. -/
theorem nonzero_of_mem_encode {glyphs : Text} (visible : ∀ glyph ∈ glyphs, 0x20 ≤ glyph.toNat)
    {byte : UInt8} (member : byte ∈ Utf8.encode glyphs) : byte ≠ 0 := by
  intro zero
  rw [zero, ← show UInt8.ofNat (Char.ofNat 0).toNat = 0 from rfl,
    Utf8.ofNat_mem_encode_iff (by decide)] at member
  exact absurd (visible _ member) (by decide)

theorem kGen1JpCharmap_header (asm : Text) {code : UInt8} (other : code ≠ 0x50) :
    kGen1JpCharmap (charmapHeader (charmapTable asm)) code =
      Utf8.encode (glyphOf asm code).toList := by
  have small := code.toNat_lt
  have looked : Dict.get? (charmapTable asm) code.toNat = glyphOf asm code := by
    have value : code.toNat = 0x7F ↔ code = 0x7F := by
      rw [← UInt8.toNat_inj]
      rfl
    rw [get?_charmapTable asm fun same => other (UInt8.toNat_inj.mp same)]
    unfold glyphOf
    simp only [value]
  have string : (charmapStrings (charmapHeader (charmapTable asm))).getD code.toNat [] =
      utf8Escape (glyphOf asm code).toList := by
    rw [charmapStrings_header, List.getD_eq_getElem _ _ (by simpa using small), List.getElem_map,
      List.getElem_range, cellText, looked]
    cases glyphOf asm code <;> rfl
  unfold kGen1JpCharmap
  rw [string, utf8Escape, CLiteral.bytes_escape, List.takeWhile_eq_self_iff]
  intro byte member
  cases given : glyphOf asm code with
  | none =>
      rw [given] at member
      cases member
  | some glyph =>
      rw [given] at member
      have whole : byte ≠ 0 := by
        refine nonzero_of_mem_encode (fun other inGlyph => ?_) member
        rw [List.mem_singleton.mp inGlyph]
        exact visible_of_glyphOf given
      simpa using whole

/-- The glyphs of a save's trainer name. -/
def nameGlyphs (asm : Text) (save : Bytes) : Text := (nameCodes save).filterMap (glyphOf asm)

/-- What the launcher builds is the UTF-8 of the glyphs. -/
theorem trainerName_header (asm : Text) (save : Bytes) :
    trainerName (kGen1JpCharmap (charmapHeader (charmapTable asm))) save =
      Utf8.encode (nameGlyphs asm save) := by
  have noEnd : ∀ code ∈ nameCodes save, code ≠ 0x50 := by
    intro code member
    have kept := List.mem_takeWhile_imp member
    simp only [decide_eq_true_eq] at kept
    exact kept.1
  show (nameCodes save).flatMap _ = Utf8.encode ((nameCodes save).filterMap (glyphOf asm))
  generalize nameCodes save = codes at noEnd
  induction codes with
  | nil => rfl
  | cons code codes inductionHypothesis =>
      rw [List.flatMap_cons, kGen1JpCharmap_header asm (noEnd code List.mem_cons_self),
        inductionHypothesis fun other member => noEnd other (List.mem_cons_of_mem _ member),
        List.filterMap_cons]
      cases glyphOf asm code with
      | none => rfl
      | some glyph => exact (Utf8.encode_append [glyph] _).symm

theorem visible_of_mem_nameGlyphs {asm : Text} {save : Bytes} {glyph : Char}
    (member : glyph ∈ nameGlyphs asm save) : 0x20 ≤ glyph.toNat := by
  obtain ⟨code, _, given⟩ := List.mem_filterMap.mp member
  exact visible_of_glyphOf given

/-- A charmap of one glyph and the terminator. -/
def shortCharmap : Text := ascii "  charmap \"A\", $80\n  charmap \"@\", $50\n"

/-- A save from the trainer name on. -/
def namedSaveTail : Bytes :=
  [0x80, 0x50] ++ List.replicate 0xF89 0 ++ [0x2F] ++ List.replicate 0x4ADC 0

/-- A save with a name of one letter, and its checksum. -/
def namedSave : Bytes := List.replicate 0x2598 0 ++ namedSaveTail

theorem drop_namedSave : namedSave.drop 0x2598 = namedSaveTail :=
  List.drop_left' (List.length_replicate ..)

theorem length_namedSave : namedSave.length = 0x8000 := by
  simp only [namedSave, namedSaveTail, List.length_append, List.length_replicate,
    List.length_cons, List.length_nil]

theorem byteSum_namedSave : byteSum namedSave 0x2598 0x3523 = 255 := by
  have front : namedSaveTail.take 0xF8C = [0x80, 0x50] ++ List.replicate 0xF89 0 ++ [0x2F] :=
    List.take_left' (by
      simp only [List.length_append, List.length_replicate, List.length_cons, List.length_nil])
  unfold byteSum
  rw [drop_namedSave, show 0x3523 + 1 - 0x2598 = 0xF8C from rfl, front]
  simp only [List.map_append, List.map_replicate, List.sum_append_nat, List.sum_replicate_nat]
  rfl

theorem nameCodes_namedSave : nameCodes namedSave = [0x80] := by
  unfold nameCodes
  rw [drop_namedSave]
  rfl

end StadiumRecomp.Launcher
