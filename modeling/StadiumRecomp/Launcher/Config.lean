import Mathlib.Algebra.GroupWithZero.Nat
import StadiumRecomp.Lib.CString
import StadiumRecomp.Lib.Dict

/-!
Contract: the `launcher.cfg` reader of `pmsj_launcher_main.cpp`. The reader in
`launcher_cfg.cpp` is the same code.

Owns: `trim`, `to_lower_str`, `parse_bool`, `read_cfg_map`, the port keys, and
what the reader makes of a comment line and of a written `key=value` line.

Does not own: which keys any program looks up.
-/

set_option autoImplicit false

namespace StadiumRecomp.Launcher

open StadiumRecomp.Lib
open StadiumRecomp.Lib.CString

/-! ## The reader -/

/-- The characters `trim` removes. -/
def isBlank (byte : UInt8) : Bool :=
  byte == 0x20 || byte == 0x09 || byte == 0x0D || byte == 0x0A

/-- `#` and `;` start a comment anywhere in a line. -/
def isComment (byte : UInt8) : Bool := byte == 0x23 || byte == 0x3B

def isEquals (byte : UInt8) : Bool := byte == 0x3D

/-- The line break of `std::getline`. -/
def isNewline (byte : UInt8) : Bool := byte == 0x0A

/-- `trim`. -/
def trim (text : Bytes) : Bytes := Text.strip isBlank text

/-- `to_lower_str`. -/
def toLowerStr (text : Bytes) : Bytes := text.map toLower

/-- `parse_bool`. -/
def parseBool (text : Bytes) (fallback : Bool) : Bool :=
  let word := toLowerStr text
  if word ∈ [bytesOf "1", bytesOf "on", bytesOf "true", bytesOf "yes"] then true
  else if word ∈ [bytesOf "0", bytesOf "off", bytesOf "false", bytesOf "no"] then false
  else fallback

/-- The assignment a line makes, if any. -/
def entryOfLine (line : Bytes) : Option (Bytes × Bytes) :=
  match Text.splitFirst isEquals (Text.cutAt isComment line) with
  | none => none
  | some (key, value) =>
      let key := toLowerStr (trim key)
      if key.isEmpty then none else some (key, trim value)

/-- The assignments of a file, in order. -/
def cfgEntries (file : Bytes) : List (Bytes × Bytes) :=
  (Text.linesBy isNewline file).filterMap entryOfLine

/-- `read_cfg_map`. -/
def readCfgMap (file : Bytes) : Dict Bytes Bytes :=
  Dict.writes [] (cfgEntries file)

theorem get?_readCfgMap (file key : Bytes) :
    (readCfgMap file).get? key = Dict.lastWrite (cfgEntries file) key := by
  simp [readCfgMap, Dict.get?_writes]

/-! ## Port keys -/

instance neZeroPorts : NeZero 4 := ⟨by decide⟩

/-- `"p" + std::to_string(i + 1) + suffix`. -/
def portKey (port : Fin 4) (suffix : Bytes) : Bytes :=
  0x70 :: UInt8.ofNat (0x31 + port) :: suffix

theorem portKey_inj {port other : Fin 4} {suffix otherSuffix : Bytes} :
    portKey port suffix = portKey other otherSuffix ↔
      port = other ∧ suffix = otherSuffix := by
  have digits : ∀ left right : Fin 4,
      UInt8.ofNat (0x31 + left) = UInt8.ofNat (0x31 + right) → left = right := by
    decide
  constructor
  · intro same
    simp only [portKey, List.cons.injEq, true_and] at same
    exact ⟨digits port other same.1, same.2⟩
  · rintro ⟨rfl, rfl⟩
    rfl

/-! ## Written lines -/

/-- A key that reads back as written. -/
structure PlainKey (key : Bytes) : Prop where
  nonempty : key ≠ []
  plain : ∀ byte ∈ key, isBlank byte = false ∧ isComment byte = false ∧
    isEquals byte = false ∧ toLower byte = byte

instance (key : Bytes) : Decidable (PlainKey key) :=
  decidable_of_iff (key ≠ [] ∧ key.all (fun byte => isBlank byte = false ∧
    isComment byte = false ∧ isEquals byte = false ∧ toLower byte = byte) = true)
    ⟨fun ⟨nonempty, plain⟩ => ⟨nonempty, List.all_iff_forall_prop.mp plain⟩,
      fun key => ⟨key.nonempty, List.all_iff_forall_prop.mpr key.plain⟩⟩

/-- `key << "=" << value`. -/
def assignment (key value : Bytes) : Bytes := key ++ 0x3D :: value

/-- A comment line assigns nothing. -/
theorem entryOfLine_comment (rest : Bytes) : entryOfLine (0x23 :: rest) = none := by
  rfl

/-- What is read back for a written value: its comment cut off, then trimmed. -/
def readValue (value : Bytes) : Bytes := trim (Text.cutAt isComment value)

/-- A written assignment reads back with its value cut and trimmed. -/
theorem entryOfLine_assignment {key : Bytes} (plain : PlainKey key) (value : Bytes) :
    entryOfLine (assignment key value) = some (key, readValue value) := by
  have cut : Text.cutAt isComment (assignment key value) =
      key ++ 0x3D :: Text.cutAt isComment value := by
    unfold assignment Text.cutAt
    rw [List.takeWhile_append_of_pos (by
      intro byte member
      simp [(plain.plain byte member).2.1])]
    rfl
  have split : Text.splitFirst isEquals (key ++ 0x3D :: Text.cutAt isComment value) =
      some (key, Text.cutAt isComment value) :=
    Text.splitFirst_append (fun byte member => (plain.plain byte member).2.2.1) rfl _
  have trimmed : trim key = key :=
    Text.strip_eq_self_of_forall (fun byte member => (plain.plain byte member).1)
  have lowered : toLowerStr key = key := by
    unfold toLowerStr
    conv_rhs => rw [← List.map_id key]
    exact List.map_congr_left (fun byte member => (plain.plain byte member).2.2.2)
  unfold entryOfLine
  rw [cut, split]
  simp only [trimmed, lowered]
  rw [if_neg (by simpa using plain.nonempty)]
  rfl

/-- Values that the reader leaves alone. -/
structure PlainValue (value : Bytes) : Prop where
  noComment : ∀ byte ∈ value, isComment byte = false
  head : ∀ byte ∈ value.head?, isBlank byte = false
  last : ∀ byte ∈ value.getLast?, isBlank byte = false

theorem readValue_sublist (value : Bytes) : (readValue value).Sublist value :=
  (Text.strip_sublist _ _).trans (List.takeWhile_sublist _)

theorem readValue_eq_self_iff (value : Bytes) :
    readValue value = value ↔ PlainValue value := by
  constructor
  · intro same
    have cut : Text.cutAt isComment value = value := by
      apply (List.takeWhile_sublist _).eq_of_length_le
      calc value.length = (readValue value).length := by rw [same]
        _ ≤ (Text.cutAt isComment value).length := (Text.strip_sublist _ _).length_le
    unfold readValue at same
    rw [cut] at same
    obtain ⟨head, last⟩ := Text.strip_eq_self_iff.mp same
    exact ⟨Text.cutAt_eq_self_iff.mp cut, head, last⟩
  · intro ⟨noComment, head, last⟩
    unfold readValue trim
    rw [Text.cutAt_eq_self noComment, Text.strip_eq_self head last]

end StadiumRecomp.Launcher
