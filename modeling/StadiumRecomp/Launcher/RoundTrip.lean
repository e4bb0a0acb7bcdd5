import StadiumRecomp.Launcher.Settings

/-!
Contract: writing the launcher settings and loading them again.

Owns: what `launcher.cfg` can keep of a settings record, the assignments the
reader finds in a written file, and exactly when a record comes back as its
normal form.

Does not own: files the launcher did not write.
-/

set_option autoImplicit false

namespace StadiumRecomp.Launcher

open StadiumRecomp.Lib
open StadiumRecomp.Lib.CString

variable {rooms : Rooms}

/-! ## The normal form -/

/-- A port's Transfer Pak fields as the file can keep them. -/
def normalPak (rom : FixedString rooms.romPath) (save : FixedString rooms.savePath)
    (enabled : Int) : PortPak rooms :=
  if rom.bytes ≠ [] then ⟨rom, save, if enabled ≥ 0 then 1 else -1⟩
  else ⟨FixedString.empty, FixedString.empty, 0⟩

def Settings.pak (settings : Settings rooms) (port : Fin 4) : PortPak rooms :=
  normalPak (settings.tpakRomPath port) (settings.tpakSavePath port)
    (settings.tpakEnabled port)

/-- The documented normalisation. Fields without a key in the file are the
built-in defaults. -/
def Settings.normalise (settings : Settings rooms) : Settings rooms :=
  { Settings.defaults rooms with
    playerSrc := fun port => clampSrc (settings.playerSrc port)
    tpakRomPath := fun port => (settings.pak port).rom
    tpakSavePath := fun port => (settings.pak port).save
    tpakEnabled := fun port => (settings.pak port).enabled
    renderer :=
      if settings.renderer = 1 then 1 else if settings.renderer = 2 then 2 else 0
    supersampling :=
      if settings.supersampling ≤ 1 then 1
      else if settings.supersampling ≥ 4 then 4 else 2
    antialiasing :=
      if settings.antialiasing = 0 then 0 else if settings.antialiasing = 2 then 2
      else if settings.antialiasing = 8 then 8 else 4
    fullscreen := if settings.fullscreen ≠ 0 then 1 else 0
    audioDevice := settings.audioDevice
    skipLauncher := if settings.skipLauncher ≠ 0 then 1 else 0 }

/-- The strings of a record contain no newline. -/
structure Settings.OneLineStrings (settings : Settings rooms) : Prop where
  rom : ∀ port, 0x0A ∉ (settings.tpakRomPath port).bytes
  save : ∀ port, 0x0A ∉ (settings.tpakSavePath port).bytes
  device : 0x0A ∉ settings.audioDevice.bytes

/-! ## The assignments of a written file -/

def portSuffixes : List Bytes :=
  [bytesOf "_enabled", bytesOf "_device", bytesOf "_rom", bytesOf "_rom_off", bytesOf "_save",
    bytesOf "_save_off", bytesOf "_tpak"]

theorem portKey_plain : ∀ port : Fin 4, ∀ suffix ∈ portSuffixes,
    PlainKey (portKey port suffix) := by
  decide +kernel

/-- Every assignment written for a port has one of its keys. -/
theorem exists_suffix_of_mem_portAssignments {settings : Settings rooms} {port : Fin 4}
    {entry : Bytes × Bytes} (member : entry ∈ portAssignments settings port) :
    ∃ suffix ∈ portSuffixes, entry.1 = portKey port suffix := by
  have romListed : romSuffix (settings.tpakEnabled port) ∈ portSuffixes := by
    unfold romSuffix
    split <;> decide
  have saveListed : saveSuffix (settings.tpakEnabled port) ∈ portSuffixes := by
    unfold saveSuffix
    split <;> decide
  simp only [portAssignments, pakAssignments, List.mem_append, List.mem_cons,
    List.not_mem_nil, or_false] at member
  rcases member with (rfl | rfl) | member
  · exact ⟨bytesOf "_enabled", by decide, rfl⟩
  · exact ⟨bytesOf "_device", by decide, rfl⟩
  · split at member
    · simp only [List.mem_append, List.mem_cons, List.not_mem_nil, or_false] at member
      rcases member with (rfl | member) | rfl
      · exact ⟨_, romListed, rfl⟩
      · split at member
        · rw [List.mem_singleton] at member
          exact ⟨_, saveListed, by rw [member]⟩
        · simp at member
      · exact ⟨bytesOf "_tpak", by decide, rfl⟩
    · simp at member

def globalKeys : List Bytes :=
  [bytesOf "graphics_api", bytesOf "supersampling", bytesOf "antialiasing",
    bytesOf "window_mode", bytesOf "audio_device", bytesOf "autoplay"]

theorem globalAssignments_keys (settings : Settings rooms) :
    (globalAssignments settings).map Prod.fst = globalKeys := rfl

theorem globalKeys_plain : ∀ key ∈ globalKeys, PlainKey key ∧ key.head? ≠ some 0x70 := by
  decide +kernel

/-- An assignment as the reader sees it. -/
def readEntry (entry : Bytes × Bytes) : Bytes × Bytes := (entry.1, readValue entry.2)

/-- What the reader finds in a written file. -/
def writtenEntries (settings : Settings rooms) : List (Bytes × Bytes) :=
  (List.finRange 4).flatMap
    (fun port => (portAssignments settings port).map readEntry) ++
  (globalAssignments settings).map readEntry

theorem globalKey_ne_portKey {key : Bytes} (member : key ∈ globalKeys) (port : Fin 4)
    (suffix : Bytes) : key ≠ portKey port suffix := by
  intro same
  apply (globalKeys_plain key member).2
  rw [same]
  rfl

/-- Comment lines are one line each. -/
theorem comments_plain : ∀ line ∈ headerLines ++ globalComments,
    line.head? = some 0x23 ∧ 0x0A ∉ line := by
  decide +kernel

theorem entryOfLine_of_mem_comments {line : Bytes}
    (member : line ∈ headerLines ++ globalComments) : entryOfLine line = none := by
  obtain ⟨rest, rfl⟩ := List.head?_eq_some_iff.mp (comments_plain line member).1
  exact entryOfLine_comment rest

theorem entryOfLine_entryLine {entry : Bytes × Bytes} (plain : PlainKey entry.1) :
    entryOfLine (entryLine entry) = some (readEntry entry) :=
  entryOfLine_assignment plain entry.2

theorem portAssignments_plain {settings : Settings rooms} {port : Fin 4}
    {entry : Bytes × Bytes} (member : entry ∈ portAssignments settings port) :
    PlainKey entry.1 := by
  obtain ⟨suffix, listed, key⟩ := exists_suffix_of_mem_portAssignments member
  exact key ▸ portKey_plain port suffix listed

theorem globalAssignments_plain {settings : Settings rooms} {entry : Bytes × Bytes}
    (member : entry ∈ globalAssignments settings) : PlainKey entry.1 := by
  have listed : entry.1 ∈ globalKeys := by
    rw [← globalAssignments_keys settings]
    exact List.mem_map_of_mem member
  exact (globalKeys_plain entry.1 listed).1

/-- The reader finds exactly the written assignments, with cut and trimmed
values. -/
theorem cfgLines_entries (settings : Settings rooms) :
    (cfgLines settings).filterMap entryOfLine = writtenEntries settings := by
  have header : headerLines.filterMap entryOfLine = [] := by
    rw [List.filterMap_eq_nil_iff]
    intro line member
    exact entryOfLine_of_mem_comments (List.mem_append_left _ member)
  have ports : ∀ port, ((portAssignments settings port).map entryLine).filterMap
      entryOfLine = (portAssignments settings port).map readEntry := by
    intro port
    rw [List.filterMap_map, ← List.filterMap_eq_map]
    apply List.filterMap_congr
    intro entry member
    exact entryOfLine_entryLine (portAssignments_plain member)
  have globals : ((globalComments.zip (globalAssignments settings)).flatMap
      (fun line => [line.1, entryLine line.2])).filterMap entryOfLine =
      (globalAssignments settings).map readEntry := by
    have paired : (globalComments.zip (globalAssignments settings)).map Prod.snd =
        globalAssignments settings := List.map_snd_zip (Nat.le_refl 6)
    conv_rhs => rw [← paired, List.map_map]
    rw [List.filterMap_flatMap, List.map_eq_flatMap]
    apply List.flatMap_congr
    intro line member
    obtain ⟨comment, entry⟩ := line
    have commentListed := (List.of_mem_zip member).1
    have entryListed := (List.of_mem_zip member).2
    simp [entryOfLine_of_mem_comments (List.mem_append_right _ commentListed),
      entryOfLine_entryLine (globalAssignments_plain entryListed)]
  unfold cfgLines writtenEntries
  rw [List.filterMap_append, List.filterMap_append, header, globals, List.nil_append,
    List.filterMap_flatMap]
  simp only [ports]

/-! ## What the loader looks up -/

/-- A key the ports share with no global setting is found among its own port's
assignments. -/
theorem lastWrite_portKey (settings : Settings rooms) (port : Fin 4) (suffix : Bytes) :
    Dict.lastWrite (writtenEntries settings) (portKey port suffix) =
      Dict.lastWrite ((portAssignments settings port).map readEntry)
        (portKey port suffix) := by
  have globals : Dict.lastWrite ((globalAssignments settings).map readEntry)
      (portKey port suffix) = none := by
    rw [Dict.lastWrite_eq_none_iff]
    intro entry member
    obtain ⟨written, listed, rfl⟩ := List.mem_map.mp member
    apply globalKey_ne_portKey
    rw [← globalAssignments_keys settings]
    exact List.mem_map.mpr ⟨written, listed, rfl⟩
  have others : ∀ other, other ≠ port →
      Dict.lastWrite ((portAssignments settings other).map readEntry)
        (portKey port suffix) = none := by
    intro other different
    rw [Dict.lastWrite_eq_none_iff]
    intro entry member
    obtain ⟨written, listed, rfl⟩ := List.mem_map.mp member
    obtain ⟨otherSuffix, _, key⟩ := exists_suffix_of_mem_portAssignments listed
    intro same
    exact different (portKey_inj.mp (key.symm.trans same)).1
  unfold writtenEntries
  rw [Dict.lastWrite_append, globals, Option.none_or,
    Dict.lastWrite_flatMap _ _ (List.mem_finRange port) others]

theorem lastWrite_globalKey (settings : Settings rooms) {key : Bytes}
    (member : key ∈ globalKeys) :
    Dict.lastWrite (writtenEntries settings) key =
      Dict.lastWrite ((globalAssignments settings).map readEntry) key := by
  have ports : Dict.lastWrite ((List.finRange 4).flatMap
      (fun port => (portAssignments settings port).map readEntry)) key = none := by
    rw [Dict.lastWrite_eq_none_iff]
    intro entry inside
    obtain ⟨port, _, written⟩ := List.mem_flatMap.mp inside
    obtain ⟨source, listed, rfl⟩ := List.mem_map.mp written
    obtain ⟨suffix, _, portsKey⟩ := exists_suffix_of_mem_portAssignments listed
    intro same
    exact globalKey_ne_portKey member port suffix (same.symm.trans portsKey)
  unfold writtenEntries
  rw [Dict.lastWrite_append, ports, Option.or_none]

@[simp] theorem readValue_nil : readValue [] = [] := rfl

/-- The parsed form of a written file. -/
def writtenCfg (settings : Settings rooms) : Dict Bytes Bytes :=
  Dict.writes [] (writtenEntries settings)

theorem get?_writtenCfg (settings : Settings rooms) (key : Bytes) :
    (writtenCfg settings).get? key =
      Dict.lastWrite (writtenEntries settings) key := by
  simp [writtenCfg, Dict.get?_writes]

/-- The values of one port, as the written assignments decide them. -/
theorem getValue_port (settings : Settings rooms) (port : Fin 4) (suffix : Bytes) :
    getValue (writtenCfg settings) (portKey port suffix) =
      (Dict.lastWrite ((portAssignments settings port).map readEntry)
        (portKey port suffix)).getD [] := by
  rw [getValue, get?_writtenCfg, lastWrite_portKey]

section Port

variable (settings : Settings rooms) (port : Fin 4)

/-- The suffixes under which a pak's two paths may be written. -/
def pakSuffixes : List Bytes :=
  [bytesOf "_rom", bytesOf "_rom_off", bytesOf "_save", bytesOf "_save_off"]

/-- A pak key holds the path last written under it. -/
theorem getValue_pak : ∀ suffix ∈ pakSuffixes,
    getValue (writtenCfg settings) (portKey port suffix) =
      if (settings.tpakRomPath port).bytes = [] then []
      else if saveSuffix (settings.tpakEnabled port) = suffix then
        readValue (settings.tpakSavePath port).bytes
      else if romSuffix (settings.tpakEnabled port) = suffix then
        readValue (settings.tpakRomPath port).bytes
      else [] := by
  intro suffix member
  have keys : bytesOf "_enabled" ≠ suffix ∧ bytesOf "_device" ≠ suffix ∧
      bytesOf "_tpak" ≠ suffix := by
    revert suffix
    decide
  have distinct : romSuffix (settings.tpakEnabled port) ≠
      saveSuffix (settings.tpakEnabled port) := by
    unfold romSuffix saveSuffix
    split <;> decide
  rw [getValue_port]
  unfold portAssignments pakAssignments
  by_cases rom : (settings.tpakRomPath port).bytes = []
  · simp [rom, Dict.lastWrite, readEntry, portKey_inj, keys]
  by_cases save : (settings.tpakSavePath port).bytes = [] <;>
  by_cases isSave : saveSuffix (settings.tpakEnabled port) = suffix <;>
  by_cases isRom : romSuffix (settings.tpakEnabled port) = suffix
  -- A suffix cannot be both; otherwise the later assignments miss the key.
  all_goals first
    | exact absurd (isRom.trans isSave.symm) distinct
    | simp [rom, save, keys, isSave, isRom, Dict.lastWrite, readEntry, portKey_inj]

/-- The pak a port loads from its written assignments. -/
theorem loadPak_writtenCfg : loadPak rooms (writtenCfg settings) port =
    if readValue (settings.tpakRomPath port).bytes ≠ [] then
      ⟨FixedString.setStr (readValue (settings.tpakRomPath port).bytes),
        FixedString.setStr (readValue (settings.tpakSavePath port).bytes),
        if settings.tpakEnabled port ≥ 0 then 1 else -1⟩
    else ⟨FixedString.empty, FixedString.empty, 0⟩ := by
  have pak := getValue_pak settings port
  have rom := pak (bytesOf "_rom") (by decide)
  have romOff := pak (bytesOf "_rom_off") (by decide)
  have save := pak (bytesOf "_save") (by decide)
  have saveOff := pak (bytesOf "_save_off") (by decide)
  have suffixes : bytesOf "_save" ≠ bytesOf "_rom" ∧ bytesOf "_save" ≠ bytesOf "_rom_off" ∧
      bytesOf "_save_off" ≠ bytesOf "_rom" ∧ bytesOf "_save_off" ≠ bytesOf "_rom_off" ∧
      bytesOf "_rom_off" ≠ bytesOf "_rom" ∧ bytesOf "_rom" ≠ bytesOf "_rom_off" := by
    decide
  unfold loadPak
  rw [rom, romOff, save, saveOff]
  by_cases noRom : (settings.tpakRomPath port).bytes = []
  · simp [noRom]
  by_cases enabled : settings.tpakEnabled port ≥ 0
  · simp [noRom, enabled, romSuffix, saveSuffix, suffixes]
  · simp [noRom, enabled, romSuffix, saveSuffix, suffixes]

end Port

/-! ## The global settings -/

section Globals

variable (settings : Settings rooms)

theorem get?_global (key value : Bytes)
    (member : (key, value) ∈ globalAssignments settings) :
    (writtenCfg settings).get? key = some (readValue value) := by
  have keys := globalAssignments_keys settings
  have listed : key ∈ globalKeys := by
    rw [← keys]
    exact List.mem_map.mpr ⟨(key, value), member, rfl⟩
  have distinct : Dict.Distinct ((globalAssignments settings).map readEntry) := by
    unfold Dict.Distinct
    rw [List.map_map]
    change ((globalAssignments settings).map Prod.fst).Nodup
    rw [keys]
    decide
  rw [get?_writtenCfg, lastWrite_globalKey settings listed]
  have read : (key, readValue value) ∈ (globalAssignments settings).map readEntry :=
    List.mem_map.mpr ⟨(key, value), member, rfl⟩
  exact Dict.lastWrite_of_mem distinct read

theorem get?_device (port : Fin 4) :
    (writtenCfg settings).get? (portKey port (bytesOf "_device")) =
      some (readValue (srcDigit (settings.playerSrc port))) := by
  have keys : bytesOf "_enabled" ≠ bytesOf "_device" ∧
      bytesOf "_tpak" ≠ bytesOf "_device" ∧
      romSuffix (settings.tpakEnabled port) ≠ bytesOf "_device" ∧
      saveSuffix (settings.tpakEnabled port) ≠ bytesOf "_device" := by
    unfold romSuffix saveSuffix
    split <;> decide
  rw [get?_writtenCfg, lastWrite_portKey]
  unfold portAssignments pakAssignments
  split
  · split <;> simp [Dict.lastWrite, readEntry, portKey_inj, keys]
  · simp [Dict.lastWrite, readEntry]

theorem clampSrc_cases (src : Int) :
    clampSrc src = 0 ∨ clampSrc src = 1 ∨ clampSrc src = 2 := by
  unfold clampSrc
  simp only
  omega

theorem deviceOf_srcDigit (src : Int) : deviceOf (readValue (srcDigit src)) = clampSrc src := by
  unfold srcDigit
  rcases clampSrc_cases src with zero | one | two
  · rw [zero]
    decide
  · rw [one]
    decide
  · rw [two]
    decide

end Globals

theorem rendererOf_apiOption (renderer : Int) : rendererOf (readValue (apiOption renderer)) =
    if renderer = 1 then 1 else if renderer = 2 then 2 else 0 := by
  unfold apiOption
  split
  · decide
  · split <;> decide

theorem supersamplingOf_option (supersampling : Int) :
    supersamplingOf (readValue (supersamplingOption supersampling)) =
      if supersampling ≤ 1 then 1 else if supersampling ≥ 4 then 4 else 2 := by
  unfold supersamplingOption
  split
  · decide
  · split <;> decide

theorem antialiasingOf_option (antialiasing : Int) :
    antialiasingOf (readValue (antialiasingOption antialiasing)) =
      if antialiasing = 0 then 0 else if antialiasing = 2 then 2
      else if antialiasing = 8 then 8 else 4 := by
  unfold antialiasingOption
  split
  · decide
  · split
    · decide
    · split <;> decide

theorem parseBool_onOff (flag : Bool) : parseBool (readValue (onOff flag)) false = flag := by
  cases flag <;> decide

theorem loadFullscreen_writtenCfg (settings : Settings rooms) :
    loadFullscreen (writtenCfg settings) = if settings.fullscreen ≠ 0 then 1 else 0 := by
  have window := get?_global settings (bytesOf "window_mode")
    (windowOption settings.fullscreen) (by simp [globalAssignments])
  unfold loadFullscreen
  rw [window]
  simp only [windowOption]
  split <;> decide

/-! ## The round trip -/

theorem onOff_oneLine (flag : Bool) : 0x0A ∉ onOff flag := by
  cases flag <;> decide

theorem srcDigit_oneLine (src : Int) : 0x0A ∉ srcDigit src := by
  unfold srcDigit
  rcases clampSrc_cases src with zero | one | two
  · rw [zero]
    decide
  · rw [one]
    decide
  · rw [two]
    decide

theorem portAssignments_oneLine {settings : Settings rooms}
    (strings : settings.OneLineStrings) {port : Fin 4} {entry : Bytes × Bytes}
    (member : entry ∈ portAssignments settings port) : 0x0A ∉ entry.2 := by
  simp only [portAssignments, pakAssignments, List.mem_append, List.mem_cons,
    List.not_mem_nil, or_false] at member
  rcases member with (rfl | rfl) | member
  · exact onOff_oneLine _
  · exact srcDigit_oneLine _
  · split at member
    · simp only [List.mem_append, List.mem_cons, List.not_mem_nil, or_false] at member
      rcases member with (rfl | member) | rfl
      · exact strings.rom port
      · split at member
        · rw [List.mem_singleton] at member
          rw [member]
          exact strings.save port
        · simp at member
      · exact onOff_oneLine _
    · simp at member

theorem globalAssignments_oneLine {settings : Settings rooms}
    (strings : settings.OneLineStrings) {entry : Bytes × Bytes}
    (member : entry ∈ globalAssignments settings) : 0x0A ∉ entry.2 := by
  simp only [globalAssignments, List.mem_cons, List.not_mem_nil, or_false] at member
  rcases member with rfl | rfl | rfl | rfl | rfl | rfl
  · simp only [apiOption]
    split
    · decide
    · split <;> decide
  · simp only [supersamplingOption]
    split
    · decide
    · split <;> decide
  · simp only [antialiasingOption]
    split
    · decide
    · split
      · decide
      · split <;> decide
  · simp only [windowOption]
    split <;> decide
  · exact strings.device
  · exact onOff_oneLine _

/-- No written line contains a newline. -/
theorem cfgLines_oneLine {settings : Settings rooms} (strings : settings.OneLineStrings) :
    ∀ line ∈ cfgLines settings, Text.OneLine isNewline line := by
  have ofNotMem : ∀ {line : Bytes}, 0x0A ∉ line → Text.OneLine isNewline line := by
    intro line absent byte member
    have different : byte ≠ 0x0A := fun same => absent (same ▸ member)
    simpa [isNewline] using different
  have ofEntry : ∀ {entry : Bytes × Bytes}, PlainKey entry.1 → 0x0A ∉ entry.2 →
      Text.OneLine isNewline (entryLine entry) := by
    intro entry plain value
    apply ofNotMem
    simp only [entryLine, assignment, List.mem_append, List.mem_cons, not_or]
    refine ⟨?_, by decide, value⟩
    intro inKey
    have blank := (plain.plain 0x0A inKey).1
    revert blank
    decide
  intro line member
  unfold cfgLines at member
  rw [List.mem_append, List.mem_append] at member
  rcases member with (header | ports) | globals
  · exact ofNotMem (comments_plain line (List.mem_append_left _ header)).2
  · obtain ⟨port, _, inPort⟩ := List.mem_flatMap.mp ports
    obtain ⟨entry, listed, rfl⟩ := List.mem_map.mp inPort
    exact ofEntry (portAssignments_plain listed) (portAssignments_oneLine strings listed)
  · obtain ⟨⟨comment, entry⟩, listed, inLine⟩ := List.mem_flatMap.mp globals
    obtain ⟨isComment, isEntry⟩ := List.of_mem_zip listed
    simp only [List.mem_cons, List.not_mem_nil, or_false] at inLine
    rcases inLine with rfl | rfl
    · exact ofNotMem (comments_plain _ (List.mem_append_right _ isComment)).2
    · exact ofEntry (globalAssignments_plain isEntry)
        (globalAssignments_oneLine strings isEntry)

/-- Reading a written file parses back the written assignments. -/
theorem readCfgMap_writeSettingsToCfg {settings : Settings rooms}
    (strings : settings.OneLineStrings) :
    readCfgMap (writeSettingsToCfg settings) = writtenCfg settings := by
  have lines : Text.linesBy isNewline (writeSettingsToCfg settings) = cfgLines settings :=
    Text.linesBy_unlines rfl (cfgLines settings) (cfgLines_oneLine strings)
  unfold readCfgMap cfgEntries writtenCfg
  rw [lines, cfgLines_entries]

/-- A buffer comes back exactly when its string is plain. -/
theorem setStr_readValue_iff {room : Nat} (value : FixedString room) :
    FixedString.setStr (readValue value.bytes) = value ↔ PlainValue value.bytes := by
  have shorter := (readValue_sublist value.bytes).length_le
  have noNul : 0 ∉ readValue value.bytes := fun member =>
    value.noNul ((readValue_sublist value.bytes).subset member)
  rw [FixedString.setStr_eq_iff value shorter noNul, readValue_eq_self_iff]

/-- A pak comes back as its normal form exactly when both paths are plain. -/
theorem loadPak_eq_normal_iff (settings : Settings rooms) (port : Fin 4) :
    loadPak rooms (writtenCfg settings) port = settings.pak port ↔
      ((settings.tpakRomPath port).bytes ≠ [] →
        PlainValue (settings.tpakRomPath port).bytes ∧
        PlainValue (settings.tpakSavePath port).bytes) := by
  rw [loadPak_writtenCfg]
  unfold Settings.pak normalPak
  by_cases noRom : (settings.tpakRomPath port).bytes = []
  · simp [noRom]
  rw [if_pos noRom]
  simp only [noRom, ne_eq, not_false_eq_true, true_implies]
  by_cases lost : readValue (settings.tpakRomPath port).bytes = []
  · -- The whole path was cut away, so the port loads as empty.
    rw [if_neg (not_not.mpr lost)]
    constructor
    · intro same
      have romEq : FixedString.empty = settings.tpakRomPath port := by
        injection same
      exact absurd (congrArg FixedString.bytes romEq).symm noRom
    · intro ⟨plain, _⟩
      rw [(readValue_eq_self_iff _).mpr plain] at lost
      exact absurd lost noRom
  · rw [if_pos lost, PortPak.mk.injEq, setStr_readValue_iff, setStr_readValue_iff]
    simp

/-- The strings that `launcher.cfg` keeps: neither comment marks nor blanks at
an end, in every used path and in the device name. -/
structure Settings.PlainStrings (settings : Settings rooms) : Prop where
  paks : ∀ port, (settings.tpakRomPath port).bytes ≠ [] →
    PlainValue (settings.tpakRomPath port).bytes ∧
    PlainValue (settings.tpakSavePath port).bytes
  device : PlainValue settings.audioDevice.bytes

/-- Everything but the paths and the device name comes back as its normal
form. -/
theorem settingsOfCfg_writtenCfg (settings : Settings rooms) :
    settingsOfCfg rooms (writtenCfg settings) =
      { settings.normalise with
        tpakRomPath := fun port => (loadPak rooms (writtenCfg settings) port).rom
        tpakSavePath := fun port => (loadPak rooms (writtenCfg settings) port).save
        tpakEnabled := fun port => (loadPak rooms (writtenCfg settings) port).enabled
        audioDevice := FixedString.setStr (readValue settings.audioDevice.bytes) } := by
  have renderer := get?_global settings (bytesOf "graphics_api")
    (apiOption settings.renderer) (by simp [globalAssignments])
  have supersampling := get?_global settings (bytesOf "supersampling")
    (supersamplingOption settings.supersampling) (by simp [globalAssignments])
  have antialiasing := get?_global settings (bytesOf "antialiasing")
    (antialiasingOption settings.antialiasing) (by simp [globalAssignments])
  have device := get?_global settings (bytesOf "audio_device") settings.audioDevice.bytes
    (by simp [globalAssignments])
  have autoplay := get?_global settings (bytesOf "autoplay")
    (onOff (settings.skipLauncher ≠ 0)) (by simp [globalAssignments])
  have sources : loadPlayerSrc (writtenCfg settings) =
      fun port => clampSrc (settings.playerSrc port) := by
    funext port
    unfold loadPlayerSrc
    rw [get?_device]
    exact deviceOf_srcDigit _
  unfold settingsOfCfg Settings.normalise
  rw [renderer, supersampling, antialiasing, device, autoplay, sources,
    loadFullscreen_writtenCfg]
  simp [rendererOf_apiOption, supersamplingOf_option, antialiasingOf_option,
    parseBool_onOff]

/-- Every record of one-line strings comes back as its normal form exactly when
its used strings are plain. -/
theorem settings_roundTrip_iff (settings : Settings rooms)
    (strings : settings.OneLineStrings) :
    loadCfgIntoSettings rooms (some (writeSettingsToCfg settings)) = settings.normalise ↔
      settings.PlainStrings := by
  have loaded : loadCfgIntoSettings rooms (some (writeSettingsToCfg settings)) =
      settingsOfCfg rooms (writtenCfg settings) := by
    rw [← readCfgMap_writeSettingsToCfg strings]
    rfl
  rw [loaded, settingsOfCfg_writtenCfg]
  constructor
  · intro same
    have roms := congrArg Settings.tpakRomPath same
    have saves := congrArg Settings.tpakSavePath same
    have enabled := congrArg Settings.tpakEnabled same
    constructor
    · intro port
      rw [← loadPak_eq_normal_iff]
      exact PortPak.ext (congrFun roms port) (congrFun saves port) (congrFun enabled port)
    · exact (setStr_readValue_iff _).mp (congrArg Settings.audioDevice same)
  · intro ⟨paks, device⟩
    have same := fun port => (loadPak_eq_normal_iff settings port).mpr (paks port)
    have audio := (setStr_readValue_iff settings.audioDevice).mpr device
    simp only [same, audio]
    rfl

instance (value : Bytes) : Decidable (PlainValue value) :=
  decidable_of_iff (readValue value = value) (readValue_eq_self_iff value)

/-- Default settings with one cartridge in the first port. -/
def oneCartridge (path : Bytes) : Settings ⟨64, 64, 64⟩ :=
  { Settings.defaults ⟨64, 64, 64⟩ with
    tpakRomPath := fun port =>
      if port = 0 then FixedString.setStr path else FixedString.empty }

theorem settings_roundTrip_iff_example :
    loadCfgIntoSettings ⟨64, 64, 64⟩
        (some (writeSettingsToCfg (oneCartridge (bytesOf "/roms/Red 1.gb")))) =
      (oneCartridge (bytesOf "/roms/Red 1.gb")).normalise :=
  (settings_roundTrip_iff (oneCartridge (bytesOf "/roms/Red 1.gb"))
    ⟨by decide, by decide, by decide⟩).mpr ⟨by decide, by decide⟩

/-- A file name may contain a comment mark; the path is cut there and another
file is loaded. -/
theorem settings_roundTrip_loses_path :
    (oneCartridge (bytesOf "/roms/Red #1.gb")).OneLineStrings ∧
    ((loadCfgIntoSettings ⟨64, 64, 64⟩ (some (writeSettingsToCfg
      (oneCartridge (bytesOf "/roms/Red #1.gb"))))).tpakRomPath 0).bytes =
        bytesOf "/roms/Red" ∧
    loadCfgIntoSettings ⟨64, 64, 64⟩ (some (writeSettingsToCfg
        (oneCartridge (bytesOf "/roms/Red #1.gb")))) ≠
      (oneCartridge (bytesOf "/roms/Red #1.gb")).normalise := by
  have strings : (oneCartridge (bytesOf "/roms/Red #1.gb")).OneLineStrings :=
    ⟨by decide, by decide, by decide⟩
  have path : ((loadCfgIntoSettings ⟨64, 64, 64⟩ (some (writeSettingsToCfg
      (oneCartridge (bytesOf "/roms/Red #1.gb"))))).tpakRomPath 0).bytes =
        bytesOf "/roms/Red" := by
    simp only [loadCfgIntoSettings, readCfgMap_writeSettingsToCfg strings, settingsOfCfg,
      loadPak_writtenCfg]
    decide
  refine ⟨strings, path, ?_⟩
  intro same
  rw [same] at path
  revert path
  decide

end StadiumRecomp.Launcher
