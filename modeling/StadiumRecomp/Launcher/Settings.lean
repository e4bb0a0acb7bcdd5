import StadiumRecomp.Launcher.Config

/-!
Contract: the launcher settings record and its two config functions in
`pmsj_launcher_main.cpp`.

Owns: the fields of the record these functions touch, `load_cfg_into_settings`
and `write_settings_to_cfg`.

Does not own: the record's declaration, which comes from the launcher library;
the sizes of its string buffers are parameters. A file that cannot be opened for
writing is outside the model.
-/

set_option autoImplicit false

namespace StadiumRecomp.Launcher

open StadiumRecomp.Lib
open StadiumRecomp.Lib.CString

/-- Usable bytes of the three kinds of string buffer. -/
structure Rooms where
  romPath : Nat
  savePath : Nat
  audioDevice : Nat

/-- The touched fields of `RecompLauncherCSettings`. -/
@[ext] structure Settings (rooms : Rooms) where
  enableAudio : Int
  audioFreq : Int
  volume : Int
  outputMethod : Int
  windowScale : Int
  renderer : Int
  supersampling : Int
  antialiasing : Int
  fullscreen : Int
  skipLauncher : Int
  playerSrc : Fin 4 → Int
  tpakRomPath : Fin 4 → FixedString rooms.romPath
  tpakSavePath : Fin 4 → FixedString rooms.savePath
  tpakEnabled : Fin 4 → Int
  audioDevice : FixedString rooms.audioDevice

variable {rooms : Rooms}

/-- The record after the `memset` and the built-in defaults. -/
def Settings.defaults (rooms : Rooms) : Settings rooms where
  enableAudio := 1
  audioFreq := 48000
  volume := 100
  outputMethod := 2
  windowScale := 3
  renderer := 0
  supersampling := 2
  antialiasing := 4
  fullscreen := 0
  skipLauncher := 0
  playerSrc := fun _ => 0
  tpakRomPath := fun _ => FixedString.empty
  tpakSavePath := fun _ => FixedString.empty
  tpakEnabled := fun _ => 0
  audioDevice := FixedString.empty

/-! ## Loading -/

/-- `get`: a missing key reads as the empty string. -/
def getValue (cfg : Dict Bytes Bytes) (key : Bytes) : Bytes := (cfg.get? key).getD []

/-- A port's Transfer Pak fields. -/
@[ext] structure PortPak (rooms : Rooms) where
  rom : FixedString rooms.romPath
  save : FixedString rooms.savePath
  enabled : Int

/-- The input source of a port: `0` None, `1` Keyboard, `2` gamepad. -/
def deviceOf (value : Bytes) : Int :=
  let dev := atoi value
  if dev ≤ 0 then 0 else if dev = 1 then 1 else 2

def loadPlayerSrc (cfg : Dict Bytes Bytes) (port : Fin 4) : Int :=
  match cfg.get? (portKey port (bytesOf "_device")) with
  | some value => deviceOf value
  | none => 0

/-- An enabled pak is under `pN_rom`, one toggled off under `pN_rom_off`. -/
def loadPak (rooms : Rooms) (cfg : Dict Bytes Bytes) (port : Fin 4) : PortPak rooms :=
  let rom := getValue cfg (portKey port (bytesOf "_rom"))
  if rom ≠ [] then
    ⟨FixedString.setStr rom,
      FixedString.setStr (getValue cfg (portKey port (bytesOf "_save"))), 1⟩
  else
    let romOff := getValue cfg (portKey port (bytesOf "_rom_off"))
    if romOff ≠ [] then
      ⟨FixedString.setStr romOff,
        FixedString.setStr (getValue cfg (portKey port (bytesOf "_save_off"))), -1⟩
    else ⟨FixedString.empty, FixedString.empty, 0⟩

def rendererOf (value : Bytes) : Int :=
  let word := toLowerStr value
  if word = bytesOf "vulkan" then 1 else if word = bytesOf "d3d12" then 2 else 0

def supersamplingOf (value : Bytes) : Int :=
  let word := toLowerStr value
  if word = bytesOf "off" then 1 else if word = bytesOf "4x" then 4 else 2

def antialiasingOf (value : Bytes) : Int :=
  let word := toLowerStr value
  if word = bytesOf "off" then 0 else if word = bytesOf "2x" then 2
  else if word = bytesOf "8x" then 8 else 4

/-- `window_mode`, or the older `fullscreen` key when it is absent. -/
def loadFullscreen (cfg : Dict Bytes Bytes) : Int :=
  match cfg.get? (bytesOf "window_mode") with
  | some value => if toLowerStr value = bytesOf "fullscreen" then 1 else 0
  | none =>
      match cfg.get? (bytesOf "fullscreen") with
      | some value => if parseBool value false then 1 else 0
      | none => 0

/-- The settings a parsed file gives. -/
def settingsOfCfg (rooms : Rooms) (cfg : Dict Bytes Bytes) : Settings rooms :=
  { Settings.defaults rooms with
    playerSrc := loadPlayerSrc cfg
    tpakRomPath := fun port => (loadPak rooms cfg port).rom
    tpakSavePath := fun port => (loadPak rooms cfg port).save
    tpakEnabled := fun port => (loadPak rooms cfg port).enabled
    renderer := ((cfg.get? (bytesOf "graphics_api")).map rendererOf).getD 0
    supersampling := ((cfg.get? (bytesOf "supersampling")).map supersamplingOf).getD 2
    antialiasing := ((cfg.get? (bytesOf "antialiasing")).map antialiasingOf).getD 4
    fullscreen := loadFullscreen cfg
    audioDevice :=
      ((cfg.get? (bytesOf "audio_device")).map FixedString.setStr).getD FixedString.empty
    skipLauncher :=
      match cfg.get? (bytesOf "autoplay") with
      | some value => if parseBool value false then 1 else 0
      | none => 0 }

/-- `load_cfg_into_settings`; `none` is a first run without the file. -/
def loadCfgIntoSettings (rooms : Rooms) : Option Bytes → Settings rooms
  | none =>
      { Settings.defaults rooms with playerSrc := fun port => if port = 0 then 1 else 0 }
  | some file => settingsOfCfg rooms (readCfgMap file)

/-! ## Writing -/

/-- `player_src` clamped to `0..2`. -/
def clampSrc (src : Int) : Int :=
  let src := if src < 0 then 0 else src
  if src > 2 then 2 else src

def onOff (flag : Bool) : Bytes := if flag then bytesOf "on" else bytesOf "off"

/-- A clamped source is one digit. -/
def srcDigit (src : Int) : Bytes := [UInt8.ofNat (0x30 + (clampSrc src).toNat)]

/-- The key suffixes of an enabled pak and of one toggled off. -/
def romSuffix (enabled : Int) : Bytes :=
  if enabled ≥ 0 then bytesOf "_rom" else bytesOf "_rom_off"

def saveSuffix (enabled : Int) : Bytes :=
  if enabled ≥ 0 then bytesOf "_save" else bytesOf "_save_off"

/-- The assignments written for a port with a cartridge. -/
def pakAssignments (port : Fin 4) (rom save : Bytes) (enabled : Int) :
    List (Bytes × Bytes) :=
  if rom ≠ [] then
    (portKey port (romSuffix enabled), rom) ::
      (if save ≠ [] then [(portKey port (saveSuffix enabled), save)] else []) ++
      [(portKey port (bytesOf "_tpak"), onOff (enabled ≥ 0))]
  else []

/-- The assignments written for one port. -/
def portAssignments (settings : Settings rooms) (port : Fin 4) :
    List (Bytes × Bytes) :=
  [(portKey port (bytesOf "_enabled"), onOff (clampSrc (settings.playerSrc port) ≠ 0)),
    (portKey port (bytesOf "_device"), srcDigit (settings.playerSrc port))] ++
  pakAssignments port (settings.tpakRomPath port).bytes
    (settings.tpakSavePath port).bytes (settings.tpakEnabled port)

def apiOption (renderer : Int) : Bytes :=
  if renderer = 1 then bytesOf "vulkan" else if renderer = 2 then bytesOf "d3d12"
  else bytesOf "auto"

def supersamplingOption (supersampling : Int) : Bytes :=
  if supersampling ≤ 1 then bytesOf "off" else if supersampling ≥ 4 then bytesOf "4x"
  else bytesOf "2x"

def antialiasingOption (antialiasing : Int) : Bytes :=
  if antialiasing = 0 then bytesOf "off" else if antialiasing = 2 then bytesOf "2x"
  else if antialiasing = 8 then bytesOf "8x" else bytesOf "4x"

def windowOption (fullscreen : Int) : Bytes :=
  if fullscreen ≠ 0 then bytesOf "fullscreen" else bytesOf "windowed"

/-- The comment lines at the top of the file. -/
def headerLines : List Bytes :=
  [bytesOf "# PocketMonstersStadiumRecomp launcher configuration - managed by the launcher.",
    bytesOf "# pN_device : input source for player N (0=None, 1=Keyboard, 2=Gamepad).",
    bytesOf "# pN_enabled: whether player N is active (mirrors pN_device != None).",
    bytesOf "# pN_rom / pN_save: the Transfer Pak GB cartridge + save for player N.",
    bytesOf "#   A pak toggled off keeps its cart under pN_rom_off/pN_save_off so",
    bytesOf "#   the emulated Transfer Pak (which reads pN_rom) does not load it."]

/-- The comment above each setting after the ports. -/
def globalComments : List Bytes :=
  [bytesOf "# graphics_api=auto|vulkan|d3d12 : render backend.",
    bytesOf "# supersampling=off|2x|4x : 3D supersampling depth.",
    bytesOf "# antialiasing=off|2x|4x|8x : MSAA sample count.",
    bytesOf "# window_mode=windowed|fullscreen : how the game window opens.",
    bytesOf "# audio_device : output device name substring (empty = system default).",
    bytesOf "# autoplay=on|off : skip the launcher next time (recomp-ui skip flag)."]

/-- The settings after the ports. -/
def globalAssignments (settings : Settings rooms) : List (Bytes × Bytes) :=
  [(bytesOf "graphics_api", apiOption settings.renderer),
    (bytesOf "supersampling", supersamplingOption settings.supersampling),
    (bytesOf "antialiasing", antialiasingOption settings.antialiasing),
    (bytesOf "window_mode", windowOption settings.fullscreen),
    (bytesOf "audio_device", settings.audioDevice.bytes),
    (bytesOf "autoplay", onOff (settings.skipLauncher ≠ 0))]

/-- One written assignment line. -/
def entryLine (entry : Bytes × Bytes) : Bytes := assignment entry.1 entry.2

/-- The lines of the written file. -/
def cfgLines (settings : Settings rooms) : List Bytes :=
  headerLines ++
  (List.finRange 4).flatMap (fun port => (portAssignments settings port).map entryLine) ++
  (globalComments.zip (globalAssignments settings)).flatMap
    (fun line => [line.1, entryLine line.2])

/-- `write_settings_to_cfg`: the file written. -/
def writeSettingsToCfg (settings : Settings rooms) : Bytes :=
  Text.unlines 0x0A (cfgLines settings)

end StadiumRecomp.Launcher
