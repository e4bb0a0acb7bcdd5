import StadiumRecomp.Launcher.Settings

/-!
Contract: the two game-side readers of `launcher.cfg`: the Transfer Pak glue
`transfer_pak.cpp` and `port_assignment` in `launcher_cfg.cpp`.

Owns: the glue's own `trim`, `read_config_file`, `port_path`, the carts
`load_config` registers, and the port assignment.

Does not own: the `PSR_TRANSFER_PAK` environment overrides, which are unset
here, the cart model and `nth_gamepad_instance`, which is a parameter.
-/

set_option autoImplicit false

namespace StadiumRecomp.Launcher

open StadiumRecomp.Lib
open StadiumRecomp.Lib.CString

namespace TransferPak

/-! ## Reader -/

/-- The text is enclosed in one pair of matching quotes. -/
def Quoted (text : Bytes) : Prop :=
  2 ≤ text.length ∧
    ((text.head? = some 0x22 ∧ text.getLast? = some 0x22) ∨
      (text.head? = some 0x27 ∧ text.getLast? = some 0x27))

instance (text : Bytes) : Decidable (Quoted text) :=
  inferInstanceAs (Decidable (_ ∧ (_ ∨ _)))

/-- `trim` of `transfer_pak.cpp`: strip white space, then one pair of quotes. -/
def trim (text : Bytes) : Bytes :=
  let text := Text.strip isSpace text
  if Quoted text then (text.drop 1).dropLast else text

/-- The assignment a line makes, if any. -/
def entryOfLine (line : Bytes) : Option (Bytes × Bytes) :=
  let line := trim (Text.cutAt isComment line)
  if line = [] ∨ line.head? = some 0x5B then none
  else
    match Text.splitFirst isEquals line with
    | none => none
    | some (key, value) =>
        let key := toLowerStr (trim key)
        let value := trim value
        if key ≠ [] ∧ value ≠ [] then some (key, value) else none

/-- `read_config_file`. -/
def readConfigFile (file : Bytes) : Dict Bytes Bytes :=
  Dict.writes [] ((Text.linesBy isNewline file).filterMap entryOfLine)

/-! ## Carts -/

/-- A path named in the file, relative to the file's directory unless it is
absolute; `none` is the empty path. -/
abbrev CartPath := Option Bytes

/-- `make_path`. -/
def makePath (value : Bytes) : CartPath := if value = [] then none else some value

/-- `port_path`. -/
def portPath (config : Dict Bytes Bytes) (port : Fin 4) (suffix : Bytes) : CartPath :=
  match config.get? (portKey port suffix) with
  | none => none
  | some value => makePath value

/-- One call of `set_cart`. -/
structure Cart where
  port : Fin 4
  rom : CartPath
  save : CartPath
deriving DecidableEq

/-- `load_config`: the calls of `set_cart`, in order. -/
def loadConfig (file : Bytes) : List Cart :=
  let config := readConfigFile file
  (List.finRange 4).filterMap fun port =>
    let rom := portPath config port (bytesOf "_rom")
    let save := portPath config port (bytesOf "_save")
    if rom ≠ none then some ⟨port, rom, save⟩ else none

end TransferPak

/-! ## Port assignment -/

inductive DeviceKind where
  | none
  | keyboard
  | gamepad
deriving DecidableEq, Repr

/-- `PortAssignment`. -/
structure PortAssignment where
  enabled : Bool
  kind : DeviceKind
  gamepadInstance : Int
deriving DecidableEq, Repr

/-- An enabled pak: `pN_rom` is present and not empty. -/
def tpakOn (cfg : Dict Bytes Bytes) (port : Fin 4) : Bool :=
  match cfg.get? (portKey port (bytesOf "_rom")) with
  | some value => value ≠ []
  | none => false

/-- The raw test of the ordinal loop: the entry is there and its number is at least 2. -/
def gamepadEntry (cfg : Dict Bytes Bytes) (port : Fin 4) : Bool :=
  match cfg.get? (portKey port (bytesOf "_device")) with
  | some value => atoi value ≥ 2
  | none => false

/-- How many gamepad players come before this port. -/
def gamepadOrdinal (cfg : Dict Bytes Bytes) (port : Fin 4) : Nat :=
  ((List.finRange 4).takeWhile (· < port)).foldl
    (fun ordinal earlier => if gamepadEntry cfg earlier then ordinal + 1 else ordinal) 0

/-- `port_assignment` for a valid port. -/
def portAssignment (nthGamepadInstance : Nat → Int) (file : Option Bytes)
    (port : Fin 4) : PortAssignment :=
  match file with
  | none => if port = 0 then ⟨true, .keyboard, -1⟩ else ⟨false, .none, -1⟩
  | some file =>
      let cfg := readCfgMap file
      let src := loadPlayerSrc cfg port
      let enabled := src ≠ 0 ∨ tpakOn cfg port
      if src = 1 then ⟨enabled, .keyboard, -1⟩
      else if src = 2 then
        ⟨enabled, .gamepad, nthGamepadInstance (gamepadOrdinal cfg port)⟩
      else ⟨enabled, .none, -1⟩

end StadiumRecomp.Launcher
