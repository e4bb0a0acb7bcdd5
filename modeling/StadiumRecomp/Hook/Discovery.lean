import StadiumRecomp.Hook.World

/-!
Contract: `xlate_discovery`, the developer's search for text conventions.

Owns: the watched strings, the sources it looks at, what it finds and what of it is
written to the log.

Does not own: the log file, which is assumed to open.
-/

set_option autoImplicit false

namespace StadiumRecomp.Hook

open StadiumRecomp.Lib
open StadiumRecomp.Guest
open StadiumRecomp.Translate

/-- `g_watch`. -/
def watchStrings : List Bytes :=
  [[0xA5, 0xC8, 0xA5, 0xEC, 0xA1, 0xBC, 0xA5, 0xCA, 0xA1, 0xBC],
    [0xA4, 0xE2, 0xA4, 0xC9, 0xA4, 0xEB],
    [0xA4, 0xAB, 0xA4, 0xAF, 0xA4, 0xCB, 0xA4, 0xF3],
    [0xA4, 0xB8, 0xA4, 0xE1, 0xA4, 0xF3],
    [0xA5, 0xCE, 0xA1, 0xBC, 0xA5, 0xDE, 0xA5, 0xEB],
    [0xA4, 0xBF, 0xA4, 0xCD, 0xA5, 0xDD, 0xA5, 0xB1, 0xA5, 0xE2, 0xA5, 0xF3]]

/-- `srcs`: argument, temporary and saved registers, and stack slots. -/
def discoverySources (rdram : Rdram) (ctx : Context) : List UInt32 :=
  ([4, 5, 6, 7, 8, 9, 2, 3, 16, 17, 18, 19] : List (Fin 32)).map ctx.reg ++
    [0x10, 0x14, 0x18, 0x1C, 0x20, 0x24, 0x28, 0x2C].map
      (fun offset => readU32 rdram (ctx.sp + offset))

/-- `k` of a watched string. -/
def watchKey (pc : UInt32) (watch source : Nat) : UInt64 :=
  (pc.toUInt64 <<< 8) ||| (UInt64.ofNat watch <<< 4) ||| UInt64.ofNat source

/-- `k` of a long text. -/
def longTextKey (pc : UInt32) (source : Nat) : UInt64 :=
  (0x4000000000000000 : UInt64) ||| (pc.toUInt64 <<< 4) ||| UInt64.ofNat source

/-- `k` of a logged argument. -/
def pcLogKey (pc : UInt32) (source : Nat) (hash : UInt64) : UInt64 :=
  (0x6000000000000000 : UInt64) ^^^ (pc.toUInt64 <<< 4) ^^^ UInt64.ofNat source ^^^ (hash <<< 8)

def watchFindings (rdram : Rdram) (ctx : Context) (pc : UInt32) :
    List (UInt64 × DiscoveryLine) :=
  watchStrings.zipIdx.flatMap fun watch =>
    (discoverySources rdram ctx).zipIdx.filterMap fun source =>
      if guestPrefixEq rdram source.1 watch.1 then
        some (watchKey pc watch.2 source.2,
          .watch watch.2 pc source.2 ([4, 5, 6, 7, 29, 31].map ctx.reg))
      else none

def longTextFindings (rdram : Rdram) (ctx : Context) (pc : UInt32) :
    List (UInt64 × DiscoveryLine) :=
  (discoverySources rdram ctx).zipIdx.filterMap fun source =>
    (readTextArg rdram source.1).bind fun text =>
      if text.length < 24 then none
      else some (longTextKey pc source.2, .longText pc source.2 (ctx.reg 31) text)

def pcLogFindings (rdram : Rdram) (ctx : Context) (pc : UInt32) :
    List (UInt64 × DiscoveryLine) :=
  (([4, 5, 6, 7] : List (Fin 32)).map ctx.reg).zipIdx.filterMap fun source =>
    (readTextArg rdram source.1).map fun text =>
      (pcLogKey pc source.2 (pmsFnv1a text), .pcLog pc source.2 source.1 (ctx.reg 31) text)

/-- One finding, under `g_disc_mtx`: logged unless its key is in the list, which keeps
the first 128. -/
def Discovery.find (discovery : Discovery) (finding : UInt64 × DiscoveryLine) : Discovery :=
  if discovery.seen.contains finding.1 then discovery
  else
    { discovery with
      seen := if discovery.seen.length < 128 then discovery.seen ++ [finding.1]
        else discovery.seen
      log := discovery.log ++ [finding.2] }

def recordFinding (world : World) (finding : UInt64 × DiscoveryLine) : World :=
  let world := world.lock .disc
  let world := { world with discovery := world.discovery.find finding }
  world.unlock .disc

/-- The registers and font state at the first category draw. -/
def dumpRegisters (world : World) (ctx : Context) : World :=
  if world.discovery.dumped then world
  else
    let st := readU32 world.rdram 0x800AD200
    let registers := ([4, 5, 6, 7, 8, 9, 16, 17, 18, 19, 20, 21, 29] : List (Fin 32)).map ctx.reg
    let bytes := (List.range 0x40).map (fun o => guestRb world.rdram (st + UInt32.ofNat o))
    { world with discovery :=
        { world.discovery with
          dumped := true
          log := world.discovery.log ++ [.regDump registers, .fontState st bytes] } }

/-- `xlate_discovery`. -/
def xlateDiscovery (world : World) (ctx : Context) (pc : UInt32) : World :=
  let rdram := world.rdram
  let world := (watchFindings rdram ctx pc ++ longTextFindings rdram ctx pc).foldl
    recordFinding world
  if pc = 0x80055CE0 ∨ pc = 0x8001A920 ∨ pc = 0x8001AC3C then
    let world := (pcLogFindings rdram ctx pc).foldl recordFinding world
    if pc = 0x8001AC3C then dumpRegisters world ctx else world
  else world

end StadiumRecomp.Hook
