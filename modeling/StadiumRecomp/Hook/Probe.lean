import StadiumRecomp.Hook.World

/-!
Contract: `pkmnstadium_textdraw_probe`, the census at every traced function entry.

Owns: which calls are recorded in the inventory, which addresses join the set, and the
locks taken on the way.

Does not own: the sampled call table of the census report.
-/

set_option autoImplicit false

namespace StadiumRecomp.Hook

open StadiumRecomp.Lib
open StadiumRecomp.Guest
open StadiumRecomp.Census

/-- `strinv_upsert` under its lock. -/
def upsertString (world : World) (call : UpsertCall) : World :=
  if call.bytes = [] then world
  else
    let world := world.lock .strinv
    let world := { world with inventory := strinvUpsert world.inventory call }
    world.unlock .strinv

/-- A string found for a text routine: inventoried, and the routine joins the set. -/
def recordText (world : World) (pc : UInt32) (text : Bytes) (a0 a1 : UInt32) : World :=
  let world := upsertString world ⟨text, a0.toUInt16, a1.toUInt16⟩
  { world with textPcs := textpcAdd world.textPcs pc }

/-- `pkmnstadium_textdraw_probe`. -/
def textdrawProbe (env : Env) (world : World) (name : Option Bytes) (a0 a1 a2 : UInt32) : World :=
  let pc := parseFunPc env.longBits name
  if pc = kPrintfPC then
    match readTextArg world.rdram a2 with
    | some text => recordText world pc text a0 a1
    | none => world
  else if a0 ≥ 0x1000 ∨ a1 ≥ 0x1000 then world
  else
    match readTextArg world.rdram a2 with
    | none => world
    | some text =>
        let world := recordText world pc text a0 a1
        -- the sample of the call goes into `g_textcand`
        (world.lock .textcand).unlock .textcand

end StadiumRecomp.Hook
