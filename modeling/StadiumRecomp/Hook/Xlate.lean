import StadiumRecomp.Hook.Discovery
import StadiumRecomp.Hook.Render

/-!
Contract: `pkmnstadium_text_xlate`, the translation hook at every traced function entry.

Owns: the reload step, the routing by address, the argument swaps, the composed
single-`%s` formats, and the exit each call takes.

Does not own: drawing, and null pointers for memory or context.
-/

set_option autoImplicit false

namespace StadiumRecomp.Hook

open StadiumRecomp.Lib
open StadiumRecomp.Guest
open StadiumRecomp.Census
open StadiumRecomp.Translate

/-- How a call of the hook ends. -/
inductive Exit where
  /-- The traced function runs as called. -/
  | fallThrough
  /-- A register points at the English. -/
  | swap (register : Fin 32) (en : Bytes)
  /-- The English is drawn. -/
  | render (en : Bytes)
deriving DecidableEq, Repr

structure Result where
  world : World
  ctx : Context
  exit : Exit

/-- A call that ends without a translation. -/
def fallThrough (world : World) (ctx : Context) : Result := ⟨world, ctx, .fallThrough⟩

/-- `self_render_static`, its English as the exit. -/
def renderStatic (env : Env) (glyph : GlyphCode) (world : World) (ctx : Context)
    (src eng : Bytes) (scratch : UInt32) (budgetGlyphs : Int) : Result :=
  let left := selfRenderStatic env glyph world ctx src eng scratch budgetGlyphs
  ⟨left.1, left.2, .render eng⟩

/-! ## Other text routines -/

/-- `fmt-swap` of `r6`. -/
def swapFormat (world : World) (ctx : Context) (scratch : UInt32) (en : Bytes) : Result :=
  match writeGuestStr world.rdram scratch en with
  | none => fallThrough world ctx
  | some rdram => ⟨{ world with rdram }, ctx.setReg 6 scratch, .swap 6 en⟩

/-- `xlate_general`. -/
def xlateGeneral (env : Env) (glyph : GlyphCode) (world : World) (ctx : Context) (pc : UInt32) :
    Result :=
  if !textpcContains world.textPcs pc then fallThrough world ctx
  else
    match readTextArg world.rdram (ctx.reg 6) with
    | none => fallThrough world ctx
    | some src =>
        match findXlate world (pmsFnv1a src) with
        | (world, none) => fallThrough world ctx
        | (world, some v) =>
            if ctx.sp < 0x80000C00 then fallThrough world ctx
            else if v.en.length > 0x300 then fallThrough world ctx
            else
              let scratch := swapScratch ctx.sp (hasPercent v.en)
              if (ctx.reg 4 < 0x1000 ∧ ctx.reg 5 < 0x1000) ∧ !hasPercent v.en then
                renderStatic env glyph world ctx src v.en scratch v.fitW
              else swapFormat world ctx scratch v.en

/-! ## The writeproc -/

/-- The registers after a swap; the count follows the source of the copy. -/
def swapArgument (ctx : Context) (register : Fin 32) (scratch : UInt32) (en : Bytes) : Context :=
  let ctx := ctx.setReg register scratch
  if register = 5 then ctx.setReg 6 (UInt32.ofNat en.length) else ctx

/-- `cand` of `xlate_desc`. -/
def candidates : List (Fin 32) := [7, 4, 5]

/-- The loop of `xlate_desc`. -/
def xlateCandidates (ctx : Context) : List (Fin 32) → World → Result
  | [], world => fallThrough world ctx
  | register :: rest, world =>
      match readTextArg world.rdram (ctx.reg register) with
      | none => xlateCandidates ctx rest world
      | some src =>
          match findXlate world (pmsFnv1a src) with
          | (world, none) => xlateCandidates ctx rest world
          | (world, some v) =>
              if v.en.length > 0x300 then xlateCandidates ctx rest world
              else
                let scratch := swapScratch ctx.sp (hasPercent v.en)
                match writeGuestStr world.rdram scratch v.en with
                | none => xlateCandidates ctx rest world
                | some rdram =>
                    ⟨{ world with rdram }, swapArgument ctx register scratch v.en,
                      .swap register v.en⟩

/-- `xlate_desc`. -/
def xlateDesc (world : World) (ctx : Context) : Result :=
  if ctx.sp < 0x80000C00 then fallThrough world ctx
  else xlateCandidates ctx candidates world

/-! ## The string-draw printf -/

/-- `%s`. -/
def stringSpecifier : Bytes := [percent, 0x73]

/-- `tmpl`: the English of the format, or a bare `%s`. -/
def templateOf (found : Option XlateVal) (src : Bytes) : Bytes :=
  let tmpl := (found.map XlateVal.en).getD []
  if tmpl = [] ∧ src = stringSpecifier then stringSpecifier else tmpl

/-- `p` of a template with `single_s`. -/
def singleS (tmpl : Bytes) : Option Nat :=
  (Search.indexOf? stringSpecifier tmpl).filter fun p =>
    Search.indexOf? [percent] tmpl == some p && !hasPercent (tmpl.drop (p + 2))

/-- The glyphs of an argument, two bytes each from `0x80` on. -/
def argumentGlyphs : Bytes → Nat
  | [] => 0
  | [_] => 1
  | c :: next :: rest =>
      if c ≥ 0x80 then argumentGlyphs rest + 1 else argumentGlyphs (next :: rest) + 1

/-- The glyphs of a format without its `%s`. -/
def templateGlyphs : Bytes → Nat
  | [] => 0
  | [_] => 1
  | c :: next :: rest =>
      if c = percent ∧ next = 0x73 then templateGlyphs rest
      else if c ≥ 0x80 then templateGlyphs rest + 1
      else templateGlyphs (next :: rest) + 1

/-- `cls`: the English of an argument, if that has no `%`. -/
def classifier (found : Option XlateVal) : Bytes :=
  match found with
  | some v => if hasPercent v.en then [] else v.en
  | none => []

/-- The composed English and its budget, for a format with a single `%s` and a translated
argument. -/
def composeSingle (world : World) (ctx : Context) (src : Bytes) : World × Option (Bytes × Nat) :=
  let format := findXlate world (pmsFnv1a src)
  let tmpl := templateOf format.2 src
  match singleS tmpl with
  | none => (format.1, none)
  | some p =>
      match readTextArg format.1.rdram (ctx.reg 7) with
      | none => (format.1, none)
      | some arg =>
          let found := findXlate format.1 (pmsFnv1a arg)
          let cls := classifier found.2
          let full := tmpl.take p ++ cls ++ tmpl.drop (p + 2)
          (found.1, if cls ≠ [] ∧ full.length ≤ 0x300 then
            some (full, argumentGlyphs arg + templateGlyphs src) else none)

/-- The format itself: swapped if its English has a `%`, drawn otherwise. -/
def xlateFormat (env : Env) (glyph : GlyphCode) (world : World) (ctx : Context) (src : Bytes) :
    Result :=
  match findXlate world (pmsFnv1a src) with
  | (world, none) => fallThrough world ctx
  | (world, some v) =>
      if v.en.length > 0x300 then fallThrough world ctx
      else
        let scratch := swapScratch ctx.sp (hasPercent v.en)
        if hasPercent v.en then swapFormat world ctx scratch v.en
        else renderStatic env glyph world ctx src v.en scratch v.fitW

/-- `pkmnstadium_text_xlate` for `kStringDrawPC`. -/
def xlateStringDraw (env : Env) (glyph : GlyphCode) (world : World) (ctx : Context) : Result :=
  let src := readFormat world.rdram (ctx.reg 6)
  if src = [] then fallThrough world ctx
  else if ctx.sp < 0x80000C00 then fallThrough world ctx
  else
    match composeSingle world ctx src with
    | (world, some (full, budget)) =>
        renderStatic env glyph world ctx full full (swapScratch ctx.sp false) budget
    | (world, none) => xlateFormat env glyph world ctx src

/-! ## The hook -/

/-- The addresses a load adds to the set. -/
def seedTextPcs (slots : PcSlots) : PcSlots :=
  textpcAdd (textpcAdd slots kStringDrawPC) kPrintfPC

/-- `maybe_reload_translations` at every 1024th call. -/
def reloadStep (env : Env) (world : World) : World :=
  let calls := world.calls
  let world := { world with calls := calls + 1 }
  if calls &&& 0x3FF = 0 then
    let world := world.lock .xlate
    let world := { world with
      reload := maybeReload world.reload (env.file calls)
      textPcs := if (world.reload.reads (env.file calls)).isSome then seedTextPcs world.textPcs
        else world.textPcs }
    world.unlock .xlate
  else world

/-- The hook behind its reload step, for an address. -/
def xlateArmed (env : Env) (glyph : GlyphCode) (world : World) (ctx : Context) (pc : UInt32) :
    Result :=
  let world := if env.textprobeArmed then xlateDiscovery world ctx pc else world
  if pc = kDescDrawPC then xlateDesc world ctx
  else if pc ≠ kStringDrawPC then xlateGeneral env glyph world ctx pc
  else xlateStringDraw env glyph world ctx

/-- `pkmnstadium_text_xlate`. -/
def textXlate (env : Env) (glyph : GlyphCode) (world : World) (ctx : Context)
    (name : Option Bytes) : Result :=
  let world := world.record (.enterXlate world.xlateActive)
  if world.xlateActive then fallThrough world ctx
  else
    let world := reloadStep env world
    if !world.reload.armed then fallThrough world ctx
    else xlateArmed env glyph world ctx (parseFunPc env.longBits name)

end StadiumRecomp.Hook
