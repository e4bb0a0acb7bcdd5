import StadiumRecomp.Hook.Frame
import StadiumRecomp.Hook.Probe
import StadiumRecomp.Lib.Monitor

/-!
Contract: guest call trees on one thread, every traced function through both hooks.

Owns: the call trees and their run, the discipline of locks and of the blocking flag over
the record of a run, and that every run keeps it.

Does not own: exceptions that leave a guest function.
-/

set_option autoImplicit false

namespace StadiumRecomp.Hook

open StadiumRecomp.Lib
open StadiumRecomp.Lib.Monitor
open StadiumRecomp.Guest
open StadiumRecomp.Census
open StadiumRecomp.Translate

/-! ## Call trees -/

/-- What guest code does on a thread until it returns. -/
inductive CallTree where
  | ret
  /-- Memory, registers and what other threads make of the layer meanwhile; the rest
  depends on them. -/
  | work (step : World → Context → World × Context) (next : World → Context → CallTree)
  /-- A traced function is entered. The glyph routines are what the hook calls there, if
  it draws. -/
  | enter (name : Option Bytes) (glyph : Routine → World → Context → CallTree) (body next : CallTree)

/-- The thread's own flag and record are not the guest's. -/
def World.worked (world : World) (after : World) : World :=
  { after with xlateActive := world.xlateActive, trace := world.trace }

/-- The run of a call tree: `TRACE_ENTRY` stands at the front of every traced function. -/
def CallTree.run (env : Env) : CallTree → World → Context → World × Context
  | .ret, world, ctx => (world, ctx)
  | .work step next, world, ctx =>
      let worked := step world ctx
      (next worked.1 worked.2).run env (world.worked worked.1) worked.2
  | .enter name glyph body next, world, ctx =>
      let world := textdrawProbe env world name (ctx.reg 4) (ctx.reg 5) (ctx.reg 6)
      let hooked := textXlate env
        (fun routine world ctx => (glyph routine world ctx).run env world ctx) world ctx name
      let returned := body.run env hooked.world hooked.ctx
      next.run env returned.1 returned.2

/-! ## The discipline -/

/-- The locks the thread holds, and whether a drawing is under way. -/
structure Status where
  held : List Mutex
  rendering : Bool
deriving DecidableEq, Repr

/-- No lock is taken twice, no drawing starts inside another, and at every call of the
hook its flag tells whether one is under way. -/
def Status.step (status : Status) : Event → Option Status
  | .lock mutex =>
      if mutex ∈ status.held then none else some { status with held := mutex :: status.held }
  | .unlock mutex =>
      if mutex ∈ status.held then some { status with held := status.held.erase mutex } else none
  | .enterXlate active => if active = status.rendering then some status else none
  | .beginRender => if status.rendering then none else some { status with rendering := true }
  | .endRender => if status.rendering then some { status with rendering := false } else none

/-- Between two worlds the record of the thread is accepted, and the flag is right at the
end. -/
structure Goes (first : Status) (before : World) (last : Status) (after : World) : Prop where
  accepted : ∃ events, after.trace = before.trace ++ events ∧ Accepts Status.step first events last
  active : after.xlateActive = last.rendering

/-- Only the lock of the slot metrics is held into guest code, and only while drawing. -/
def Status.Quiet (status : Status) : Prop :=
  ∀ mutex ∈ status.held, mutex = .slotm ∧ status.rendering = true

namespace Goes

variable {first middle last : Status} {before between after : World}

theorem refl {status : Status} {world : World} (active : world.xlateActive = status.rendering) :
    Goes status world status world :=
  ⟨⟨[], (List.append_nil _).symm, .nil status⟩, active⟩

theorem trans (left : Goes first before middle between) (right : Goes middle between last after) :
    Goes first before last after := by
  obtain ⟨events, trace, accepted⟩ := left.accepted
  obtain ⟨events', trace', accepted'⟩ := right.accepted
  exact ⟨⟨events ++ events', by rw [trace', trace, List.append_assoc], accepted.append accepted'⟩,
    right.active⟩

/-- Changes to neither the record nor the flag. -/
theorem update (goes : Goes first before last between) (trace : after.trace = between.trace)
    (active : after.xlateActive = between.xlateActive) : Goes first before last after :=
  ⟨by rw [trace]; exact goes.accepted, active.trans goes.active⟩

/-- One event more. -/
theorem record (goes : Goes first before middle between) {event : Event}
    (accepted : middle.step event = some last) (active : between.xlateActive = last.rendering) :
    Goes first before last (between.record event) := by
  obtain ⟨events, trace, front⟩ := goes.accepted
  refine ⟨⟨events ++ [event], ?_, front.append (.single accepted)⟩, active⟩
  rw [World.trace_record, trace, List.append_assoc]

end Goes

/-- A lock taken. -/
def Status.take (status : Status) (mutex : Mutex) : Status :=
  { status with held := mutex :: status.held }

/-- A section under a lock that is not held. -/
theorem Goes.locked {status : Status} {world inner : World} {mutex : Mutex}
    (free : mutex ∉ status.held) (active : world.xlateActive = status.rendering)
    (section_ : Goes (status.take mutex) (world.lock mutex) (status.take mutex) inner) :
    Goes status world status (inner.unlock mutex) := by
  have taken : status.step (.lock mutex) = some (status.take mutex) := if_neg free
  have left : (status.take mutex).step (.unlock mutex) = some status := by
    unfold Status.step Status.take
    simp only [List.mem_cons_self, if_true, List.erase_cons_head]
  have entered : Goes status world (status.take mutex) (world.lock mutex) :=
    (Goes.refl active).record taken active
  exact (entered.trans section_).record left section_.active

/-- A section in which nothing else is locked and no guest code runs. -/
theorem Goes.locked_update {status : Status} {world inner : World} {mutex : Mutex}
    (free : mutex ∉ status.held) (active : world.xlateActive = status.rendering)
    (trace : inner.trace = (world.lock mutex).trace)
    (flag : inner.xlateActive = world.xlateActive) :
    Goes status world status (inner.unlock mutex) := by
  have taken : Goes (status.take mutex) (world.lock mutex) (status.take mutex)
      (world.lock mutex) := .refl active
  exact .locked free active (taken.update trace flag)

/-! ## Host code -/

section Host

variable {status : Status} {world : World}

theorem findXlate_goes (free : .xlate ∉ status.held) (active : world.xlateActive = status.rendering)
    (key : UInt64) : Goes status world status (findXlate world key).1 :=
  .locked_update free active rfl rfl

theorem upsertString_goes (free : .strinv ∉ status.held)
    (active : world.xlateActive = status.rendering) (call : UpsertCall) :
    Goes status world status (upsertString world call) := by
  unfold upsertString
  split
  · exact .refl active
  · exact .locked_update free active rfl rfl

/-- The census takes and leaves its two locks. -/
theorem textdrawProbe_goes (quiet : status.Quiet) (active : world.xlateActive = status.rendering)
    (env : Env) (name : Option Bytes) (a0 a1 a2 : UInt32) :
    Goes status world status (textdrawProbe env world name a0 a1 a2) := by
  have free : ∀ mutex : Mutex, mutex ≠ .slotm → mutex ∉ status.held :=
    fun mutex other member => other (quiet mutex member).1
  have recorded : ∀ pc text, Goes status world status (recordText world pc text a0 a1) :=
    fun pc text => (upsertString_goes (free .strinv (by decide)) active _).update rfl rfl
  unfold textdrawProbe
  dsimp only
  split
  · split
    · exact recorded _ _
    · exact .refl active
  · split
    · exact .refl active
    · split
      · exact .refl active
      next text _ =>
        have sampled := recorded (parseFunPc env.longBits name) text
        exact sampled.trans
          (.locked_update (free .textcand (by decide)) sampled.active rfl rfl)

theorem recordFinding_goes (free : .disc ∉ status.held)
    (active : world.xlateActive = status.rendering) (finding : UInt64 × DiscoveryLine) :
    Goes status world status (recordFinding world finding) :=
  .locked_update free active rfl rfl

theorem foldl_recordFinding_goes (free : .disc ∉ status.held)
    (findings : List (UInt64 × DiscoveryLine)) (active : world.xlateActive = status.rendering) :
    Goes status world status (findings.foldl recordFinding world) := by
  induction findings generalizing world with
  | nil => exact .refl active
  | cons finding rest inductionHypothesis =>
      have found := recordFinding_goes free active finding
      exact found.trans (inductionHypothesis found.active)

theorem dumpRegisters_goes (active : world.xlateActive = status.rendering) (ctx : Context) :
    Goes status world status (dumpRegisters world ctx) := by
  unfold dumpRegisters
  split
  · exact .refl active
  · exact (Goes.refl active).update rfl rfl

theorem xlateDiscovery_goes (free : .disc ∉ status.held)
    (active : world.xlateActive = status.rendering) (ctx : Context) (pc : UInt32) :
    Goes status world status (xlateDiscovery world ctx pc) := by
  have found := foldl_recordFinding_goes free
    (watchFindings world.rdram ctx pc ++ longTextFindings world.rdram ctx pc) active
  have logged := found.trans
    (foldl_recordFinding_goes free (pcLogFindings world.rdram ctx pc) found.active)
  unfold xlateDiscovery
  split
  · split
    · exact logged.trans (dumpRegisters_goes logged.active ctx)
    · exact logged
  · exact found

theorem reloadStep_goes (free : .xlate ∉ status.held)
    (active : world.xlateActive = status.rendering) (env : Env) :
    Goes status world status (reloadStep env world) := by
  have counted : Goes status world status { world with calls := world.calls + 1 } :=
    (Goes.refl active).update rfl rfl
  unfold reloadStep
  dsimp only
  split
  · exact counted.trans (.locked_update free active rfl rfl)
  · exact counted

end Host

/-! ## Drawing -/

/-- While a drawing is under way the glyph routines keep the discipline. -/
def KeepsDiscipline (glyph : GlyphCode) : Prop :=
  ∀ (status : Status), status.Quiet → status.rendering = true →
    ∀ (routine : Routine) (world : World) (ctx : Context), world.xlateActive = true →
      Goes status world status (glyph routine world ctx).1

section Drawing

variable {glyph : GlyphCode} {status : Status} {world : World}

theorem measureGlyph_goes (keeps : KeepsDiscipline glyph) (quiet : status.Quiet)
    (rendering : status.rendering = true) (active : world.xlateActive = status.rendering)
    (ctx : Context) (w h : UInt8) (texbase : UInt32) (ch : UInt8) :
    Goes status world status (measureGlyph glyph world ctx w h texbase ch).1 :=
  keeps status quiet rendering .index world _ (active.trans rendering)

theorem measureAdvance_goes (keeps : KeepsDiscipline glyph) (quiet : status.Quiet)
    (rendering : status.rendering = true) (active : world.xlateActive = status.rendering)
    (ctx : Context) (w h : UInt8) (texbase : UInt32) (slot : UInt8) (c : Nat) :
    Goes status world status (measureAdvance glyph ctx w h texbase slot world c) :=
  (measureGlyph_goes keeps quiet rendering active ctx w h texbase _).update rfl rfl

theorem foldl_measureAdvance_goes (keeps : KeepsDiscipline glyph) (quiet : status.Quiet)
    (rendering : status.rendering = true) (ctx : Context) (w h : UInt8) (texbase : UInt32)
    (slot : UInt8) (codes : List Nat) (active : world.xlateActive = status.rendering) :
    Goes status world status
      (codes.foldl (measureAdvance glyph ctx w h texbase slot) world) := by
  induction codes generalizing world with
  | nil => exact .refl active
  | cons c rest inductionHypothesis =>
      have measured :=
        measureAdvance_goes keeps quiet rendering active ctx w h texbase slot c
      exact measured.trans (inductionHypothesis measured.active)

theorem measureSlot_goes (keeps : KeepsDiscipline glyph) (quiet : status.Quiet)
    (rendering : status.rendering = true) (active : world.xlateActive = status.rendering)
    (ctx : Context) (w h : UInt8) (texbase : UInt32) (slot slotAdv : UInt8) :
    Goes status world status (measureSlot glyph world ctx w h texbase slot slotAdv) := by
  have narrow := measureGlyph_goes keeps quiet rendering active ctx w h texbase 0x69
  have wide := narrow.trans
    (measureGlyph_goes keeps quiet rendering narrow.active ctx w h texbase 0x6D)
  unfold measureSlot
  dsimp only
  split
  · have proportional : Goes status world status
        ((measureGlyph glyph (measureGlyph glyph world ctx w h texbase 0x69).1 ctx w h texbase
          0x6D).1.setMetrics slot fun m => { m with proportional := true }) := wide.update rfl rfl
    exact (proportional.trans (foldl_measureAdvance_goes keeps quiet rendering ctx w h texbase
      slot (List.range 95) proportional.active)).update rfl rfl
  · exact wide.update rfl rfl

/-- The lock of the slot metrics is held into the glyph routines. -/
theorem calibrateSlot_goes (keeps : KeepsDiscipline glyph) (free : status.held = [])
    (rendering : status.rendering = true) (active : world.xlateActive = status.rendering)
    (ctx : Context) (fs : UInt32) (slot slotAdv : UInt8) :
    Goes status world status (calibrateSlot glyph world ctx fs slot slotAdv) := by
  have quiet : (status.take .slotm).Quiet := by
    intro mutex member
    unfold Status.take at member
    rw [free] at member
    exact ⟨List.mem_singleton.mp member, rendering⟩
  have untaken : .slotm ∉ status.held := by
    rw [free]
    exact List.not_mem_nil
  unfold calibrateSlot
  split
  · exact .refl active
  · apply Goes.locked untaken active
    have taken : Goes (status.take .slotm) (world.lock .slotm) (status.take .slotm)
        (world.lock .slotm) := .refl active
    split
    · exact taken
    · exact measureSlot_goes keeps quiet rendering taken.active ctx _ _ _ slot slotAdv

theorem drawGlyphs_goes (keeps : KeepsDiscipline glyph) (quiet : status.Quiet)
    (rendering : status.rendering = true) (ctx : Context) (drawing : Drawing) (eng : Bytes)
    (pen : Pen) (active : world.xlateActive = status.rendering) :
    Goes status world status (drawGlyphs glyph ctx drawing eng pen world) := by
  induction eng generalizing pen world with
  | nil => exact .refl active
  | cons c rest inductionHypothesis =>
      rw [drawGlyphs]
      split
      · exact inductionHypothesis _ active
      · have drawn := keeps status quiet rendering .draw world (glyphContext ctx pen c)
          (active.trans rendering)
        exact drawn.trans (inductionHypothesis _ drawn.active)

/-- The thread outside a drawing, and in one with no lock held. -/
def Status.idle : Status := ⟨[], false⟩
def Status.drawing : Status := ⟨[], true⟩

theorem drawStatic_goes (keeps : KeepsDiscipline glyph) (active : world.xlateActive = true)
    (env : Env) (ctx : Context) (src eng : Bytes) (budgetGlyphs : Int) :
    Goes .drawing world .drawing (drawStatic env glyph world ctx src eng budgetGlyphs) := by
  have quiet : Status.drawing.Quiet := fun _ member => absurd member List.not_mem_nil
  have calibrated : Goes .drawing world .drawing (calibrateSlot glyph world ctx
      (fontState world.rdram).1 (fontState world.rdram).2.2.1 (fontState world.rdram).2.2.2) :=
    calibrateSlot_goes keeps rfl rfl active ctx _ _ _
  exact calibrated.trans
    (drawGlyphs_goes keeps quiet rfl ctx _ eng _ calibrated.active)

theorem suppressDraw_trace (world : World) (ctx : Context) (scratch : UInt32) :
    (suppressDraw world ctx scratch).1.trace = world.trace := by
  unfold suppressDraw
  split <;> rfl

/-- A drawing sets the flag, keeps the discipline inside and restores the flag. -/
theorem selfRenderStatic_goes (keeps : KeepsDiscipline glyph) (active : world.xlateActive = false)
    (env : Env) (ctx : Context) (src eng : Bytes) (scratch : UInt32) (budgetGlyphs : Int) :
    Goes .idle world .idle
      (selfRenderStatic env glyph world ctx src eng scratch budgetGlyphs).1 := by
  have begun : Goes .idle world .drawing
      (World.record { world with xlateActive := true } .beginRender) :=
    ⟨⟨[.beginRender], rfl, .single rfl⟩, rfl⟩
  obtain ⟨events, trace, accepted⟩ :=
    (begun.trans (drawStatic_goes keeps rfl env ctx src eng budgetGlyphs)).accepted
  refine ⟨⟨events ++ [.endRender], ?_, accepted.append (.single rfl)⟩, active⟩
  unfold selfRenderStatic
  dsimp only
  rw [World.trace_record, suppressDraw_trace, trace, List.append_assoc]

end Drawing

/-! ## The hook -/

section Hook

variable {glyph : GlyphCode} {world : World}

theorem renderStatic_goes (keeps : KeepsDiscipline glyph) (active : world.xlateActive = false)
    (env : Env) (ctx : Context) (src eng : Bytes) (scratch : UInt32) (budgetGlyphs : Int) :
    Goes .idle world .idle
      (renderStatic env glyph world ctx src eng scratch budgetGlyphs).world :=
  selfRenderStatic_goes keeps active env ctx src eng scratch budgetGlyphs

theorem swapFormat_goes (active : world.xlateActive = false) (ctx : Context) (scratch : UInt32)
    (en : Bytes) : Goes .idle world .idle (swapFormat world ctx scratch en).world := by
  unfold swapFormat
  split
  · exact .refl active
  · exact (show Goes .idle world .idle world from .refl active).update rfl rfl

/-- A lookup outside a drawing. -/
theorem looked_goes {key : UInt64} {after : World} {found : Option XlateVal}
    (active : world.xlateActive = false) (looked : findXlate world key = (after, found)) :
    Goes .idle world .idle after := by
  have goes : Goes .idle world .idle (findXlate world key).1 :=
    findXlate_goes List.not_mem_nil active key
  rw [looked] at goes
  exact goes

theorem xlateGeneral_goes (keeps : KeepsDiscipline glyph) (active : world.xlateActive = false)
    (env : Env) (ctx : Context) (pc : UInt32) :
    Goes .idle world .idle (xlateGeneral env glyph world ctx pc).world := by
  unfold xlateGeneral
  split
  · exact .refl active
  · split
    next => exact .refl active
    next src _ =>
      split
      next after looked => exact looked_goes active looked
      next after v looked =>
        have goes := looked_goes active looked
        split
        · exact goes
        · split
          · exact goes
          · split
            · exact goes.trans (renderStatic_goes keeps goes.active env ctx src v.en _ v.fitW)
            · exact goes.trans (swapFormat_goes goes.active ctx _ v.en)

theorem xlateCandidates_goes (ctx : Context) (left : List (Fin 32))
    (active : world.xlateActive = false) :
    Goes .idle world .idle (xlateCandidates ctx left world).world := by
  induction left generalizing world with
  | nil => exact .refl active
  | cons register rest inductionHypothesis =>
      rw [xlateCandidates]
      split
      next => exact inductionHypothesis active
      next src _ =>
        split
        next after looked =>
          have goes := looked_goes active looked
          exact goes.trans (inductionHypothesis goes.active)
        next after v looked =>
          have goes := looked_goes active looked
          split
          · exact goes.trans (inductionHypothesis goes.active)
          · dsimp only
            split
            · exact goes.trans (inductionHypothesis goes.active)
            · exact goes.update rfl rfl

theorem xlateDesc_goes (active : world.xlateActive = false) (ctx : Context) :
    Goes .idle world .idle (xlateDesc world ctx).world := by
  unfold xlateDesc
  split
  · exact .refl active
  · exact xlateCandidates_goes ctx candidates active

theorem composeSingle_goes (active : world.xlateActive = false) (ctx : Context) (src : Bytes) :
    Goes .idle world .idle (composeSingle world ctx src).1 := by
  have format : Goes .idle world .idle (findXlate world (pmsFnv1a src)).1 :=
    findXlate_goes List.not_mem_nil active _
  unfold composeSingle
  dsimp only
  split
  · exact format
  · split
    · exact format
    next arg _ =>
      exact format.trans (findXlate_goes List.not_mem_nil format.active (pmsFnv1a arg))

theorem xlateFormat_goes (keeps : KeepsDiscipline glyph) (active : world.xlateActive = false)
    (env : Env) (ctx : Context) (src : Bytes) :
    Goes .idle world .idle (xlateFormat env glyph world ctx src).world := by
  unfold xlateFormat
  split
  next after looked => exact looked_goes active looked
  next after v looked =>
    have goes := looked_goes active looked
    split
    · exact goes
    · split
      · exact goes.trans (swapFormat_goes goes.active ctx _ v.en)
      · exact goes.trans (renderStatic_goes keeps goes.active env ctx src v.en _ v.fitW)

theorem xlateStringDraw_goes (keeps : KeepsDiscipline glyph) (active : world.xlateActive = false)
    (env : Env) (ctx : Context) :
    Goes .idle world .idle (xlateStringDraw env glyph world ctx).world := by
  have composing := composeSingle_goes active ctx (readFormat world.rdram (ctx.reg 6))
  unfold xlateStringDraw
  dsimp only
  split
  · exact .refl active
  · split
    · exact .refl active
    · split
      next after full budget composed =>
        rw [composed] at composing
        exact composing.trans
          (renderStatic_goes keeps composing.active env ctx full full _ budget)
      next after composed =>
        rw [composed] at composing
        exact composing.trans (xlateFormat_goes keeps composing.active env ctx _)

theorem xlateArmed_goes (keeps : KeepsDiscipline glyph) (active : world.xlateActive = false)
    (env : Env) (ctx : Context) (pc : UInt32) :
    Goes .idle world .idle (xlateArmed env glyph world ctx pc).world := by
  have searched : Goes .idle world .idle
      (if env.textprobeArmed then xlateDiscovery world ctx pc else world) := by
    split
    · exact xlateDiscovery_goes List.not_mem_nil active ctx pc
    · exact .refl active
  unfold xlateArmed
  generalize (if env.textprobeArmed then xlateDiscovery world ctx pc else world) = after
    at searched ⊢
  dsimp only
  split
  · exact searched.trans (xlateDesc_goes searched.active ctx)
  · split
    · exact searched.trans (xlateGeneral_goes keeps searched.active env ctx pc)
    · exact searched.trans (xlateStringDraw_goes keeps searched.active env ctx)

/-- Inside a drawing the hook records its call and does nothing else. -/
theorem textXlate_active (env : Env) (glyph : GlyphCode) (ctx : Context) (name : Option Bytes)
    (active : world.xlateActive = true) :
    textXlate env glyph world ctx name = fallThrough (world.record (.enterXlate true)) ctx := by
  unfold textXlate
  dsimp only
  rw [World.xlateActive_record, active, if_pos rfl]

theorem textXlate_goes (keeps : KeepsDiscipline glyph) {status : Status} (quiet : status.Quiet)
    (active : world.xlateActive = status.rendering) (env : Env) (ctx : Context)
    (name : Option Bytes) :
    Goes status world status (textXlate env glyph world ctx name).world := by
  have entered : Goes status world status
      (world.record (.enterXlate world.xlateActive)) :=
    (Goes.refl active).record (if_pos active) active
  cases flag : world.xlateActive with
  | true =>
      rw [textXlate_active env glyph ctx name flag, ← flag]
      exact entered
  | false =>
      have idle : status = .idle := by
        have blocked := active.symm.trans flag
        obtain ⟨held, rendering⟩ := status
        cases held with
        | nil => exact congrArg (Status.mk []) blocked
        | cons mutex rest =>
            have drawing := (quiet mutex (List.mem_cons_self ..)).2
            rw [blocked] at drawing
            cases drawing
      subst idle
      rw [flag] at entered
      have reloaded := entered.trans (reloadStep_goes List.not_mem_nil entered.active env)
      unfold textXlate
      dsimp only
      rw [World.xlateActive_record, flag, if_neg Bool.false_ne_true]
      split
      · exact reloaded
      · exact reloaded.trans (xlateArmed_goes keeps reloaded.active env ctx _)

end Hook

/-! ## Every call tree -/

/-- A call tree keeps the discipline from any quiet status, its glyph routines included. -/
theorem run_goes (env : Env) (tree : CallTree) {status : Status} (quiet : status.Quiet)
    {world : World} (ctx : Context) (active : world.xlateActive = status.rendering) :
    Goes status world status (tree.run env world ctx).1 := by
  induction tree generalizing status world ctx with
  | ret => exact .refl active
  | work step next inductionHypothesis =>
      have worked : Goes status world status (world.worked (step world ctx).1) :=
        (Goes.refl active).update rfl rfl
      exact worked.trans (inductionHypothesis _ _ quiet _ worked.active)
  | enter name glyph body next glyphHypothesis bodyHypothesis nextHypothesis =>
      have keeps : KeepsDiscipline
          (fun routine world ctx => (glyph routine world ctx).run env world ctx) :=
        fun status quiet rendering routine world ctx flag =>
          glyphHypothesis routine world ctx quiet ctx (flag.trans rendering.symm)
      have probed := textdrawProbe_goes quiet active env name (ctx.reg 4) (ctx.reg 5) (ctx.reg 6)
      have hooked := probed.trans (textXlate_goes keeps quiet probed.active env ctx name)
      exact hooked.trans ((bodyHypothesis quiet _ hooked.active).trans
        (nextHypothesis quiet _ (bodyHypothesis quiet _ hooked.active).active))

/-- A call tree neither recurses into drawing nor takes a lock it holds. -/
structure CannotReenter (env : Env) (tree : CallTree) (world : World) (ctx : Context) : Prop where
  /-- No lock is taken twice, no drawing starts inside another, and the flag is set at a
  call of the hook exactly inside a drawing. -/
  disciplined : ∃ events, (tree.run env world ctx).1.trace = world.trace ++ events ∧
    Accepts Status.step ⟨[], world.xlateActive⟩ events ⟨[], world.xlateActive⟩
  restored : (tree.run env world ctx).1.xlateActive = world.xlateActive
  /-- A call of the hook with the flag set changes no memory and no register and starts no
  drawing. -/
  inert : ∀ (glyph : GlyphCode) (nested : World) (registers : Context) (name : Option Bytes),
    nested.xlateActive = true →
      (textXlate env glyph nested registers name).world.rdram = nested.rdram ∧
        (textXlate env glyph nested registers name).ctx = registers ∧
          (textXlate env glyph nested registers name).world.trace =
            nested.trace ++ [.enterXlate true]

/-- Self-rendering cannot recurse or self-deadlock. -/
theorem run_cannotReenter (env : Env) (tree : CallTree) (world : World) (ctx : Context) :
    CannotReenter env tree world ctx := by
  have quiet : (Status.mk [] world.xlateActive).Quiet :=
    fun _ member => absurd member List.not_mem_nil
  have goes := run_goes env tree quiet ctx (rfl : world.xlateActive = _)
  refine ⟨goes.accepted, goes.active, ?_⟩
  intro glyph nested registers name active
  rw [textXlate_active env glyph registers name active]
  exact ⟨rfl, rfl, rfl⟩

end StadiumRecomp.Hook
