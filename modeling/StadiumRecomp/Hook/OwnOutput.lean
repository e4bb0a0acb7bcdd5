import StadiumRecomp.Hook.Probe
import StadiumRecomp.Hook.Slots

/-!
Contract: what the string inventory takes of the layer's own output.

Owns: runs of `TRACE_ENTRY` events with what the hook wrote and what the probe took of it,
the entries that take some, and the runs in which none does.

Does not own: where the guest passes pointers.
-/

set_option autoImplicit false

namespace StadiumRecomp.Hook

open StadiumRecomp.Lib
open StadiumRecomp.Guest
open StadiumRecomp.Census
open StadiumRecomp.Translate

/-! ## Runs -/

/-- What happens on the way, in order. -/
inductive Moment where
  /-- Guest code, other threads and the ends of drawings, which may leave any world. -/
  | guest (change : World → World)
  /-- The first half of `TRACE_ENTRY`. -/
  | probe (name : Option Bytes) (ctx : Context)
  /-- Its second half. Entries of the glyph routines are moments of their own. -/
  | hook (glyph : GlyphCode) (name : Option Bytes) (ctx : Context)

/-- `TRACE_ENTRY` at the front of a function that draws nothing itself. -/
def traceEntry (glyph : GlyphCode) (name : Option Bytes) (ctx : Context) : List Moment :=
  [.probe name ctx, .hook glyph name ctx]

/-- The string a call of the hook leaves in a scratch slot. -/
def Exit.written : Exit → List Bytes
  | .swap _ en => [en]
  | .fallThrough | .render _ => []

/-- The world, the strings the hook wrote so far and those of them the probe added to the
inventory. -/
structure Watch where
  world : World
  written : List Bytes
  recorded : List Bytes

def Watch.start (world : World) : Watch := ⟨world, [], []⟩

/-- A string that the inventory has in `after` and not in `before`. -/
def added (before after : StrInv) (s : Bytes) : Bool := after.stores s && !before.stores s

variable (env : Env)

def Watch.step (watch : Watch) : Moment → Watch
  | .guest change => { watch with world := change watch.world }
  | .probe name ctx =>
      let after := textdrawProbe env watch.world name (ctx.reg 4) (ctx.reg 5) (ctx.reg 6)
      { watch with
        world := after
        recorded := watch.recorded ++
          watch.written.filter (added watch.world.inventory after.inventory) }
  | .hook glyph name ctx =>
      let result := textXlate env glyph watch.world ctx name
      { watch with
        world := result.world
        written := watch.written ++ result.exit.written }

/-- The state behind a run of moments. -/
def Watch.run (watch : Watch) (moments : List Moment) : Watch :=
  moments.foldl (Watch.step env) watch

/-! ## Careful runs -/

/-- The probe looks for text behind `r6`. -/
def LooksAtText (name : Option Bytes) (ctx : Context) : Prop :=
  parseFunPc env.longBits name = kPrintfPC ∨ (ctx.reg 4 < 0x1000 ∧ ctx.reg 5 < 0x1000)

instance (name : Option Bytes) (ctx : Context) : Decidable (LooksAtText env name ctx) :=
  inferInstanceAs (Decidable (_ ∨ _ ∧ _))

/-- No text routine is entered with `r6` at a string the hook wrote, if that reads as text
and is new to an inventory with room. -/
def Careful (watch : Watch) : Moment → Prop
  | .guest _ | .hook .. => True
  | .probe name ctx => LooksAtText env name ctx → ∀ s ∈ watch.written,
      PointsAt watch.world.rdram (ctx.reg 6) s → Readable s →
        ¬ watch.world.inventory.takes s

/-- The probe adds no string the hook wrote, in any state a run reaches. -/
def RecordsNone (world : World) (moments : List Moment) : Prop :=
  ∀ front, front <+: moments → ((Watch.start world).run env front).recorded = []

/-- Every moment of a run is careful in the state it meets. -/
def CarefulRun (world : World) (moments : List Moment) : Prop :=
  ∀ front moment, front ++ [moment] <+: moments →
    Careful env ((Watch.start world).run env front) moment

variable {env}

/-! ## One probe -/

theorem inventory_recordText (world : World) (pc : UInt32) (text : Bytes) (a0 a1 : UInt32) :
    (recordText world pc text a0 a1).inventory =
      strinvUpsert world.inventory ⟨text, a0.toUInt16, a1.toUInt16⟩ := by
  unfold recordText upsertString
  split
  next empty =>
    unfold strinvUpsert
    rw [if_pos empty]
  next => rfl

/-- The probe offers the text behind `r6` of a text routine and nothing else. -/
theorem inventory_textdrawProbe (world : World) (name : Option Bytes) (ctx : Context) :
    (textdrawProbe env world name (ctx.reg 4) (ctx.reg 5) (ctx.reg 6)).inventory =
      if LooksAtText env name ctx then
        match readTextArg world.rdram (ctx.reg 6) with
        | some text =>
            strinvUpsert world.inventory ⟨text, (ctx.reg 4).toUInt16, (ctx.reg 5).toUInt16⟩
        | none => world.inventory
      else world.inventory := by
  unfold textdrawProbe
  dsimp only
  by_cases printf : parseFunPc env.longBits name = kPrintfPC
  · have looks : LooksAtText env name ctx := Or.inl printf
    rw [if_pos printf, if_pos looks]
    cases readTextArg world.rdram (ctx.reg 6) with
    | none => rfl
    | some text => exact inventory_recordText world _ text _ _
  · rw [if_neg printf]
    by_cases elsewhere : ctx.reg 4 ≥ 0x1000 ∨ ctx.reg 5 ≥ 0x1000
    · have looksNot : ¬ LooksAtText env name ctx := by
        intro either
        rcases either with isPrintf | ⟨small, small'⟩
        · exact printf isPrintf
        · rcases elsewhere with large | large
          · exact absurd small (UInt32.not_lt.mpr large)
          · exact absurd small' (UInt32.not_lt.mpr large)
      rw [if_pos elsewhere, if_neg looksNot]
    · have looks : LooksAtText env name ctx := by
        rw [not_or] at elsewhere
        exact Or.inr ⟨UInt32.not_le.mp elsewhere.1, UInt32.not_le.mp elsewhere.2⟩
      rw [if_neg elsewhere, if_pos looks]
      cases readTextArg world.rdram (ctx.reg 6) with
      | none => rfl
      | some text => exact inventory_recordText world (parseFunPc env.longBits name) text _ _

/-- A probe adds exactly a new text that `r6` of a text routine points at. -/
theorem added_probe_iff (world : World) (name : Option Bytes) (ctx : Context) (s : Bytes) :
    added world.inventory
        (textdrawProbe env world name (ctx.reg 4) (ctx.reg 5) (ctx.reg 6)).inventory s = true ↔
      LooksAtText env name ctx ∧ PointsAt world.rdram (ctx.reg 6) s ∧ Readable s ∧
        world.inventory.takes s := by
  unfold added
  rw [inventory_textdrawProbe]
  cases stored : world.inventory.stores s with
  | true =>
      constructor
      · intro impossible
        rw [Bool.not_true, Bool.and_false] at impossible
        cases impossible
      · intro ⟨_, _, _, new, _⟩
        rw [stored] at new
        cases new
  | false =>
      rw [Bool.not_false, Bool.and_true]
      split
      next looks =>
        split
        next text isText =>
          obtain ⟨points, readable⟩ := readTextArg_eq_some_iff.mp isText
          rw [stores_strinvUpsert _ _ _ stored]
          dsimp only
          constructor
          · intro ⟨same, _, takes⟩
            subst same
            exact ⟨looks, points, readable, takes⟩
          · intro ⟨_, pointsAtS, readableS, takes⟩
            have isS := readTextArg_eq_some_iff.mpr ⟨pointsAtS, readableS⟩
            have same : s = text := Option.some.inj (isS.symm.trans isText)
            subst same
            refine ⟨rfl, ?_, takes⟩
            intro empty
            rw [empty] at readable
            exact absurd readable.1 (by decide)
        next noText =>
          rw [stored]
          constructor
          · intro impossible
            cases impossible
          · intro ⟨_, points, readable, _⟩
            rw [readTextArg_eq_some_iff.mpr ⟨points, readable⟩] at noText
            cases noText
      next looksNot =>
        rw [stored]
        constructor
        · intro impossible
          cases impossible
        · intro ⟨looks, _⟩
          exact absurd looks looksNot

/-! ## Runs -/

/-- A moment takes nothing of the hook's output exactly if it is careful. -/
theorem recorded_step_iff (watch : Watch) (moment : Moment) :
    (watch.step env moment).recorded = [] ↔ watch.recorded = [] ∧ Careful env watch moment := by
  cases moment with
  | guest change => exact (and_iff_left trivial).symm
  | hook glyph name ctx => exact (and_iff_left trivial).symm
  | probe name ctx =>
      show watch.recorded ++ watch.written.filter _ = [] ↔ _
      rw [List.append_eq_nil_iff, List.filter_eq_nil_iff]
      apply and_congr_right
      intro _
      constructor
      · intro none looks s isWritten points readable takes
        exact none s isWritten ((added_probe_iff _ name ctx s).mpr ⟨looks, points, readable, takes⟩)
      · intro careful s isWritten isAdded
        obtain ⟨looks, points, readable, takes⟩ := (added_probe_iff _ name ctx s).mp isAdded
        exact careful looks s isWritten points readable takes

theorem run_concat (watch : Watch) (moments : List Moment) (moment : Moment) :
    watch.run env (moments ++ [moment]) = (watch.run env moments).step env moment := by
  unfold Watch.run
  rw [List.foldl_append]
  rfl

/-- The inventory takes none of the hook's output in any state of a run exactly if every
moment of the run is careful. -/
theorem recordsNone_iff_carefulRun (env : Env) (world : World) (moments : List Moment) :
    RecordsNone env world moments ↔ CarefulRun env world moments := by
  induction moments using List.reverseRecOn with
  | nil =>
      constructor
      · intro _ front moment isPrefix
        have empty := List.prefix_nil.mp isPrefix
        exact absurd empty (List.append_ne_nil_of_right_ne_nil _ (List.cons_ne_nil _ _))
      · intro _ front isPrefix
        rw [List.prefix_nil.mp isPrefix]
        rfl
  | append_singleton moments moment inductionHypothesis =>
      constructor
      · intro recordsNone front last isPrefix
        rcases List.prefix_concat_iff.mp isPrefix with whole | inside
        · -- The last moment.
          obtain ⟨rfl, same⟩ := List.append_inj' whole rfl
          rw [List.singleton_inj.mp same]
          have none := recordsNone (front ++ [moment]) (List.prefix_refl _)
          rw [run_concat, recorded_step_iff] at none
          exact none.2
        · apply inductionHypothesis.mp _ front last inside
          intro earlier within
          exact recordsNone earlier (within.trans (List.prefix_append _ _))
      · intro careful front isPrefix
        have before : RecordsNone env world moments := by
          apply inductionHypothesis.mpr
          intro earlier last within
          exact careful earlier last (within.trans (List.prefix_append _ _))
        rcases List.prefix_concat_iff.mp isPrefix with rfl | inside
        · rw [run_concat, recorded_step_iff]
          exact ⟨before moments (List.prefix_refl _),
            careful moments moment (List.prefix_refl _)⟩
        · exact before front inside

/-! ## A pointer passed on -/

/-- After a swap the repointed register points at the English. -/
theorem pointsAt_of_swap (glyph : GlyphCode) (world : World) (ctx : Context)
    (name : Option Bytes) {register : Fin 32} {en : Bytes}
    (swapped : (textXlate env glyph world ctx name).exit = .swap register en) :
    PointsAt (textXlate env glyph world ctx name).world.rdram
      ((textXlate env glyph world ctx name).ctx.reg register) en := by
  have leaves := textXlate_leaves env glyph world ctx name
  generalize textXlate env glyph world ctx name = result at leaves swapped ⊢
  cases leaves with
  | fell => cases swapped
  | rendered => cases swapped
  | @swapped after _ text v isCandidate isLookedUp isShown found headroom short written =>
      cases swapped
      have points : (swapArgument ctx register (swapScratch ctx.sp (hasPercent v.en))
          v.en).reg register = swapScratch ctx.sp (hasPercent v.en) := by
        unfold swapArgument
        dsimp only
        split
        next isCount =>
          subst isCount
          unfold Context.reg
          rw [Context.gpr_setReg_of_ne _ _ (by decide)]
          exact Context.reg_setReg ctx 5 _
        next => exact Context.reg_setReg ctx register _
      dsimp only
      rw [points]
      exact ⟨(writeGuestStr_eq_some_iff.mp written).1,
        segment_writeGuestStr written (Nat.not_lt.mp short)⟩

/-- A text routine that gets the repointed register in `r6` meets the English there. -/
theorem not_careful_of_passed_on (watch : Watch) (glyph : GlyphCode) {ctx next : Context}
    {name nextName : Option Bytes} {register : Fin 32} {en : Bytes}
    (swapped : (textXlate env glyph watch.world ctx name).exit = .swap register en)
    (passed : next.reg 6 = (textXlate env glyph watch.world ctx name).ctx.reg register)
    (looks : LooksAtText env nextName next) (readable : Readable en)
    (takes : (textXlate env glyph watch.world ctx name).world.inventory.takes en) :
    ¬ Careful env (watch.step env (.hook glyph name ctx)) (.probe nextName next) := by
  intro careful
  have written : en ∈ (watch.step env (.hook glyph name ctx)).written := by
    show en ∈ watch.written ++ (textXlate env glyph watch.world ctx name).exit.written
    rw [swapped]
    exact List.mem_append_right _ (List.mem_singleton_self en)
  have points := pointsAt_of_swap glyph watch.world ctx name swapped
  rw [← passed] at points
  exact careful looks en written points readable takes

/-- A `_Printf` of one kana hands the string it received to a routine that draws at
coordinates. -/
def passedOn (glyph : GlyphCode) : List Moment :=
  let world := printfWorld printfMemory (CString.bytesOf "Take care")
  let printf := some (CString.bytesOf "FUN_80055ce0")
  let probed := textdrawProbe (.plain 32) world printf 0x80055000 0 0x80001000
  let received := (textXlate (.plain 32) glyph probed printfContext printf).ctx
  traceEntry glyph printf printfContext ++
    traceEntry glyph (some (CString.bytesOf "FUN_80028060")) ((received.setReg 4 16).setReg 5 32)

theorem recordsNone_fails_passedOn :
    ¬ ∀ (env : Env) (world : World) (moments : List Moment), RecordsNone env world moments := by
  intro recordsNone
  have none := recordsNone (.plain 32) (printfWorld printfMemory (CString.bytesOf "Take care"))
    (passedOn fun _ world ctx => (world, ctx)) _ (List.prefix_refl _)
  revert none
  decide +kernel

end StadiumRecomp.Hook
