import StadiumRecomp.Audio.Depth

/-!
Contract: the blocks that reach the device as whole stereo frames.

Owns: when a block is aligned, and the runs whose blocks all are.

Does not own: the depth of the queue.
-/

set_option autoImplicit false

namespace StadiumRecomp.Audio

open StadiumRecomp.Lib

section Alignment

variable {α : Type} {host : Host α}

/-- A block of whole frames inside the converted data, the first sample a left one. -/
structure Block.Aligned (block : Block α) : Prop where
  left : 0 < block.numBytes → ∃ frame, block.start = 2 * frame ∧
    2 * frame < block.converted.length ∧
      block.buffer[block.start]? = block.converted[2 * frame]?
  whole : block.numBytes % 8 = 0
  inside : 4 * block.start + block.numBytes ≤ 4 * block.converted.length

/-- The frames of a conversion that are not discarded. -/
def remaining (state : State α) (converted : List α) : Nat :=
  converted.length / 2 - state.discardedOutputFrames

/-- A packet that reaches the converter is an `int` long and finds a queue at whose depth the
shift is defined; the remaining frames leave less than an eighth of a frame when they are
divided; and an even number of frames is discarded, unless nothing is queued. -/
def WholeFrames (host : Host α) (state : State α) : Event α → Prop
  | .queueSamples volume audioData => ∀ converted,
      (convertPacket host state volume audioData).2 = some converted →
        FitsInt audioData ∧ tenths state < 32 ∧
        8 * (remaining state converted % 2 ^ tenths state) < 2 ^ tenths state ∧
        (state.discardedOutputFrames % 2 = 0 ∨
          8 * remaining state converted < 2 ^ tenths state)
  | _ => True

/-- The bytes of a divided block are whole frames exactly when the remainder is small. -/
theorem div_whole_iff {frames ratio : Nat} (positive : 0 < ratio) :
    8 * frames / ratio % 8 = 0 ↔ 8 * (frames % ratio) < ratio := by
  have split : 8 * frames / ratio = 8 * (frames / ratio) + 8 * (frames % ratio) / ratio := by
    have parts := Nat.div_add_mod frames ratio
    calc 8 * frames / ratio
        = (8 * (frames % ratio) + ratio * (8 * (frames / ratio))) / ratio := by
          congr 1
          rw [Nat.mul_left_comm, ← Nat.mul_add, Nat.add_comm, parts]
      _ = 8 * (frames / ratio) + 8 * (frames % ratio) / ratio := by
          rw [Nat.add_mul_div_left _ _ positive, Nat.add_comm]
  have below : 8 * (frames % ratio) / ratio < 8 := by
    rw [Nat.div_lt_iff_lt_mul positive]
    exact Nat.mul_lt_mul_of_pos_left (Nat.mod_lt frames positive) (by decide)
  rw [split, Nat.mul_add_mod, Nat.mod_eq_of_lt below, Nat.div_eq_zero_iff]
  constructor
  · intro either
    rcases either with zero | small
    · omega
    · exact small
  · exact .inr

/-! ## One block -/

/-- The sample that a queued block starts with is the one that was converted there. -/
theorem first_sample {state : State α} {converted : List α} {frames : Nat}
    (sized : Sized state converted frames) (shallow : tenths state ≤ 30)
    (kept : state.discardedOutputFrames < 2 * frames) :
    (Move.applyAll (decimation (samplesToQueue state) (2 ^ skipFactor state)
      (numBytesToQueue state (4 * converted.length) / 2 ^ skipFactor state))
        state.swapBuffer)[state.discardedOutputFrames]? =
      converted[state.discardedOutputFrames]? := by
  by_cases moved : numBytesToQueue state (4 * converted.length) / 2 ^ skipFactor state / 8 = 0
  · have still : decimation (samplesToQueue state) (2 ^ skipFactor state)
        (numBytesToQueue state (4 * converted.length) / 2 ^ skipFactor state) = [] := by
      unfold decimation outputChannels
      rw [moved]
      rfl
    rw [still]
    exact sized.buffer _ kept
  · have frame := (decimationDefined_of_sized sized shallow).frames 0
      (Nat.pos_of_ne_zero moved) 0 (by decide)
    rw [sized.start, Nat.zero_mul] at frame
    rw [sized.start]
    exact frame

/-- What is handed over behind a conversion. -/
theorem drainAndQueue_block {state next : State α} {converted : List α} {frames : Nat}
    {block : Block α} (sized : Sized state converted frames)
    (queued : drainAndQueue state converted = .ok (next, block)) :
    block.converted = converted ∧ block.start = state.discardedOutputFrames ∧
      block.numBytes = 8 * (frames - state.discardedOutputFrames) / 2 ^ tenths state ∧
      (0 < block.numBytes →
        block.buffer[state.discardedOutputFrames]? = converted[state.discardedOutputFrames]?) := by
  have enough := sized.enough
  have bounded := sized.bounded
  have sizes := sized.numBytes
  unfold drainAndQueue at queued
  rw [← skipFactor_eq]
  simp only at queued
  split at queued
  next empty =>
    cases queued
    rw [empty, Nat.pow_zero, Nat.div_one]
    refine ⟨rfl, sized.start, sizes, ?_⟩
    intro some
    exact sized.buffer _ (by simp only at some; omega)
  next running =>
    split at queued
    · cases queued
    next low =>
      cases queued
      refine ⟨rfl, sized.start, by simp only [sizes], ?_⟩
      intro some
      simp only [sizes] at some
      have small : tenths state ≤ 30 := by
        rw [← skipFactor_eq]
        apply Nat.le_of_not_lt
        intro deep
        have power : 2 ^ 31 ≤ 2 ^ skipFactor state := Nat.pow_le_pow_right (by decide) deep
        rw [Nat.div_eq_of_lt (by omega)] at some
        exact Nat.lt_irrefl 0 some
      have positive : 0 < 8 * (frames - state.discardedOutputFrames) :=
        Nat.lt_of_lt_of_le some (Nat.div_le_self _ _)
      exact first_sample sized small (by omega)

/-- A block is aligned exactly when its frames divide evenly and, unless it is empty, an
even number of frames is discarded. -/
theorem aligned_iff {state next : State α} {converted : List α} {frames : Nat} {block : Block α}
    (sized : Sized state converted frames)
    (queued : drainAndQueue state converted = .ok (next, block)) :
    block.Aligned ↔ 8 * (remaining state converted % 2 ^ tenths state) < 2 ^ tenths state ∧
      (state.discardedOutputFrames % 2 = 0 ∨
        8 * remaining state converted < 2 ^ tenths state) := by
  obtain ⟨same, start, numBytes, first⟩ := drainAndQueue_block sized queued
  have whole := sized.whole
  have enough := sized.enough
  have left : remaining state converted = frames - state.discardedOutputFrames := by
    unfold remaining
    omega
  have positive : 0 < 2 ^ tenths state := Nat.two_pow_pos _
  rw [left, ← div_whole_iff positive, ← numBytes]
  constructor
  · intro aligned
    refine ⟨aligned.whole, ?_⟩
    by_cases empty : block.numBytes = 0
    · rw [numBytes, Nat.div_eq_zero_iff] at empty
      exact .inr (by omega)
    · obtain ⟨frame, even, _⟩ := aligned.left (Nat.pos_of_ne_zero empty)
      exact .inl (by omega)
  · intro ⟨eighth, either⟩
    refine ⟨?_, eighth, ?_⟩
    · intro some
      rcases either with even | small
      · have more : 0 < 8 * (frames - state.discardedOutputFrames) := by
          rw [numBytes] at some
          exact Nat.lt_of_lt_of_le some (Nat.div_le_self _ _)
        have half : 2 * (state.discardedOutputFrames / 2) = state.discardedOutputFrames := by
          omega
        refine ⟨state.discardedOutputFrames / 2, ?_, ?_, ?_⟩
        · omega
        · rw [same]
          omega
        · rw [same, start, half]
          exact first some
      · rw [numBytes, Nat.div_eq_of_lt small] at some
        exact absurd some (Nat.lt_irrefl 0)
    · have fewer : block.numBytes ≤ 8 * (frames - state.discardedOutputFrames) := by
        rw [numBytes]
        exact Nat.div_le_self _ _
      rw [same]
      omega

/-! ## Runs -/

theorem aligned_of_step (lawful : host.Lawful) {state next : State α} {event : Event α}
    {blocks : List (Block α)} (configured : Configured state)
    (met : WholeFrames host state event)
    (stepped : step host state event = .ok (next, blocks)) : ∀ block ∈ blocks, block.Aligned := by
  cases event with
  | setFrequency freq =>
      cases updated : setFrequency host state freq with
      | error stop =>
          rw [step, updated] at stepped
          cases stepped
      | ok result =>
          rw [step, updated] at stepped
          cases stepped
          exact fun block member => absurd member List.not_mem_nil
  | queueSamples volume audioData =>
      rcases queueSamples_cases stepped with ⟨_, rfl, _⟩ | ⟨converted, block, found, queued, rfl⟩
      · exact fun block member => absurd member List.not_mem_nil
      · intro other member
        cases List.mem_singleton.mp member
        obtain ⟨fits, _, eighth, even⟩ := met converted found
        have sized := sized_of_packet lawful configured fits found
        obtain ⟨_, _, same⟩ := @convertPacket_frame α host state volume audioData
        apply (aligned_iff sized queued).mpr
        rw [tenths_packet]
        unfold remaining at eighth even ⊢
        rw [same]
        exact ⟨eighth, even⟩
  | drain bytes =>
      cases stepped
      exact fun block member => absurd member List.not_mem_nil

theorem update_ne_undefined {state : State α} :
    updateAudioConverter host state ≠ .error .undefined := by
  unfold updateAudioConverter
  split
  · exact fun thrown => by cases thrown
  · exact fun returned => by cases returned

/-- In every run whose packets find whole frames, every block handed to the device is
aligned, and no call is undefined. -/
theorem aligned_of_run (lawful : host.Lawful) {state : State α} {blocks : List (Block α)}
    (run : Run host (WholeFrames host) state blocks) :
    (∀ block ∈ blocks, block.Aligned) ∧
      ∀ event, WholeFrames host state event → step host state event ≠ .error .undefined := by
  constructor
  · induction run with
    | reset started => exact fun block member => absurd member List.not_mem_nil
    | @step state next blocks more event run valid met stepped inductionHypothesis =>
        intro block member
        rcases List.mem_append.mp member with earlier | now
        · exact inductionHypothesis block earlier
        · exact aligned_of_step lawful (configured_of_run run) met stepped block now
  · intro event met undefined
    cases event with
    | setFrequency freq =>
        cases updated : setFrequency host state freq with
        | error stop =>
            rw [step, updated] at undefined
            cases undefined
            exact update_ne_undefined updated
        | ok result =>
            rw [step, updated] at undefined
            cases undefined
    | queueSamples volume audioData =>
        exact queueSamples_defined (fun converted found => (met converted found).2.1) undefined
    | drain bytes => cases undefined


end Alignment

/-- Five frames at the rate of the start give one aligned block. -/
theorem aligned_of_run_first_packet : ∃ state block,
    Run nearest (WholeFrames nearest) state [block] ∧ block.Aligned := by
  have fits : FitsInt (List.replicate 5 (1, 2)) := by
    unfold FitsInt
    decide
  have started : Run nearest (WholeFrames nearest) startState [] := .reset rfl
  obtain ⟨converted, found, _⟩ := nearest_packet startState (by decide) fits (by decide)
  obtain ⟨next, block, called, _⟩ :=
    @queueSamples_empty Int nearest startState 1 (List.replicate 5 (1, 2)) converted found rfl
  have met : WholeFrames nearest startState (.queueSamples 1 (List.replicate 5 (1, 2))) := by
    intro other _
    refine ⟨fits, by decide, ?_, .inl rfl⟩
    rw [show tenths startState = 0 from rfl, Nat.pow_zero, Nat.mod_one]
    decide
  have valid : Event.Valid (Event.queueSamples (1 : Int) (List.replicate 5 (1, 2))) := trivial
  have run : Run nearest (WholeFrames nearest) next ([] ++ [block]) :=
    .step started valid met called
  exact ⟨next, block, run, (aligned_of_run lawful_nearest run).1 block List.mem_cons_self⟩

/-- At 26800 Hz seven frames are discarded, and the block starts with a right sample. -/
theorem misaligned_block : nearest.Lawful ∧ ∃ state block,
    Run nearest (fun _ _ => True) state [block] ∧ ¬ block.Aligned := by
  have fits : FitsInt (List.replicate 5 (1, 2)) := by
    unfold FitsInt
    decide
  have started : Run nearest (fun _ _ => True) startState [] := .reset rfl
  have retuned : step nearest startState (.setFrequency 26800) = .ok
      ({ startState with sampleRate := 26800, discardedOutputFrames := 7 }, []) := rfl
  generalize tuned_eq : ({ startState with
    sampleRate := 26800, discardedOutputFrames := 7 } : State Int) = tuned at retuned
  have rate : tuned.sampleRate = 26800 := by rw [← tuned_eq]
  have output : tuned.outputSampleRate = 48000 := by rw [← tuned_eq]; rfl
  have discarded : tuned.discardedOutputFrames = 7 := by rw [← tuned_eq]
  have empty : tenths tuned = 0 := by rw [← tuned_eq]; rfl
  have positive : Event.Valid (Event.setFrequency 26800 : Event Int) := ⟨by decide, by decide⟩
  have tunedRun : Run nearest (fun _ _ => True) tuned ([] ++ []) :=
    .step started positive trivial retuned
  obtain ⟨converted, found, frames⟩ := nearest_packet tuned (by decide) fits
    (by rw [rate, output]; decide)
  have sized := sized_of_packet lawful_nearest (configured_of_run tunedRun) fits found
  obtain ⟨next, block, called, _, _, _, start, numBytes⟩ :=
    @queueSamples_empty Int nearest tuned 1 (List.replicate 5 (1, 2)) converted found empty
  have behind : (convertPacket nearest tuned 1
      (List.replicate 5 (1, 2))).1.discardedOutputFrames = 7 := by
    obtain ⟨_, _, same⟩ := @convertPacket_frame Int nearest tuned 1 (List.replicate 5 (1, 2))
    rw [same]
    exact discarded
  rw [rate, output] at frames
  rw [sized.start, behind] at start
  rw [sized.numBytes, behind, frames] at numBytes
  have valid : Event.Valid (Event.queueSamples (1 : Int) (List.replicate 5 (1, 2))) := trivial
  have run : Run nearest (fun _ _ => True) next (([] ++ []) ++ [block]) :=
    .step tunedRun valid trivial called
  refine ⟨lawful_nearest, next, block, run, ?_⟩
  intro aligned
  have some : 0 < block.numBytes := by
    rw [numBytes]
    decide
  obtain ⟨frame, even, _⟩ := aligned.left some
  omega

end StadiumRecomp.Audio
