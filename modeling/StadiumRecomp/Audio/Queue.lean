import Mathlib.Algebra.Group.Int.Defs
import Mathlib.Algebra.Group.Nat.Defs
import StadiumRecomp.Lib.Moves

/-!
Contract: the audio queue of `src/main/main.cpp`.

Owns: `update_audio_converter`, `queue_samples` and `set_frequency` with the state they
keep, the drains of the device, and the runs of these from `reset_audio`.

Does not own: the arithmetic of floats, the resampling, and the device.

Buffers are indexed in floats, and `std::vector` sizes do not wrap.
-/

set_option autoImplicit false

namespace StadiumRecomp.Audio

open StadiumRecomp.Lib

/-! ## What the code calls -/

/-- Floats as far as the code touches them, and the two calls of SDL's converter. -/
structure Host (α : Type) where
  zero : α
  /-- `main_volume == 0.0f`. -/
  isZero : α → Bool
  /-- `audio_data[i] * (0.5f / 32768.0f) * main_volume`. -/
  scale : Int16 → α → α
  /-- `SDL_BuildAudioCVT` for two rates: `len_mult`, or an error. -/
  buildCvt : Nat → Nat → Option Nat
  /-- `SDL_ConvertAudio` for two rates, `buf` and `len`: the floats of `buf` up to
  `len_cvt`, or an error. -/
  convert : Nat → Nat → List α → Int → Option (List α)

/-- Whole stereo frames, no fewer than the ratio of the rates requires, and `len_cvt` is an
`int`. -/
structure Host.Lawful {α : Type} (host : Host α) : Prop where
  whole : ∀ rate out buffer frames converted, 0 < rate → 2 * frames ≤ buffer.length →
    host.convert rate out buffer (frames * 8 : Nat) = some converted → converted.length % 2 = 0
  enough : ∀ rate out buffer frames converted, 0 < rate → 2 * frames ≤ buffer.length →
    host.convert rate out buffer (frames * 8 : Nat) = some converted →
      frames * out / rate ≤ converted.length / 2
  bounded : ∀ rate out buffer len converted, host.convert rate out buffer len = some converted →
    4 * converted.length < 2 ^ 31

/-! ## State -/

def inputChannels : Nat := 2
def outputChannels : Nat := 2
def bytesPerFrame : Nat := outputChannels * 4
def duplicatedInputFrames : Nat := 4

/-- `duplicated_input_frames * input_channels`. -/
def duplicatedSamples : Nat := 8

/-- A value stored in a `uint32_t`. -/
def u32 (value : Nat) : Nat := value % 2 ^ 32

/-- A `size_t` stored in an `int`. -/
def int32 (value : Nat) : Int :=
  if u32 value < 2 ^ 31 then (u32 value : Int) else (u32 value : Int) - 2 ^ 32

structure State (α : Type) where
  sampleRate : Nat
  outputSampleRate : Nat
  discardedOutputFrames : Nat
  lenMult : Nat
  swapBuffer : List α
  duplicatedSampleBuffer : Vector α 8
  /-- Bytes in the queue of the device. -/
  queued : Nat

/-- How a call ends other than by returning. -/
inductive Stop where
  | thrown
  | undefined
deriving DecidableEq, Repr

/-- What a call hands to `SDL_QueueAudio`. -/
structure Block (α : Type) where
  /-- The floats that `SDL_ConvertAudio` left in front of the buffer. -/
  converted : List α
  /-- `swap_buffer` as the device reads it. -/
  buffer : List α
  /-- `samples_to_queue - swap_buffer.data()`. -/
  start : Nat
  numBytes : Nat

section Calls

variable {α : Type} (host : Host α)

def updateAudioConverter (state : State α) : Except Stop (State α) :=
  match host.buildCvt state.sampleRate state.outputSampleRate with
  | none => .error .thrown
  | some lenMult => .ok {
      state with
      lenMult := lenMult
      discardedOutputFrames :=
        u32 (duplicatedInputFrames * state.outputSampleRate / state.sampleRate) }

def setFrequency (state : State α) (freq : Nat) : Except Stop (State α) :=
  updateAudioConverter host { state with sampleRate := freq }

/-- The statics behind `reset_audio(48000)`. -/
def resetAudio : Except Stop (State α) :=
  updateAudioConverter host {
    sampleRate := 32000
    outputSampleRate := 48000
    discardedOutputFrames := 0
    lenMult := 0
    swapBuffer := []
    duplicatedSampleBuffer := Vector.replicate 8 host.zero
    queued := 0 }

/-! ## `queue_samples` -/

/-- Floats stored from a position on. -/
def store (buffer : List α) (position : Nat) (values : List α) : List α :=
  buffer.take position ++ values ++ buffer.drop (position + values.length)

/-- `swap_buffer` resized for a packet, the end of the last one in front. -/
def prepare (state : State α) (sampleCount : Nat) : State α :=
  let resampled := sampleCount + duplicatedSamples
  let maxSampleCount := max resampled (resampled * state.lenMult)
  let grown := state.swapBuffer ++
    List.replicate (maxSampleCount - state.swapBuffer.length) host.zero
  { state with swapBuffer := store grown 0 state.duplicatedSampleBuffer.toList }

/-- Left and right change places; a packet has them as the words of a frame. -/
def floatFrames (volume : α) (audioData : List (Int16 × Int16)) : List α :=
  audioData.flatMap fun frame => [host.scale frame.2 volume, host.scale frame.1 volume]

/-- The call up to `SDL_ConvertAudio`: the converted floats, or none for one that has
returned. -/
def convertPacket (state : State α) (volume : α) (audioData : List (Int16 × Int16)) :
    State α × Option (List α) :=
  let sampleCount := inputChannels * audioData.length
  let state := prepare host state sampleCount
  if host.isZero volume then (state, none)
  else
    let buffer := store state.swapBuffer duplicatedSamples (floatFrames host volume audioData)
    let state := { state with swapBuffer := buffer }
    if sampleCount ≤ duplicatedSamples then (state, none)
    else
      let state := { state with
        duplicatedSampleBuffer :=
          Vector.ofFn fun i => buffer.getD (i + sampleCount) host.zero }
      let len := int32 ((sampleCount + duplicatedSamples) * 4)
      match host.convert state.sampleRate state.outputSampleRate buffer len with
      | none => (state, none)
      | some converted => ({ state with swapBuffer := store buffer 0 converted }, some converted)

/-- `cur_queued_microseconds`; `SDL_GetQueuedAudioSize` returns 32 bits. -/
def curQueuedMicroseconds (state : State α) : Nat :=
  u32 state.queued / bytesPerFrame * 1000000 / state.sampleRate

def skipFactor (state : State α) : Nat := u32 (curQueuedMicroseconds state / 100000)

/-- `num_bytes_to_queue` in front of the decimation. -/
def numBytesToQueue (state : State α) (lenCvt : Nat) : Nat :=
  (((lenCvt : Int) - u32 (outputChannels * state.discardedOutputFrames) * 4) % 2 ^ 32).toNat

/-- `samples_to_queue` in front of the decimation. -/
def samplesToQueue (state : State α) : Nat :=
  u32 (outputChannels * state.discardedOutputFrames) / 2

/-- The assignments of the decimation loop. -/
def decimation (start skipRatio numBytes : Nat) : List Move :=
  (List.range (numBytes / (outputChannels * 4))).flatMap fun i =>
    [⟨start + (u32 (2 * skipRatio) * i + 0), start + (2 * i + 0)⟩,
      ⟨start + (u32 (2 * skipRatio) * i + 1), start + (2 * i + 1)⟩]

/-- The call behind `SDL_ConvertAudio`. A shift by 32 or more is undefined. -/
def drainAndQueue (state : State α) (converted : List α) : Except Stop (State α × Block α) :=
  let numBytes := numBytesToQueue state (4 * converted.length)
  let start := samplesToQueue state
  let skip := skipFactor state
  if skip = 0 then
    .ok ({ state with queued := state.queued + numBytes },
      ⟨converted, state.swapBuffer, start, numBytes⟩)
  else if 32 ≤ skip then .error .undefined
  else
    let skipRatio := 2 ^ skip
    let numBytes := numBytes / skipRatio
    let buffer := Move.applyAll (decimation start skipRatio numBytes) state.swapBuffer
    .ok ({ state with swapBuffer := buffer, queued := state.queued + numBytes },
      ⟨converted, buffer, start, numBytes⟩)

def queueSamples (state : State α) (volume : α) (audioData : List (Int16 × Int16)) :
    Except Stop (State α × List (Block α)) :=
  match convertPacket host state volume audioData with
  | (state, none) => .ok (state, [])
  | (state, some converted) => do
      let (state, block) ← drainAndQueue state converted
      return (state, [block])

/-! ## Runs -/

/-- What happens to the queue: a packet has an even number of samples. -/
inductive Event (α : Type) where
  | setFrequency (freq : Nat)
  | queueSamples (volume : α) (audioData : List (Int16 × Int16))
  | drain (bytes : Nat)

/-- A rate that `set_frequency` can be called with is positive. -/
def Event.Valid : Event α → Prop
  | .setFrequency freq => 0 < freq ∧ freq < 2 ^ 32
  | _ => True

def step (state : State α) : Event α → Except Stop (State α × List (Block α))
  | .setFrequency freq => do
      let state ← setFrequency host state freq
      return (state, [])
  | .queueSamples volume audioData => queueSamples host state volume audioData
  | .drain bytes => .ok ({ state with queued := state.queued - bytes }, [])

/-- The runs whose steps all meet a condition, with the blocks handed over so far. -/
inductive Run (meets : State α → Event α → Prop) : State α → List (Block α) → Prop
  | reset {state : State α} (started : resetAudio host = .ok state) : Run meets state []
  | step {state next : State α} {blocks more : List (Block α)} {event : Event α}
      (run : Run meets state blocks) (valid : event.Valid) (met : meets state event)
      (stepped : Audio.step host state event = .ok (next, more)) : Run meets next (blocks ++ more)

/-! ## What a call leaves alone -/

variable {host}

theorem length_store {buffer values : List α} {position : Nat}
    (fits : position + values.length ≤ buffer.length) :
    (store buffer position values).length = buffer.length := by
  unfold store
  rw [List.length_append, List.length_append, List.length_take, List.length_drop]
  omega

theorem getElem?_store_zero {buffer values : List α} {i : Nat} (inside : i < values.length) :
    (store buffer 0 values)[i]? = values[i]? := by
  unfold store
  rw [List.take_zero, List.nil_append, List.getElem?_append_left inside]

theorem length_floatFrames (volume : α) (audioData : List (Int16 × Int16)) :
    (floatFrames host volume audioData).length = inputChannels * audioData.length := by
  unfold floatFrames inputChannels
  induction audioData with
  | nil => rfl
  | cons frame rest inductionHypothesis =>
      rw [List.flatMap_cons, List.length_append, inductionHypothesis]
      show 2 + 2 * rest.length = 2 * (rest.length + 1)
      omega

theorem length_prepare (state : State α) (sampleCount : Nat) :
    sampleCount + duplicatedSamples ≤ (prepare host state sampleCount).swapBuffer.length := by
  unfold prepare
  simp only
  rw [length_store]
  · rw [List.length_append, List.length_replicate]
    omega
  · rw [List.length_append, List.length_replicate, Vector.length_toList]
    unfold duplicatedSamples
    omega

/-- Only the two buffers change in front of the queue. -/
theorem convertPacket_frame (state : State α) (volume : α) (audioData : List (Int16 × Int16)) :
    ∃ swapBuffer duplicated, (convertPacket host state volume audioData).1 =
      { state with swapBuffer := swapBuffer, duplicatedSampleBuffer := duplicated } := by
  unfold convertPacket
  simp only
  split
  · exact ⟨_, _, rfl⟩
  split
  · exact ⟨_, _, rfl⟩
  split
  · exact ⟨_, _, rfl⟩
  · exact ⟨_, _, rfl⟩

/-- What the converter was called with. -/
theorem convertPacket_some {state : State α} {volume : α} {audioData : List (Int16 × Int16)}
    {converted : List α} (found : (convertPacket host state volume audioData).2 = some converted) :
    ∃ buffer, inputChannels * audioData.length + duplicatedSamples ≤ buffer.length ∧
      host.convert state.sampleRate state.outputSampleRate buffer
        (int32 ((inputChannels * audioData.length + duplicatedSamples) * 4)) = some converted ∧
      (convertPacket host state volume audioData).1.swapBuffer = store buffer 0 converted := by
  have room := @length_prepare α host state (inputChannels * audioData.length)
  have filled := @length_floatFrames α host volume audioData
  unfold convertPacket at found ⊢
  simp only at found ⊢
  split at found
  · cases found
  next loud =>
    split at found
    · cases found
    next long =>
      split at found
      · cases found
      next converted' success =>
        cases found
        rw [if_neg loud, if_neg long]
        refine ⟨_, ?_, success, rfl⟩
        rw [length_store]
        · exact room
        · rw [filled]
          omega

/-- A packet that is heard and longer than the duplicated frames reaches the converter. -/
theorem convertPacket_eq {state : State α} {volume : α} {audioData : List (Int16 × Int16)}
    (loud : host.isZero volume = false) (long : 4 < audioData.length) :
    ∃ buffer, (convertPacket host state volume audioData).2 =
      host.convert state.sampleRate state.outputSampleRate buffer
        (int32 ((inputChannels * audioData.length + duplicatedSamples) * 4)) := by
  have more : ¬ inputChannels * audioData.length ≤ duplicatedSamples := by
    unfold inputChannels duplicatedSamples
    omega
  unfold convertPacket
  simp only [loud, if_neg more, Bool.false_eq_true, if_false]
  refine ⟨store (prepare host state (inputChannels * audioData.length)).swapBuffer
    duplicatedSamples (floatFrames host volume audioData), ?_⟩
  split
  next failed => exact failed.symm
  next converted success => exact success.symm

/-! ## A converter -/

/-- Each output frame repeats an input frame. -/
def nearest : Host Int where
  zero := 0
  isZero volume := volume == 0
  scale word volume := word.toInt * volume
  buildCvt rate out := some (out / rate + 1)
  convert rate out buffer len :=
    let frames := len.toNat / 8 * out / rate
    if 8 * frames < 2 ^ 31 then
      some ((List.range frames).flatMap fun j =>
        [buffer.getD (2 * (j * rate / out)) 0, buffer.getD (2 * (j * rate / out) + 1) 0])
    else none

theorem length_nearest {rate out : Nat} {buffer converted : List Int} {len : Int}
    (success : nearest.convert rate out buffer len = some converted) :
    converted.length = 2 * (len.toNat / 8 * out / rate) ∧ 4 * converted.length < 2 ^ 31 := by
  have doubled : ∀ (frames : Nat) (frame : Nat → Int × Int),
      ((List.range frames).flatMap fun j => [(frame j).1, (frame j).2]).length = 2 * frames := by
    intro frames frame
    induction frames with
    | zero => rfl
    | succ frames inductionHypothesis =>
        rw [List.range_succ, List.flatMap_append, List.length_append, inductionHypothesis]
        rfl
  unfold nearest at success
  simp only at success
  split at success
  next fits =>
    cases success
    have same := doubled (len.toNat / 8 * out / rate) fun j =>
      (buffer.getD (2 * (j * rate / out)) 0, buffer.getD (2 * (j * rate / out) + 1) 0)
    simp only at same
    rw [same]
    omega
  next => cases success

theorem lawful_nearest : nearest.Lawful where
  whole := by
    intro rate out buffer frames converted _ _ success
    have length := (length_nearest success).1
    omega
  enough := by
    intro rate out buffer frames converted _ _ success
    have length := (length_nearest success).1
    rw [Int.toNat_natCast, Nat.mul_div_cancel frames (by decide)] at length
    omega
  bounded := by
    intro rate out buffer len converted success
    exact (length_nearest success).2

end Calls

end StadiumRecomp.Audio
