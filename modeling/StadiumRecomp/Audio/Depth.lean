import StadiumRecomp.Audio.Queue

/-!
Contract: the drain of a deep queue.

Owns: the rates as every run keeps them, the sizes behind a conversion, when the decimation
is defined and what it leaves.

Does not own: the alignment of what is queued.

The queue holds frames of the output rate and its depth is measured at the input rate. Each
whole tenth of a second halves what is queued once more.
-/

set_option autoImplicit false

namespace StadiumRecomp.Audio

open StadiumRecomp.Lib

section Depth

variable {α : Type} {host : Host α}

/-! ## Rates -/

/-- What every run keeps: a positive rate, and the frames to discard computed from it. -/
structure Configured (state : State α) : Prop where
  rate : 0 < state.sampleRate
  output : state.outputSampleRate = 48000
  discarded : state.discardedOutputFrames = 4 * 48000 / state.sampleRate

theorem configured_of_update {state next : State α} (rate : 0 < state.sampleRate)
    (output : state.outputSampleRate = 48000)
    (updated : updateAudioConverter host state = .ok next) : Configured next := by
  unfold updateAudioConverter at updated
  split at updated
  · cases updated
  · cases updated
    have few : 4 * 48000 / state.sampleRate < 2 ^ 32 :=
      Nat.lt_of_le_of_lt (Nat.div_le_self _ _) (by decide)
    refine ⟨rate, output, ?_⟩
    show u32 (duplicatedInputFrames * state.outputSampleRate / state.sampleRate) = _
    rw [output]
    exact Nat.mod_eq_of_lt few

theorem Configured.of_rates {state next : State α} (configured : Configured state)
    (rate : next.sampleRate = state.sampleRate)
    (output : next.outputSampleRate = state.outputSampleRate)
    (discarded : next.discardedOutputFrames = state.discardedOutputFrames) : Configured next where
  rate := rate ▸ configured.rate
  output := output.trans configured.output
  discarded := by rw [discarded, rate, configured.discarded]

theorem Configured.packet {state : State α} (configured : Configured state) (volume : α)
    (audioData : List (Int16 × Int16)) :
    Configured (convertPacket host state volume audioData).1 := by
  obtain ⟨swapBuffer, duplicated, same⟩ := @convertPacket_frame α host state volume audioData
  rw [same]
  exact configured.of_rates rfl rfl rfl

/-- The rates outlive the queueing. -/
theorem drainAndQueue_frame {state next : State α} {converted : List α} {block : Block α}
    (queued : drainAndQueue state converted = .ok (next, block)) :
    ∃ swapBuffer, next =
      { state with swapBuffer := swapBuffer, queued := state.queued + block.numBytes } := by
  unfold drainAndQueue at queued
  simp only at queued
  split at queued
  · cases queued
    exact ⟨_, rfl⟩
  split at queued
  · cases queued
  · cases queued
    exact ⟨_, rfl⟩

theorem queueSamples_cases {state next : State α} {volume : α}
    {audioData : List (Int16 × Int16)} {blocks : List (Block α)}
    (called : queueSamples host state volume audioData = .ok (next, blocks)) :
    ((convertPacket host state volume audioData).2 = none ∧ blocks = [] ∧
      next = (convertPacket host state volume audioData).1) ∨
    ∃ converted block, (convertPacket host state volume audioData).2 = some converted ∧
      drainAndQueue (convertPacket host state volume audioData).1 converted =
        .ok (next, block) ∧ blocks = [block] := by
  unfold queueSamples at called
  generalize convertPacket host state volume audioData = packet at called ⊢
  obtain ⟨behind, found⟩ := packet
  cases found with
  | none =>
      cases called
      exact .inl ⟨rfl, rfl, rfl⟩
  | some converted =>
      cases queued : drainAndQueue behind converted with
      | error stop =>
          simp only [queued] at called
          cases called
      | ok result =>
          simp only [queued] at called
          cases called
          exact .inr ⟨converted, result.2, rfl, queued, rfl⟩

theorem Configured.step {state next : State α} {event : Event α} {blocks : List (Block α)}
    (configured : Configured state) (valid : event.Valid)
    (stepped : Audio.step host state event = .ok (next, blocks)) : Configured next := by
  cases event with
  | setFrequency freq =>
      cases updated : setFrequency host state freq with
      | error stop =>
          rw [Audio.step, updated] at stepped
          cases stepped
      | ok result =>
          rw [Audio.step, updated] at stepped
          cases stepped
          have rate : 0 < ({ state with sampleRate := freq } : State α).sampleRate := valid.1
          exact configured_of_update rate configured.output updated
  | queueSamples volume audioData =>
      have behind := @Configured.packet α host state configured volume audioData
      rcases queueSamples_cases stepped with ⟨_, _, rfl⟩ | ⟨converted, block, _, queued, _⟩
      · exact behind
      · obtain ⟨swapBuffer, rfl⟩ := drainAndQueue_frame queued
        exact behind.of_rates rfl rfl rfl
  | drain bytes =>
      cases stepped
      exact configured.of_rates rfl rfl rfl

theorem configured_of_run {meets : State α → Event α → Prop} {state : State α}
    {blocks : List (Block α)} (run : Run host meets state blocks) : Configured state := by
  induction run with
  | reset started => exact configured_of_update (Nat.succ_pos 31999) rfl started
  | step _ valid _ stepped inductionHypothesis => exact inductionHypothesis.step valid stepped

/-! ## Sizes -/

/-- The whole tenths of a second that the queue takes at the input rate. -/
def tenths (state : State α) : Nat := u32 (10 * (u32 state.queued / 8) / state.sampleRate)

theorem skipFactor_eq (state : State α) : skipFactor state = tenths state := by
  have scaled : u32 state.queued / 8 * 1000000 / state.sampleRate / 100000 =
      10 * (u32 state.queued / 8) / state.sampleRate := by
    rw [Nat.div_div_eq_div_mul, show u32 state.queued / 8 * 1000000 =
      10 * (u32 state.queued / 8) * 100000 by omega]
    exact Nat.mul_div_mul_right _ _ (by decide)
  unfold skipFactor tenths curQueuedMicroseconds bytesPerFrame outputChannels
  rw [scaled]

theorem tenths_packet (state : State α) (volume : α) (audioData : List (Int16 × Int16)) :
    tenths (convertPacket host state volume audioData).1 = tenths state := by
  obtain ⟨swapBuffer, duplicated, same⟩ := @convertPacket_frame α host state volume audioData
  rw [same]
  rfl

theorem int32_eq {value : Nat} (fits : value < 2 ^ 31) : int32 value = value := by
  have small : u32 value = value := Nat.mod_eq_of_lt (by omega)
  unfold int32
  rw [small, if_pos fits]

/-- The bytes of a packet's floats, the duplicated ones included, are an `int`. -/
def FitsInt (audioData : List (Int16 × Int16)) : Prop :=
  (inputChannels * audioData.length + duplicatedSamples) * 4 < 2 ^ 31

/-- The frames behind a conversion: at least as many as are discarded. -/
structure Sized (state : State α) (converted : List α) (frames : Nat) : Prop where
  whole : converted.length = 2 * frames
  enough : state.discardedOutputFrames ≤ frames
  discarded : state.discardedOutputFrames < 2 ^ 31
  bounded : 8 * frames < 2 ^ 31
  buffer : ∀ i < 2 * frames, state.swapBuffer[i]? = converted[i]?
  room : 2 * frames ≤ state.swapBuffer.length

theorem sized_of_packet {state : State α} {volume : α} {audioData : List (Int16 × Int16)}
    {converted : List α} (lawful : host.Lawful) (configured : Configured state)
    (fits : FitsInt audioData)
    (found : (convertPacket host state volume audioData).2 = some converted) :
    Sized (convertPacket host state volume audioData).1 converted (converted.length / 2) := by
  obtain ⟨buffer, room, success, swapped⟩ := convertPacket_some found
  obtain ⟨_, _, same⟩ := @convertPacket_frame α host state volume audioData
  have discarded := (@Configured.packet α host state configured volume audioData).discarded
  have few := Nat.div_le_self (4 * 48000) (convertPacket host state volume audioData).1.sampleRate
  have rate : (convertPacket host state volume audioData).1.sampleRate = state.sampleRate := by
    rw [same]
  unfold FitsInt at fits
  rw [int32_eq fits, show (inputChannels * audioData.length + duplicatedSamples) * 4 =
    (audioData.length + 4) * 8 by unfold inputChannels duplicatedSamples; omega] at success
  have inside : 2 * (audioData.length + 4) ≤ buffer.length := by
    unfold inputChannels duplicatedSamples at room
    omega
  have whole := lawful.whole _ _ _ _ _ configured.rate inside success
  have enough := lawful.enough _ _ _ _ _ configured.rate inside success
  have bounded := lawful.bounded _ _ _ _ _ success
  have fewer : 4 * 48000 / state.sampleRate ≤
      (audioData.length + 4) * state.outputSampleRate / state.sampleRate := by
    rw [configured.output]
    exact Nat.div_le_div_right (Nat.mul_le_mul_right _ (by omega))
  rw [rate] at discarded few
  refine ⟨by omega, by omega, by omega, by omega, ?_, ?_⟩
  · intro i low
    rw [swapped, getElem?_store_zero (by omega)]
  · rw [swapped]
    unfold store
    rw [List.take_zero, List.nil_append, List.length_append]
    omega

section Sizes

variable {state : State α} {converted : List α} {frames : Nat}

theorem Sized.start (sized : Sized state converted frames) :
    samplesToQueue state = state.discardedOutputFrames := by
  have small := sized.discarded
  unfold samplesToQueue u32 outputChannels
  omega

theorem Sized.numBytes (sized : Sized state converted frames) :
    numBytesToQueue state (4 * converted.length) =
      8 * (frames - state.discardedOutputFrames) := by
  have whole := sized.whole
  have enough := sized.enough
  have small := sized.discarded
  have bounded := sized.bounded
  unfold numBytesToQueue u32 outputChannels
  omega

end Sizes

/-! ## The decimation loop -/

theorem mem_decimation {start skipRatio numBytes : Nat} {move : Move} :
    move ∈ decimation start skipRatio numBytes ↔ ∃ i < numBytes / 8, ∃ channel < 2,
      move = ⟨start + (u32 (2 * skipRatio) * i + channel), start + (2 * i + channel)⟩ := by
  unfold decimation outputChannels
  rw [List.mem_flatMap]
  constructor
  · intro ⟨i, member, inside⟩
    have few := List.mem_range.mp member
    rcases List.mem_cons.mp inside with rfl | inside
    · exact ⟨i, few, 0, by decide, rfl⟩
    · cases List.mem_singleton.mp inside
      exact ⟨i, few, 1, by decide, rfl⟩
  · intro ⟨i, few, channel, stereo, same⟩
    refine ⟨i, List.mem_range.mpr few, ?_⟩
    rw [same]
    have either : channel = 0 ∨ channel = 1 := by omega
    rcases either with rfl | rfl
    · exact List.mem_cons_self
    · exact List.mem_cons_of_mem _ List.mem_cons_self

/-- The loop reads at or ahead of where it writes. -/
theorem ahead_decimation {start skipRatio numBytes : Nat} (positive : 0 < skipRatio)
    (fits : 2 * skipRatio < 2 ^ 32) : Move.Ahead (decimation start skipRatio numBytes) := by
  have product : u32 (2 * skipRatio) = 2 * skipRatio := Nat.mod_eq_of_lt fits
  unfold Move.Ahead decimation
  rw [product, List.pairwise_flatMap]
  constructor
  · intro i _
    have scaled : i ≤ skipRatio * i := Nat.le_mul_of_pos_left i positive
    have doubled : 2 * skipRatio * i = 2 * (skipRatio * i) := Nat.mul_assoc 2 skipRatio i
    apply List.pairwise_pair.mpr
    show _ ≠ start + (2 * i + 0) ∧ start + (2 * i + 1) ≠ start + (2 * i + 0)
    constructor
    · show start + (2 * skipRatio * i + 1) ≠ start + (2 * i + 0)
      omega
    · omega
  · apply List.Pairwise.imp _ List.pairwise_lt_range
    intro i j before first firstIn second secondIn
    have scaled : j ≤ skipRatio * j := Nat.le_mul_of_pos_left j positive
    have doubled : 2 * skipRatio * j = 2 * (skipRatio * j) := Nat.mul_assoc 2 skipRatio j
    simp only [List.mem_cons, List.not_mem_nil, or_false] at firstIn secondIn
    rcases firstIn with rfl | rfl <;> rcases secondIn with rfl | rfl <;>
      exact ⟨by simp only; omega, by simp only; omega⟩

/-- What the decimation is to be, behind a conversion. -/
structure DecimationDefined (state : State α) (converted : List α) : Prop where
  /-- `1u << skip_factor`. -/
  shift : 2 ^ skipFactor state < 2 ^ 32
  /-- `2 * skip_ratio`. -/
  product : 2 * 2 ^ skipFactor state < 2 ^ 32
  /-- `num_bytes_to_queue`. -/
  noUnderflow : u32 (outputChannels * state.discardedOutputFrames) * 4 ≤ 4 * converted.length
  /-- Every read lies in the block that would be queued otherwise. -/
  reads : ∀ move ∈ decimation (samplesToQueue state) (2 ^ skipFactor state)
      (numBytesToQueue state (4 * converted.length) / 2 ^ skipFactor state),
    samplesToQueue state ≤ move.source ∧
      4 * (move.source + 1) ≤
        4 * samplesToQueue state + numBytesToQueue state (4 * converted.length) ∧
      move.source < converted.length
  /-- Frame `i` is frame `i * skip_ratio` of that block. -/
  frames : ∀ i < numBytesToQueue state (4 * converted.length) / 2 ^ skipFactor state / 8,
    ∀ channel < 2,
      (Move.applyAll (decimation (samplesToQueue state) (2 ^ skipFactor state)
        (numBytesToQueue state (4 * converted.length) / 2 ^ skipFactor state))
          state.swapBuffer)[samplesToQueue state + (2 * i + channel)]? =
        converted[samplesToQueue state + (2 * (i * 2 ^ skipFactor state) + channel)]?

theorem source_bound {left ratio i channel : Nat} (kept : i < 8 * left / ratio / 8)
    (stereo : channel < 2) : 2 * (i * ratio) + channel < 2 * left := by
  have few : i < left / ratio := by
    rw [Nat.div_div_eq_div_mul, Nat.mul_comm ratio 8, ← Nat.div_div_eq_div_mul,
      Nat.mul_div_cancel_left left (by decide)] at kept
    exact kept
  have positive : 0 < ratio := by
    apply Nat.pos_of_ne_zero
    rintro rfl
    rw [Nat.div_zero] at few
    exact Nat.not_lt_zero i few
  have inside : (i + 1) * ratio ≤ left := (Nat.le_div_iff_mul_le positive).mp few
  rw [Nat.succ_mul] at inside
  omega

theorem decimationDefined_of_sized {state : State α} {converted : List α} {frames : Nat}
    (sized : Sized state converted frames) (shallow : tenths state ≤ 30) :
    DecimationDefined state converted := by
  have power : 2 ^ tenths state ≤ 2 ^ 30 := Nat.pow_le_pow_right (by decide) shallow
  have positive : 0 < 2 ^ tenths state := Nat.two_pow_pos _
  have product : u32 (2 * 2 ^ tenths state) = 2 * 2 ^ tenths state :=
    Nat.mod_eq_of_lt (by omega)
  have whole := sized.whole
  have enough := sized.enough
  have few := sized.discarded
  have room := sized.room
  generalize ratio_eq : 2 ^ tenths state = ratio at *
  have source : ∀ i channel, i < 8 * (frames - state.discardedOutputFrames) / ratio / 8 →
      channel < 2 → u32 (2 * ratio) * i + channel = 2 * (i * ratio) + channel ∧
        2 * (i * ratio) + channel < 2 * (frames - state.discardedOutputFrames) ∧
        i ≤ i * ratio := by
    intro i channel kept stereo
    rw [product, Nat.mul_assoc, Nat.mul_comm ratio i]
    exact ⟨rfl, source_bound kept stereo, Nat.le_mul_of_pos_right i positive⟩
  have skip : 2 ^ skipFactor state = ratio := by rw [skipFactor_eq, ratio_eq]
  refine ⟨?_, ?_, ?_, ?_, ?_⟩
  · rw [skip]
    omega
  · rw [skip]
    omega
  · unfold u32 outputChannels
    omega
  · rw [skip, sized.start, sized.numBytes]
    intro move member
    obtain ⟨i, kept, channel, stereo, rfl⟩ := mem_decimation.mp member
    obtain ⟨same, bound, _⟩ := source i channel kept stereo
    simp only
    omega
  · rw [skip, sized.start, sized.numBytes]
    intro i kept channel stereo
    have ahead := @ahead_decimation state.discardedOutputFrames ratio
      (8 * (frames - state.discardedOutputFrames) / ratio) positive (by omega)
    have inside : ∀ move ∈ decimation state.discardedOutputFrames ratio
        (8 * (frames - state.discardedOutputFrames) / ratio),
        move.source < state.swapBuffer.length ∧ move.target < state.swapBuffer.length := by
      intro move member
      obtain ⟨j, kept, channel, stereo, rfl⟩ := mem_decimation.mp member
      obtain ⟨same, bound, behind⟩ := source j channel kept stereo
      simp only
      omega
    have copied := Move.getElem?_applyAll ahead inside _
      (mem_decimation.mpr ⟨i, kept, channel, stereo, rfl⟩)
    obtain ⟨same, bound, _⟩ := source i channel kept stereo
    simp only at copied
    rw [copied, same]
    exact sized.buffer _ (by omega)

/-! ## Runs -/

/-- A packet that reaches the converter is an `int` long, and finds less than 3.1 seconds in
the queue. -/
def Shallow (host : Host α) (state : State α) : Event α → Prop
  | .queueSamples volume audioData => ∀ converted,
      (convertPacket host state volume audioData).2 = some converted →
        FitsInt audioData ∧ tenths state ≤ 30
  | _ => True

/-- Below 3.2 seconds, the shift is defined. -/
theorem queueSamples_defined {state : State α} {volume : α} {audioData : List (Int16 × Int16)}
    (low : ∀ converted, (convertPacket host state volume audioData).2 = some converted →
      tenths state < 32) : queueSamples host state volume audioData ≠ .error .undefined := by
  have same := @tenths_packet α host state volume audioData
  intro undefined
  unfold queueSamples at undefined
  split at undefined
  · cases undefined
  next behind converted packet =>
    rw [packet] at low same
    have below := low converted rfl
    rw [← same, ← skipFactor_eq] at below
    have defined : ¬ 32 ≤ skipFactor behind := Nat.not_le.mpr below
    unfold drainAndQueue at undefined
    simp only [if_neg defined] at undefined
    split at undefined <;> cases undefined

/-- In every run whose packets find a shallow queue, the decimation is defined at each of
them, and no call is undefined. -/
theorem decimationDefined_of_run (lawful : host.Lawful) {state : State α}
    {blocks : List (Block α)} (run : Run host (Shallow host) state blocks) {volume : α}
    {audioData : List (Int16 × Int16)}
    (shallow : Shallow host state (.queueSamples volume audioData)) :
    (∀ converted, (convertPacket host state volume audioData).2 = some converted →
      DecimationDefined (convertPacket host state volume audioData).1 converted) ∧
    queueSamples host state volume audioData ≠ .error .undefined := by
  have defined : ∀ converted, (convertPacket host state volume audioData).2 = some converted →
      DecimationDefined (convertPacket host state volume audioData).1 converted := by
    intro converted found
    obtain ⟨fits, deep⟩ := shallow converted found
    apply decimationDefined_of_sized
      (sized_of_packet lawful (configured_of_run run) fits found)
    rw [tenths_packet]
    exact deep
  refine ⟨defined, ?_⟩
  apply queueSamples_defined
  intro converted found
  exact Nat.lt_of_le_of_lt (shallow converted found).2 (by decide)

/-- An empty queue takes the whole packet. -/
theorem queueSamples_empty {state : State α} {volume : α} {audioData : List (Int16 × Int16)}
    {converted : List α} (found : (convertPacket host state volume audioData).2 = some converted)
    (empty : tenths state = 0) :
    ∃ next block, queueSamples host state volume audioData = .ok (next, [block]) ∧
      next.sampleRate = state.sampleRate ∧ next.outputSampleRate = state.outputSampleRate ∧
      next.queued = state.queued +
        numBytesToQueue (convertPacket host state volume audioData).1 (4 * converted.length) ∧
      block.start = samplesToQueue (convertPacket host state volume audioData).1 ∧
      block.numBytes =
        numBytesToQueue (convertPacket host state volume audioData).1 (4 * converted.length) := by
  obtain ⟨swapBuffer, duplicated, same⟩ := @convertPacket_frame α host state volume audioData
  have none : skipFactor (convertPacket host state volume audioData).1 = 0 := by
    rw [skipFactor_eq, tenths_packet, empty]
  unfold queueSamples
  generalize convertPacket host state volume audioData = packet at *
  obtain ⟨behind, outcome⟩ := packet
  rw [show outcome = some converted from found]
  simp only [drainAndQueue, if_pos none]
  refine ⟨_, _, rfl, ?_⟩
  rw [show behind = _ from same]
  exact ⟨rfl, rfl, rfl, rfl, rfl⟩

/-- From 3.2 seconds on, the shift is undefined. -/
theorem queueSamples_deep {state : State α} {volume : α} {audioData : List (Int16 × Int16)}
    {converted : List α} (found : (convertPacket host state volume audioData).2 = some converted)
    (deep : 32 ≤ tenths state) : queueSamples host state volume audioData = .error .undefined := by
  have high : 32 ≤ skipFactor (convertPacket host state volume audioData).1 := by
    rw [skipFactor_eq, tenths_packet]
    exact deep
  unfold queueSamples
  generalize convertPacket host state volume audioData = packet at *
  obtain ⟨behind, outcome⟩ := packet
  have positive : ¬ skipFactor behind = 0 := by
    have far : 32 ≤ skipFactor behind := high
    omega
  rw [show outcome = some converted from found]
  simp only [drainAndQueue, if_neg positive, if_pos high]
  rfl

/-- Seventy thousand frames of silence. -/
def longPacket : List (Int16 × Int16) := List.replicate 70000 (0, 0)


end Depth

/-- The statics behind `reset_audio`. -/
def startState : State Int where
  sampleRate := 32000
  outputSampleRate := 48000
  discardedOutputFrames := 6
  lenMult := 2
  swapBuffer := []
  duplicatedSampleBuffer := Vector.replicate 8 0
  queued := 0

/-- The converter takes a packet of silence whose floats have an `int` length. -/
theorem nearest_packet (state : State Int) {audioData : List (Int16 × Int16)}
    (long : 4 < audioData.length) (fits : FitsInt audioData)
    (bounded : 8 * ((audioData.length + 4) * state.outputSampleRate / state.sampleRate) < 2 ^ 31) :
    ∃ converted, (convertPacket nearest state 1 audioData).2 = some converted ∧
      converted.length =
        2 * ((audioData.length + 4) * state.outputSampleRate / state.sampleRate) := by
  obtain ⟨buffer, reaches⟩ := @convertPacket_eq Int nearest state 1 audioData rfl long
  have frames : (int32 ((inputChannels * audioData.length + duplicatedSamples) * 4)).toNat / 8 =
      audioData.length + 4 := by
    rw [int32_eq fits]
    unfold inputChannels duplicatedSamples
    omega
  cases converts : nearest.convert state.sampleRate state.outputSampleRate buffer
      (int32 ((inputChannels * audioData.length + duplicatedSamples) * 4)) with
  | none =>
      unfold nearest at converts
      simp only [frames, if_pos bounded] at converts
      cases converts
  | some converted =>
      have length := (length_nearest converts).1
      rw [frames] at length
      rw [converts] at reaches
      exact ⟨converted, reaches, length⟩

/-- Five frames of silence on the empty queue. -/
theorem decimationDefined_of_run_silence :
    (∀ converted, (convertPacket nearest startState 1 (List.replicate 5 (0, 0))).2 =
      some converted → DecimationDefined
        (convertPacket nearest startState 1 (List.replicate 5 (0, 0))).1 converted) ∧
    queueSamples nearest startState 1 (List.replicate 5 (0, 0)) ≠ .error .undefined :=
  decimationDefined_of_run lawful_nearest (.reset rfl)
    (fun _ _ => ⟨by unfold FitsInt; decide, by decide⟩)

/-- The second of two packets of more than two seconds each shifts `1u` by 32. -/
theorem decimation_undefined :
    nearest.Lawful ∧ ∃ state blocks, Run nearest (fun _ _ => True) state blocks ∧
      queueSamples nearest state 1 longPacket = .error .undefined ∧
      ∃ converted, (convertPacket nearest state 1 longPacket).2 = some converted ∧
        ¬ DecimationDefined (convertPacket nearest state 1 longPacket).1 converted := by
  have length : longPacket.length = 70000 := List.length_replicate
  have fits : FitsInt longPacket := by
    unfold FitsInt
    rw [length]
    decide
  have started : resetAudio nearest = .ok startState := rfl
  have run : Run nearest (fun _ _ => True) startState [] := .reset started
  obtain ⟨converted, found, frames⟩ := nearest_packet startState (by omega) fits
    (by rw [length]; decide)
  have sized := sized_of_packet lawful_nearest (configured_of_run run) fits found
  obtain ⟨next, block, called, rate, output, queued, _, _⟩ :=
    @queueSamples_empty Int nearest startState 1 longPacket converted found rfl
  have queuedBytes : next.queued = 840000 := by
    have discarded : (convertPacket nearest startState 1 longPacket).1.discardedOutputFrames = 6 := by
      obtain ⟨_, _, same⟩ := @convertPacket_frame Int nearest startState 1 longPacket
      rw [same]
      rfl
    rw [queued, sized.numBytes, discarded, frames, length]
    rfl
  have deep : tenths next = 32 := by
    unfold tenths
    rw [queuedBytes, rate]
    rfl
  have valid : Event.Valid (Event.queueSamples (1 : Int) longPacket) := trivial
  have stepped : step nearest startState (.queueSamples 1 longPacket) = .ok (next, [block]) := called
  have secondRun : Run nearest (fun _ _ => True) next ([] ++ [block]) :=
    .step run valid trivial stepped
  obtain ⟨again, secondFound, _⟩ := nearest_packet next (by omega) fits
    (by rw [length, rate, output]; decide)
  refine ⟨lawful_nearest, next, _, secondRun, queueSamples_deep secondFound (by omega), again,
    secondFound, ?_⟩
  intro defined
  have shift := defined.shift
  rw [skipFactor_eq, tenths_packet, deep] at shift
  exact absurd shift (Nat.lt_irrefl _)

end StadiumRecomp.Audio
