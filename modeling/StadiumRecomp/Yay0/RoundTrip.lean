import Mathlib.Data.Nat.Bitwise
import StadiumRecomp.Yay0.Decompress
import StadiumRecomp.Yay0.Encoding

/-!
Contract: the oracle decodes every stream of the Yay0 layout.

Owns: what each read of the loop finds in an encoding, the state of the loop in front of
the tokens that remain, and the result of the whole loop.

Does not own: blobs that are no encoding.
-/

set_option autoImplicit false

namespace StadiumRecomp.Yay0

open StadiumRecomp.Lib

/-! ## Reads of laid bytes -/

theorem unpackU32_of_laid {blob : Bytes} {pos value : Nat} (fits : value < 0x100000000)
    (laid : Laid blob pos (u32Bytes value)) : unpackU32 blob pos = .ok value := by
  obtain ⟨tail, whole⟩ := laid
  unfold unpackU32
  rw [← whole]
  simp only [u32Bytes, List.cons_append, UInt8.toNat_ofNat']
  congr 1
  omega

theorem unpackU16_of_laid {blob : Bytes} {pos value : Nat} (fits : value < 0x10000)
    (laid : Laid blob pos (u16Bytes value)) : unpackU16 blob pos = .ok value := by
  obtain ⟨tail, whole⟩ := laid
  unfold unpackU16
  rw [← whole]
  simp only [u16Bytes, List.cons_append, UInt8.toNat_ofNat']
  congr 1
  omega

theorem byteAt_of_laid {blob : Bytes} {pos : Nat} {byte : UInt8}
    (laid : Laid blob pos [byte]) : byteAt blob pos = .ok byte := by
  obtain ⟨tail, whole⟩ := laid
  have stands : blob[pos]? = some byte := by
    have head : (blob.drop pos)[0]? = some byte := by rw [← whole]; rfl
    rw [List.getElem?_drop] at head
    exact head
  have forward : ¬ (pos : Int) < 0 := by omega
  unfold byteAt
  simp only [forward, if_false, Int.toNat_natCast, stands]

theorem unpackU32_lt {blob : Bytes} {pos word : Nat} (read : unpackU32 blob pos = .ok word) :
    word < 0x100000000 := by
  unfold unpackU32 at read
  split at read
  next first second third last rest _ =>
    cases read
    have bounds := And.intro first.toNat_lt (And.intro second.toNat_lt
      (And.intro third.toNat_lt last.toNat_lt))
    omega
  next => cases read

/-! ## Bits -/

theorem packBits_succ (bits : Nat → Bool) (count : Nat) :
    packBits bits (count + 1) = packBits bits count * 2 + (bits count).toNat := by
  unfold packBits
  rw [List.range_succ, List.foldl_append]
  rfl

theorem packBits_lt (bits : Nat → Bool) (count : Nat) : packBits bits count < 2 ^ count := by
  induction count with
  | zero => exact Nat.one_pos
  | succ count inductionHypothesis =>
      have bit := Bool.toNat_le (bits count)
      rw [packBits_succ, Nat.pow_succ]
      omega

/-- The first bit of a stream is the highest. -/
theorem testBit_packBits (bits : Nat → Bool) {count i : Nat} (inside : i < count) :
    (packBits bits count).testBit (count - 1 - i) = bits i := by
  induction count with
  | zero => omega
  | succ count inductionHypothesis =>
      have bit : (bits count).toNat < 2 := Bool.toNat_lt (bits count)
      rw [packBits_succ]
      by_cases last : i = count
      · subst last
        rw [show i + 1 - 1 - i = 0 by omega, Nat.testBit_zero]
        cases bits i <;> simp
      · rw [show count + 1 - 1 - i = count - 1 - i + 1 by omega, Nat.testBit_succ,
          show (packBits bits count * 2 + (bits count).toNat) / 2 = packBits bits count by omega]
        exact inductionHypothesis (by omega)

theorem laid_of_flatMap_range' {blob : Bytes} {pos first words : Nat} {word : Nat → Bytes}
    (four : ∀ k, (word k).length = 4)
    (laid : Laid blob pos ((List.range' first words).flatMap word)) {k : Nat}
    (inside : k < words) : Laid blob (pos + 4 * k) (word (first + k)) := by
  induction words generalizing pos first k with
  | zero => omega
  | succ words inductionHypothesis =>
      rw [List.range'_succ, List.flatMap_cons] at laid
      cases k with
      | zero => exact laid.front
      | succ k =>
          have behind := laid.behind (by rw [four] : _ = pos + 4)
          have found := inductionHypothesis behind (by omega : k < words)
          rw [show pos + 4 * (k + 1) = pos + 4 + 4 * k by omega,
            show first + (k + 1) = first + 1 + k by omega]
          exact found

/-- The bit at an offset from a bit position. -/
def wordBit (blob : Bytes) (pos i : Nat) : Option Bool :=
  match unpackU32 blob (pos + 4 * (i / 32)) with
  | .ok word => some (word.testBit (31 - i % 32))
  | .error _ => none

theorem wordBit_of_laid {blob : Bytes} {pos words i : Nat} {bits : List Bool}
    (laid : Laid blob pos (bitWords bits words)) (inside : i < 32 * words) :
    wordBit blob pos i = some (bits.getD i false) := by
  unfold bitWords at laid
  rw [List.range_eq_range'] at laid
  have word := laid_of_flatMap_range' (fun _ => rfl) laid (by omega : i / 32 < words)
  have read := unpackU32_of_laid (packBits_lt _ 32) word
  unfold wordBit
  rw [read]
  show some _ = some _
  rw [show 31 - i % 32 = 32 - 1 - i % 32 by rfl, testBit_packBits _ (Nat.mod_lt i (by decide)),
    show 32 * (0 + i / 32) + i % 32 = i by omega]

/-! ## The current word -/

/-- The bits of `cur`. -/
def curBits (cur : Int) : Nat := (cur % 0x100000000).toNat

def IsSigned32 (cur : Int) : Prop := -0x80000000 ≤ cur ∧ cur < 0x80000000

theorem isSigned32_signed32 {word : Int} (low : 0 ≤ word) (high : word < 0x100000000) :
    IsSigned32 (signed32 word) := by
  unfold IsSigned32 signed32
  split <;> omega

theorem curBits_signed32 {word : Int} (low : 0 ≤ word) (high : word < 0x100000000) :
    curBits (signed32 word) = word.toNat := by
  unfold curBits signed32
  split <;> omega

/-- The sign is the highest bit. -/
theorem neg_iff_testBit {cur : Int} (signed : IsSigned32 cur) :
    cur < 0 ↔ (curBits cur).testBit 31 = true := by
  unfold IsSigned32 at signed
  rw [Nat.testBit_eq_decide_div_mod_eq, decide_eq_true_eq]
  unfold curBits
  omega

theorem shiftCur_signed (cur : Int) : IsSigned32 (shiftCur cur) :=
  isSigned32_signed32 (Int.emod_nonneg _ (by decide)) (Int.emod_lt_of_pos _ (by decide))

/-- The shift moves every bit one up. -/
theorem testBit_shiftCur (cur : Int) (i : Nat) :
    (curBits (shiftCur cur)).testBit (i + 1) = ((curBits cur).testBit i && decide (i < 31)) := by
  have low : 0 ≤ cur * 2 % 0x100000000 := Int.emod_nonneg _ (by decide)
  have high : cur * 2 % 0x100000000 < 0x100000000 := Int.emod_lt_of_pos _ (by decide)
  have doubled : (cur * 2 % 0x100000000).toNat = curBits cur * 2 % 2 ^ 32 := by
    unfold curBits
    omega
  unfold shiftCur
  rw [curBits_signed32 low high, doubled, Nat.testBit_mod_two_pow, Nat.testBit_succ,
    Nat.mul_div_cancel _ (by decide), Bool.and_comm]
  congr 1
  rw [decide_eq_decide]
  omega

/-! ## The state in front of the remaining tokens -/

/-- The bit that the round after so many more tests. -/
def upcoming (blob : Bytes) (state : State) (i : Nat) : Option Bool :=
  if i < state.bitsLeft then some ((curBits state.cur).testBit (31 - i))
  else wordBit blob state.bitPos (i - state.bitsLeft)

/-- The three cursors stand in front of what the remaining tokens are made of. -/
structure Ready (blob : Bytes) (rest : List Token) (state : State) : Prop where
  links : Laid blob state.linkPos (rest.flatMap linkBytes)
  chunks : Laid blob state.chunkPos (rest.flatMap chunkBytes)
  bits : ∀ i token, rest[i]? = some token → upcoming blob state i = some (flag token)
  bounded : state.bitsLeft ≤ 32
  signed : IsSigned32 state.cur

/-- A used-up word is replaced by the next, which changes no upcoming bit. -/
theorem Ready.refill {blob : Bytes} {token : Token} {rest : List Token} {state : State}
    (ready : Ready blob (token :: rest) state) :
    ∃ next, refill blob state = .ok next ∧ Ready blob (token :: rest) next ∧
      0 < next.bitsLeft ∧ next.out = state.out := by
  by_cases used : state.bitsLeft = 0
  · have first := ready.bits 0 token rfl
    unfold upcoming wordBit at first
    rw [used, if_neg (Nat.lt_irrefl 0)] at first
    cases read : unpackU32 blob state.bitPos with
    | error fault =>
        rw [show state.bitPos + 4 * ((0 - 0) / 32) = state.bitPos by omega, read] at first
        cases first
    | ok word =>
        have small := unpackU32_lt read
        have loaded : Yay0.refill blob state = .ok
            { state with cur := signed32 word, bitPos := state.bitPos + 4, bitsLeft := 32 } := by
          unfold Yay0.refill unpackI32
          rw [if_pos used, read]
          rfl
        refine ⟨_, loaded, ⟨ready.links, ready.chunks, ?_, Nat.le_refl 32,
          isSigned32_signed32 (by omega) (by omega)⟩, Nat.succ_pos 31, rfl⟩
        intro i other stands
        rw [← ready.bits i other stands]
        unfold upcoming
        rw [used, if_neg (Nat.not_lt_zero i), Nat.sub_zero]
        by_cases inside : i < 32
        · rw [if_pos inside, curBits_signed32 (by omega) (by omega)]
          unfold wordBit
          rw [show state.bitPos + 4 * (i / 32) = state.bitPos by omega, read,
            Nat.mod_eq_of_lt inside]
          rfl
        · rw [if_neg inside]
          unfold wordBit
          rw [show state.bitPos + 4 + 4 * ((i - 32) / 32) = state.bitPos + 4 * (i / 32) by omega,
            show (i - 32) % 32 = i % 32 by omega]
  · have kept : Yay0.refill blob state = .ok state := if_neg used
    exact ⟨state, kept, ready, Nat.pos_of_ne_zero used, rfl⟩

/-- The sign tells which kind of token comes next. -/
theorem Ready.neg_iff {blob : Bytes} {token : Token} {rest : List Token} {state : State}
    (ready : Ready blob (token :: rest) state) (filled : 0 < state.bitsLeft) :
    state.cur < 0 ↔ flag token = true := by
  have first := ready.bits 0 token rfl
  unfold upcoming at first
  rw [if_pos filled, Option.some.injEq] at first
  rw [neg_iff_testBit ready.signed, ← first]

/-- The bits behind the first one after the shift. -/
theorem upcoming_shift {blob : Bytes} {state : State} (filled : 0 < state.bitsLeft)
    (bounded : state.bitsLeft ≤ 32) (i : Nat) :
    upcoming blob { state with cur := shiftCur state.cur, bitsLeft := state.bitsLeft - 1 } i =
      upcoming blob state (i + 1) := by
  unfold upcoming
  show (if i < state.bitsLeft - 1 then _ else wordBit blob state.bitPos (i - (state.bitsLeft - 1))) =
    if i + 1 < state.bitsLeft then _ else wordBit blob state.bitPos (i + 1 - state.bitsLeft)
  by_cases inside : i + 1 < state.bitsLeft
  · rw [if_pos inside, if_pos (by omega), show 31 - i = 31 - (i + 1) + 1 by omega,
      testBit_shiftCur, decide_eq_true (by omega : 31 - (i + 1) < 31), Bool.and_true]
  · rw [if_neg inside, if_neg (by omega),
      show i - (state.bitsLeft - 1) = i + 1 - state.bitsLeft by omega]

/-! ## Back-references -/

theorem linkCode_eq {distance length : Nat} (near : distance ≤ 4096) (short : length ≤ 17) :
    linkCode distance length = (length - 2) * 4096 + (distance - 1) := by
  unfold linkCode
  rw [if_pos short, ← Nat.shiftLeft_add_eq_or_of_lt (by omega), Nat.shiftLeft_eq]

theorem linkCode_lt {distance length : Nat} (near : distance ≤ 4096) :
    linkCode distance length < 0x10000 := by
  by_cases short : length ≤ 17
  · rw [linkCode_eq near short]
    omega
  · unfold linkCode
    rw [if_neg short]
    omega

theorem linkCode_distance {distance length : Nat} (near : distance ≤ 4096) :
    linkCode distance length &&& 0xFFF = distance - 1 := by
  rw [show 0xFFF = 2 ^ 12 - 1 from rfl, Nat.and_two_pow_sub_one_eq_mod]
  by_cases short : length ≤ 17
  · rw [linkCode_eq near short]
    omega
  · unfold linkCode
    rw [if_neg short]
    omega

/-- The count nibble, or its escape into the chunk bytes. -/
theorem countOf_linkCode {blob : Bytes} {distance length chunkPos : Nat} {rest : Bytes}
    (near : distance ≤ 4096) (low : 3 ≤ length) (high : length ≤ 273)
    (laid : Laid blob chunkPos (chunkBytes (.copy distance length) ++ rest)) :
    countOf blob (linkCode distance length) chunkPos =
      .ok (length, chunkPos + (chunkBytes (.copy distance length)).length) := by
  by_cases short : length ≤ 17
  · have nibble : linkCode distance length >>> 12 = length - 2 := by
      rw [linkCode_eq near short, Nat.shiftRight_eq_div_pow]
      omega
    have noChunk : chunkBytes (.copy distance length) = [] := if_pos short
    unfold countOf
    rw [noChunk]
    simp only [nibble, List.length_nil, Nat.add_zero]
    rw [if_neg (by omega), show length - 2 + 2 = length by omega]
  · have nibble : linkCode distance length >>> 12 = 0 := by
      unfold linkCode
      rw [if_neg short, Nat.shiftRight_eq_div_pow]
      omega
    have chunk : chunkBytes (.copy distance length) = [UInt8.ofNat (length - 18)] :=
      if_neg short
    rw [chunk] at laid
    have read := byteAt_of_laid laid.front
    have count : (UInt8.ofNat (length - 18)).toNat + 0x12 = length := by
      rw [UInt8.toNat_ofNat']
      omega
    unfold countOf
    rw [chunk]
    simp only [nibble, if_true, List.length_singleton, read]
    show Except.ok ((UInt8.ofNat (length - 18)).toNat + 0x12, chunkPos + 1) = _
    rw [count]

/-- The copy loop is the copy of the tokens' meaning, bytes of the same copy included. -/
theorem copyLoop_eq {distance count : Nat} {out : Bytes} (positive : 1 ≤ distance)
    (inside : distance ≤ out.length) :
    copyLoop count (out.length - (distance - 1 : Nat)) out =
      .ok (Lz.copyBack distance count out) := by
  induction count generalizing out with
  | zero => rfl
  | succ count inductionHypothesis =>
      have source : (out.length - (distance - 1 : Nat) : Int) - 1 = (out.length - distance : Nat) := by
        omega
      have forward : ¬ ((out.length - distance : Nat) : Int) < 0 := by omega
      have bound : out.length - distance < out.length := by omega
      have read : byteAt out ((out.length - distance : Nat) : Int) =
          .ok (out.getD (out.length - distance) default) := by
        unfold byteAt
        simp only [forward, if_false, Int.toNat_natCast, List.getElem?_eq_getElem bound,
          List.getD_eq_getElem _ _ bound]
      have longer := inductionHypothesis
        (by rw [List.length_append]; omega :
          distance ≤ (out ++ [out.getD (out.length - distance) default]).length)
      rw [List.length_append, List.length_singleton] at longer
      rw [copyLoop, source, read, Lz.copyBack, ← longer]
      show copyLoop count _ _ = _
      congr 1
      omega

/-! ## One round -/

/-- One round takes one token and leaves the cursors in front of the rest. -/
theorem Ready.step {blob : Bytes} {token : Token} {rest : List Token} {state : State}
    (ready : Ready blob (token :: rest) state) (fits : Fits state.out.length token) :
    ∃ next, step blob state = .ok next ∧ Ready blob rest next ∧
      next.out = token.append state.out := by
  obtain ⟨filled, refilled, ready, available, sameOut⟩ := ready.refill
  rw [← sameOut] at fits ⊢
  have sign := ready.neg_iff available
  have links := ready.links
  have chunks := ready.chunks
  rw [List.flatMap_cons] at links chunks
  have produced : takeToken blob filled = .ok { filled with
      out := token.append filled.out
      linkPos := filled.linkPos + (linkBytes token).length
      chunkPos := filled.chunkPos + (chunkBytes token).length } := by
    unfold takeToken
    cases token with
    | literal byte =>
        rw [if_pos (sign.mpr rfl)]
        have read := byteAt_of_laid chunks.front
        unfold literal
        rw [read]
        rfl
    | copy distance length =>
        obtain ⟨positive, near, inside, low, high⟩ := fits
        rw [if_neg (fun negative => Bool.false_ne_true (sign.mp negative))]
        have code := unpackU16_of_laid (linkCode_lt near) links.front
        unfold backref
        rw [code]
        show (countOf blob (linkCode distance length) filled.chunkPos >>= _) = _
        rw [countOf_linkCode near low high chunks]
        show (copyLoop length (filled.out.length - (linkCode distance length &&& 0xFFF : Nat))
          filled.out >>= _) = _
        rw [linkCode_distance near, copyLoop_eq positive inside]
        rfl
  refine ⟨{ filled with
      out := token.append filled.out
      linkPos := filled.linkPos + (linkBytes token).length
      chunkPos := filled.chunkPos + (chunkBytes token).length
      cur := shiftCur filled.cur
      bitsLeft := filled.bitsLeft - 1 }, ?_, ⟨links.behind rfl, chunks.behind rfl, ?_,
    Nat.le_trans (Nat.sub_le _ 1) ready.bounded, shiftCur_signed filled.cur⟩, rfl⟩
  · unfold Yay0.step
    rw [refilled]
    show (takeToken blob filled >>= _) = _
    rw [produced]
    rfl
  · intro i other stands
    rw [← ready.bits (i + 1) other stands, ← upcoming_shift available ready.bounded i]
    rfl

/-! ## The whole loop -/

/-- From a ready state, the loop runs through the remaining tokens and stops at their end. -/
theorem Ready.run {blob : Bytes} {rest : List Token} {state : State} {decSize maxOut : Nat}
    (ready : Ready blob rest state) (wellFormed : WellFormed state.out.length rest)
    (size : decSize = state.out.length + Lz.totalSize rest) (small : decSize ≤ maxOut) :
    run blob decSize maxOut state = .ok (some (rest.foldl Lz.Token.append state.out)) := by
  induction rest generalizing state with
  | nil =>
      have ended : state.out.length = decSize := size.symm
      rw [Yay0.run, if_pos ended]
      rfl
  | cons token rest inductionHypothesis =>
      obtain ⟨fits, others⟩ := wellFormed
      obtain ⟨next, stepped, nextReady, out⟩ := ready.step fits
      have longer := step_grows stepped
      have grown := Lz.Token.length_append state.out token
      rw [← out] at grown
      rw [Lz.totalSize_cons] at size
      rw [Yay0.run, if_neg (by omega), if_neg (by omega)]
      split
      next fault failed =>
        rw [stepped] at failed
        cases failed
      next found succeeded =>
        rw [stepped] at succeeded
        cases succeeded
        rw [← grown] at others
        rw [inductionHypothesis nextReady others (by omega), out]
        rfl

/-- The state the loop starts in. -/
theorem ready_of_encodedAt {tokens : List Token} {linkOff chunkOff : Nat} {spare : List Bool}
    {blob : Bytes} (encoded : EncodedAt tokens linkOff chunkOff spare blob) :
    Ready blob tokens ⟨[], 0x10, linkOff, chunkOff, 0, 0⟩ where
  links := encoded.links
  chunks := encoded.chunks
  bits := by
    intro i token stands
    have inside : i < tokens.length := (List.getElem?_eq_some_iff.mp stands).1
    have word := wordBit_of_laid encoded.bits
      (by unfold wordsFor; omega : i < 32 * wordsFor tokens.length)
    have bit : (tokens.map flag ++ spare).getD i false = flag token := by
      rw [List.getD_append _ _ _ _ (by rw [List.length_map]; exact inside),
        List.getD_eq_getElem?_getD, List.getElem?_map, stands]
      rfl
    rw [bit] at word
    exact word
  bounded := Nat.zero_le 32
  signed := by
    have zero : IsSigned32 0 := ⟨by decide, by decide⟩
    exact zero

/-- Every stream of tokens the format can hold, up to 16 MiB of output, is decoded to its
expansion from every blob that encodes it, and the encoder's blob is one. -/
theorem decompress_of_isEncoding (tokens : List Token) (wellFormed : WellFormed 0 tokens)
    (small : Lz.totalSize tokens ≤ 16 * 1024 * 1024) :
    (∀ blob, IsEncoding tokens blob →
      decompress blob defaultMaxOut = .ok (some (Lz.expand tokens))) ∧
    ∀ magic, IsEncoding tokens (encode magic tokens) := by
  constructor
  · intro blob ⟨linkOff, chunkOff, spare, encoded⟩
    have size := unpackU32_of_laid (by omega) encoded.sizeField
    have link := unpackU32_of_laid encoded.linkFits encoded.linkField
    have chunk := unpackU32_of_laid encoded.chunkFits encoded.chunkField
    unfold decompress
    rw [size, link, chunk]
    exact (ready_of_encodedAt encoded).run wellFormed (Nat.zero_add _).symm small
  · intro magic
    exact isEncoding_encode magic wellFormed small

/-- Two literals and a copy over its own output. -/
theorem decompress_overlapping_copy :
    decompress (encode #v[0x59, 0x61, 0x79, 0x30]
      [.literal 0x61, .literal 0x62, .copy 2 20]) defaultMaxOut =
        .ok (some (List.replicate 11 [0x61, 0x62]).flatten) := by
  obtain ⟨decodes, encodes⟩ := decompress_of_isEncoding
    [.literal 0x61, .literal 0x62, .copy 2 20] (by decide) (by decide)
  rw [decodes _ (encodes _)]
  decide

end StadiumRecomp.Yay0
