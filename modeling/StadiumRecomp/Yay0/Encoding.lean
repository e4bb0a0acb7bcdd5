import StadiumRecomp.Lib.CString
import StadiumRecomp.Lib.Lz

/-!
Contract: the Yay0 layout as a writer produces it.

Owns: the tokens the format can hold, the bit words, the link table and the chunk bytes
of a token list, the layouts a blob may have, and one encoder.

Does not own: the search for back-references.
-/

set_option autoImplicit false

namespace StadiumRecomp.Yay0

open StadiumRecomp.Lib

abbrev Token := Lz.Token UInt8

/-! ## Tokens -/

/-- A token the format can hold behind so many bytes. -/
def Fits (produced : Nat) : Token → Prop
  | .literal _ => True
  | .copy distance length =>
      1 ≤ distance ∧ distance ≤ 4096 ∧ distance ≤ produced ∧ 3 ≤ length ∧ length ≤ 273

instance (produced : Nat) (token : Token) : Decidable (Fits produced token) := by
  cases token <;> unfold Fits <;> infer_instance

/-- Every token fits behind the bytes the ones before it produce. -/
def WellFormed : Nat → List Token → Prop
  | _, [] => True
  | produced, token :: rest => Fits produced token ∧ WellFormed (produced + token.size) rest

instance decidableWellFormed : (produced : Nat) → (tokens : List Token) →
    Decidable (WellFormed produced tokens)
  | _, [] => isTrue trivial
  | produced, token :: rest =>
      have := decidableWellFormed (produced + token.size) rest
      inferInstanceAs (Decidable (Fits produced token ∧ WellFormed _ rest))

/-- The bit of a token, 1 for a literal. -/
def flag : Token → Bool
  | .literal _ => true
  | .copy _ _ => false

/-! ## Streams -/

def u16Bytes (value : Nat) : Bytes := [UInt8.ofNat (value / 0x100), UInt8.ofNat value]

def u32Bytes (value : Nat) : Bytes :=
  [UInt8.ofNat (value / 0x1000000), UInt8.ofNat (value / 0x10000), UInt8.ofNat (value / 0x100),
    UInt8.ofNat value]

/-- The entry of the link table. -/
def linkCode (distance length : Nat) : Nat :=
  if length ≤ 17 then (length - 2) <<< 12 ||| (distance - 1) else distance - 1

def linkBytes : Token → Bytes
  | .literal _ => []
  | .copy distance length => u16Bytes (linkCode distance length)

def chunkBytes : Token → Bytes
  | .literal byte => [byte]
  | .copy _ length => if length ≤ 17 then [] else [UInt8.ofNat (length - 18)]

/-- The first bits of a stream as a number, the first one highest. -/
def packBits (bits : Nat → Bool) (count : Nat) : Nat :=
  (List.range count).foldl (fun word i => word * 2 + (bits i).toNat) 0

/-- Bit words of a stream. -/
def bitWords (bits : List Bool) (words : Nat) : Bytes :=
  (List.range words).flatMap fun k =>
    u32Bytes (packBits (fun i => bits.getD (32 * k + i) false) 32)

/-- The words that so many bits take. -/
def wordsFor (bits : Nat) : Nat := (bits + 31) / 32

/-! ## Layouts -/

/-- Bytes that stand at a position of the blob. -/
def Laid (blob : Bytes) (position : Nat) (bytes : Bytes) : Prop := bytes <+: blob.drop position

instance (blob : Bytes) (position : Nat) (bytes : Bytes) : Decidable (Laid blob position bytes) :=
  inferInstanceAs (Decidable (_ <+: _))

/-- The blob holds the tokens with its tables at these offsets, whatever the magic, the
last word's unused bits and the bytes between the tables are. -/
structure EncodedAt (tokens : List Token) (linkOff chunkOff : Nat) (spare : List Bool)
    (blob : Bytes) : Prop where
  sizeField : Laid blob 4 (u32Bytes (Lz.totalSize tokens))
  linkField : Laid blob 8 (u32Bytes linkOff)
  chunkField : Laid blob 0xC (u32Bytes chunkOff)
  linkFits : linkOff < 0x100000000
  chunkFits : chunkOff < 0x100000000
  bits : Laid blob 0x10 (bitWords (tokens.map flag ++ spare) (wordsFor tokens.length))
  links : Laid blob linkOff (tokens.flatMap linkBytes)
  chunks : Laid blob chunkOff (tokens.flatMap chunkBytes)

def IsEncoding (tokens : List Token) (blob : Bytes) : Prop :=
  ∃ linkOff chunkOff spare, EncodedAt tokens linkOff chunkOff spare blob

/-- The link table right behind the bit words. -/
def linkOffset (tokens : List Token) : Nat := 0x10 + 4 * wordsFor tokens.length

/-- The chunk bytes right behind the link table. -/
def chunkOffset (tokens : List Token) : Nat :=
  linkOffset tokens + (tokens.flatMap linkBytes).length

/-- The blob without gaps. -/
def encode (magic : Vector UInt8 4) (tokens : List Token) : Bytes :=
  magic.toList ++ (u32Bytes (Lz.totalSize tokens) ++ (u32Bytes (linkOffset tokens) ++
    (u32Bytes (chunkOffset tokens) ++ (bitWords (tokens.map flag) (wordsFor tokens.length) ++
      (tokens.flatMap linkBytes ++ tokens.flatMap chunkBytes)))))

section Layout

variable {blob first bytes : Bytes} {position : Nat}

theorem Laid.front (laid : Laid blob position (first ++ bytes)) : Laid blob position first :=
  (List.prefix_append first bytes).trans laid

/-- What is laid behind something stands behind it. -/
theorem Laid.behind {next : Nat} (laid : Laid blob position (first ++ bytes))
    (ends : position + first.length = next) : Laid blob next bytes := by
  obtain ⟨tail, whole⟩ := laid
  unfold Laid
  rw [← ends, ← List.drop_drop, ← whole, List.append_assoc, List.drop_left]
  exact List.prefix_append bytes tail

end Layout

theorem length_bitWords (bits : List Bool) (words : Nat) :
    (bitWords bits words).length = 4 * words := by
  unfold bitWords
  induction words with
  | zero => rfl
  | succ words inductionHypothesis =>
      rw [List.range_succ, List.flatMap_append, List.length_append, inductionHypothesis]
      rfl

/-! ## Sizes -/

/-- Every token that fits produces something. -/
theorem length_le_totalSize {tokens : List Token} {produced : Nat}
    (wellFormed : WellFormed produced tokens) : tokens.length ≤ Lz.totalSize tokens := by
  induction tokens generalizing produced with
  | nil => exact Nat.zero_le _
  | cons token rest inductionHypothesis =>
      obtain ⟨fits, others⟩ := wellFormed
      have shorter := inductionHypothesis others
      have positive : 1 ≤ token.size := by
        cases token with
        | literal byte => exact Nat.le_refl 1
        | copy distance length =>
            obtain ⟨_, _, _, long, _⟩ := fits
            show 1 ≤ length
            omega
      rw [Lz.totalSize_cons, List.length_cons]
      omega

theorem length_links_le (tokens : List Token) :
    (tokens.flatMap linkBytes).length ≤ 2 * tokens.length := by
  induction tokens with
  | nil => exact Nat.zero_le _
  | cons token rest inductionHypothesis =>
      have short : (linkBytes token).length ≤ 2 := by
        cases token with
        | literal byte => exact Nat.zero_le 2
        | copy distance length => exact Nat.le_refl 2
      rw [List.flatMap_cons, List.length_append, List.length_cons]
      omega

/-- The encoder's own layout is one of those a blob may have. -/
theorem isEncoding_encode (magic : Vector UInt8 4) {tokens : List Token}
    (wellFormed : WellFormed 0 tokens) (small : Lz.totalSize tokens ≤ 16 * 1024 * 1024) :
    IsEncoding tokens (encode magic tokens) := by
  have few := length_le_totalSize wellFormed
  have linkTable := length_links_le tokens
  have linkFits : linkOffset tokens < 0x100000000 := by
    unfold linkOffset wordsFor
    omega
  have chunkFits : chunkOffset tokens < 0x100000000 := by
    unfold chunkOffset linkOffset wordsFor
    omega
  have whole : Laid (encode magic tokens) 0 (magic.toList ++ _) := List.prefix_refl _
  have fromSize := whole.behind (by simp : 0 + magic.toList.length = 4)
  have fromLink := fromSize.behind (rfl : _ = 8)
  have fromChunk := fromLink.behind (rfl : _ = 0xC)
  have fromBits := fromChunk.behind (rfl : _ = 0x10)
  have fromLinks := fromBits.behind
    (by rw [length_bitWords]; rfl : _ = linkOffset tokens)
  have fromChunks := fromLinks.behind (rfl : _ = chunkOffset tokens)
  refine ⟨linkOffset tokens, chunkOffset tokens, [], fromSize.front, fromLink.front,
    fromChunk.front, linkFits, chunkFits, ?_, fromLinks.front, fromChunks⟩
  rw [List.append_nil]
  exact fromBits.front

end StadiumRecomp.Yay0
