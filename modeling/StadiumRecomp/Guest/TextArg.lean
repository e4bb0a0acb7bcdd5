import StadiumRecomp.Guest.Memory

/-!
Contract: how the hooks find text behind a register.

Owns: the text bytes, `read_text_arg`, and the scan of the string-draw format.

Does not own: which registers are tried.
-/

set_option autoImplicit false

namespace StadiumRecomp.Guest

open StadiumRecomp.Lib

def kSrcMax : Nat := 256

/-- Newline, printable ASCII, or a lead byte of EUC-JP. -/
def isTextByte (c : UInt8) : Bool :=
  c == 0x0A || (c ≥ 0x20 && c ≤ 0x7E) || c == 0x8E || c == 0x8F || (c ≥ 0xA1 && c ≤ 0xFE)

/-- The byte `i` behind a pointer, if that lies in RDRAM. -/
def byteBehind (rdram : Rdram) (ptr : UInt32) (i : Nat) : Option UInt8 :=
  if rdramRange (ptr + UInt32.ofNat i) 1 then
    some (rdram (hostIndex (physical ptr + UInt32.ofNat i).toNat))
  else none

/-- The bytes from probe `i` up to a NUL, with so many probes left; none at all when the
scan ends without one or meets a byte that is no text. -/
def textFrom (rdram : Rdram) (ptr : UInt32) : Nat → Nat → Option Bytes
  | 0, _ => none
  | left + 1, i =>
      match byteBehind rdram ptr i with
      | none => none
      | some c =>
          if c = 0 then some []
          else if isTextByte c then (textFrom rdram ptr left (i + 1)).map (c :: ·)
          else none

/-- `read_text_arg`. -/
def readTextArg (rdram : Rdram) (ptr : UInt32) : Option Bytes :=
  if ptr < 0x80000000 ∨ ptr ≥ 0x80800000 then none
  else if !rdramRange ptr 2 then none
  else (textFrom rdram ptr kSrcMax 0).filter (fun out => 2 ≤ out.length)

/-- The scan of `fmt` for the string-draw printf: up to a NUL, the end of RDRAM or
`kSrcMax` bytes. -/
def formatFrom (rdram : Rdram) (fmt : UInt32) : Nat → Nat → Bytes
  | 0, _ => []
  | left + 1, len =>
      match byteBehind rdram fmt len with
      | none => []
      | some c => if c = 0 then [] else c :: formatFrom rdram fmt left (len + 1)

def readFormat (rdram : Rdram) (fmt : UInt32) : Bytes := formatFrom rdram fmt kSrcMax 0

/-! ## What was read -/

theorem guestRb_of_byteBehind {rdram : Rdram} {ptr : UInt32} {i : Nat} {c : UInt8}
    (low : 0x80000000 ≤ ptr.toNat) (high : ptr.toNat < 0x80800000) (near : i < 256)
    (read : byteBehind rdram ptr i = some c) : guestRb rdram (ptr + UInt32.ofNat i) = c := by
  unfold byteBehind at read
  split at read
  next inRange =>
    rw [Option.some.injEq] at read
    have sum : (ptr + UInt32.ofNat i).toNat = ptr.toNat + i := toNat_add_ofNat (by omega)
    have start := physical_toNat ptr
    have offset : (physical ptr + UInt32.ofNat i).toNat = (physical ptr).toNat + i :=
      toNat_add_ofNat (by omega)
    have same : ptr.toNat + i - 0x80000000 = (physical ptr).toNat + i := by omega
    unfold guestRb
    rw [if_pos inRange, ← read, offset, physical_of_range inRange, sum, same]
  next => cases read

theorem byteBehind_eq_some_iff {rdram : Rdram} {ptr : UInt32} {i : Nat} {c : UInt8}
    (low : 0x80000000 ≤ ptr.toNat) (high : ptr.toNat < 0x80800000) (near : i < 256) :
    byteBehind rdram ptr i = some c ↔
      rdramRange (ptr + UInt32.ofNat i) 1 = true ∧ guestRb rdram (ptr + UInt32.ofNat i) = c := by
  constructor
  · intro read
    refine ⟨?_, guestRb_of_byteBehind low high near read⟩
    unfold byteBehind at read
    split at read
    next inRange => exact inRange
    next => cases read
  · intro ⟨inRange, byte⟩
    have read : byteBehind rdram ptr i =
        some (rdram (hostIndex (physical ptr + UInt32.ofNat i).toNat)) := if_pos inRange
    rw [read, ← guestRb_of_byteBehind low high near read, byte]

section TextFrom

variable {rdram : Rdram} {ptr : UInt32}

/-- A text of text bytes with a NUL behind it stands at the probes from `i` on. -/
def StandsFrom (rdram : Rdram) (ptr : UInt32) (i : Nat) (text : Bytes) : Prop :=
  (∀ c ∈ text, isTextByte c = true) ∧
    ∀ k ≤ text.length, byteBehind rdram ptr (i + k) = some ((text ++ [0]).getD k 0)

theorem standsFrom_nil_iff {i : Nat} :
    StandsFrom rdram ptr i [] ↔ byteBehind rdram ptr i = some 0 := by
  constructor
  · intro ⟨_, bytes⟩
    exact bytes 0 (Nat.le_refl 0)
  · intro isNul
    refine ⟨fun _ member => absurd member List.not_mem_nil, fun k atMost => ?_⟩
    rw [Nat.le_zero.mp atMost]
    exact isNul

theorem standsFrom_cons_iff {i : Nat} {c : UInt8} {rest : Bytes} :
    StandsFrom rdram ptr i (c :: rest) ↔
      byteBehind rdram ptr i = some c ∧ isTextByte c = true ∧
        StandsFrom rdram ptr (i + 1) rest := by
  constructor
  · intro ⟨texts, bytes⟩
    refine ⟨bytes 0 (Nat.zero_le _), texts c List.mem_cons_self,
      fun other member => texts other (List.mem_cons_of_mem c member), fun k atMost => ?_⟩
    have byte := bytes (k + 1) (Nat.succ_le_succ atMost)
    rw [show i + (k + 1) = i + 1 + k by omega] at byte
    exact byte
  · intro ⟨isByte, isText, texts, bytes⟩
    constructor
    · intro other member
      rcases List.mem_cons.mp member with rfl | later
      · exact isText
      · exact texts other later
    · intro k atMost
      cases k with
      | zero => exact isByte
      | succ k =>
          rw [show i + (k + 1) = i + 1 + k by omega]
          exact bytes k (Nat.le_of_succ_le_succ atMost)

/-- A scan ends at the NUL behind a text that fits into its probes. -/
theorem textFrom_eq_some_iff {left i : Nat} {text : Bytes} :
    textFrom rdram ptr left i = some text ↔
      text.length < left ∧ StandsFrom rdram ptr i text := by
  induction left generalizing i text with
  | zero =>
      constructor
      · intro impossible
        cases impossible
      · intro ⟨impossible, _⟩
        exact absurd impossible (Nat.not_lt_zero _)
  | succ left inductionHypothesis =>
      constructor
      · intro read
        rw [textFrom] at read
        split at read
        next => cases read
        next c isByte =>
          split at read
          next isNul =>
            cases read
            rw [isNul] at isByte
            exact ⟨Nat.succ_pos left, standsFrom_nil_iff.mpr isByte⟩
          next =>
            split at read
            next isText =>
              obtain ⟨rest, readRest, rfl⟩ := Option.map_eq_some_iff.mp read
              obtain ⟨shorter, stands⟩ := inductionHypothesis.mp readRest
              exact ⟨Nat.succ_lt_succ shorter,
                standsFrom_cons_iff.mpr ⟨isByte, isText, stands⟩⟩
            next => cases read
      · intro ⟨shorter, stands⟩
        rw [textFrom]
        cases text with
        | nil =>
            rw [standsFrom_nil_iff.mp stands]
            rfl
        | cons c rest =>
            obtain ⟨isByte, isText, restStands⟩ := standsFrom_cons_iff.mp stands
            have notNul : c ≠ 0 := by
              intro isNul
              rw [isNul] at isText
              revert isText
              decide
            rw [isByte]
            dsimp only
            rw [if_neg notNul, if_pos isText,
              inductionHypothesis.mpr ⟨Nat.lt_of_succ_lt_succ shorter, restStands⟩]
            rfl

end TextFrom

/-- A pointer to a string in RDRAM, with its NUL. -/
def PointsAt (rdram : Rdram) (ptr : UInt32) (s : Bytes) : Prop :=
  rdramRange ptr (UInt32.ofNat s.length + 1) = true ∧
    segment rdram ptr (s ++ [0]).length = s ++ [0]

instance (rdram : Rdram) (ptr : UInt32) (s : Bytes) : Decidable (PointsAt rdram ptr s) :=
  inferInstanceAs (Decidable (_ ∧ _))

/-- Text that a pointer can be read as. -/
def Readable (s : Bytes) : Prop :=
  2 ≤ s.length ∧ s.length < kSrcMax ∧ ∀ c ∈ s, isTextByte c = true

instance (s : Bytes) : Decidable (Readable s) := inferInstanceAs (Decidable (_ ∧ _ ∧ _))

theorem readTextArg_eq_some_iff {rdram : Rdram} {ptr : UInt32} {text : Bytes} :
    readTextArg rdram ptr = some text ↔ PointsAt rdram ptr text ∧ Readable text := by
  have one : (1 : UInt32).toNat = 1 := rfl
  have two : (2 : UInt32).toNat = 2 := rfl
  have cap : kSrcMax = 256 := rfl
  constructor
  · intro read
    unfold readTextArg at read
    split at read
    · cases read
    next inside =>
      rw [not_or, UInt32.not_lt, ge_iff_le, UInt32.not_le, UInt32.le_iff_toNat_le,
        UInt32.lt_iff_toNat_lt] at inside
      split at read
      · cases read
      · obtain ⟨isText, longEnough⟩ := Option.filter_eq_some_iff.mp read
        have longEnough : 2 ≤ text.length := of_decide_eq_true longEnough
        obtain ⟨shorter, texts, bytes⟩ := textFrom_eq_some_iff.mp isText
        have stands : ∀ k ≤ text.length, rdramRange (ptr + UInt32.ofNat k) 1 = true ∧
            guestRb rdram (ptr + UInt32.ofNat k) = (text ++ [0]).getD k 0 := by
          intro k atMost
          have byte := bytes k atMost
          rw [Nat.zero_add] at byte
          exact (byteBehind_eq_some_iff inside.1 inside.2 (by omega)).mp byte
        refine ⟨⟨?_, ?_⟩, longEnough, shorter, texts⟩
        · have last := rdramRange_iff.mp (stands text.length (Nat.le_refl _)).1
          have near : ptr.toNat < 0x80800000 := inside.2
          rw [toNat_add_ofNat (by omega)] at last
          rw [rdramRange_iff, toNat_length_add_one (by omega)]
          have low : 0x80000000 ≤ ptr.toNat := inside.1
          omega
        · rw [segment_eq_iff]
          intro k within
          rw [List.length_append, List.length_singleton] at within
          exact (stands k (Nat.le_of_lt_succ within)).2
  · intro ⟨⟨inRange, stands⟩, longEnough, shorter, texts⟩
    obtain ⟨low, high, fits⟩ := rdramRange_iff.mp inRange
    rw [toNat_length_add_one (by omega)] at fits
    have isText : textFrom rdram ptr kSrcMax 0 = some text := by
      apply textFrom_eq_some_iff.mpr
      refine ⟨shorter, texts, ?_⟩
      intro k atMost
      rw [Nat.zero_add, byteBehind_eq_some_iff low high (by omega)]
      constructor
      · rw [rdramRange_iff, toNat_add_ofNat (by omega)]
        omega
      · apply segment_eq_iff.mp stands
        rw [List.length_append, List.length_singleton]
        omega
    have inside : ¬ (ptr < 0x80000000 ∨ ptr ≥ 0x80800000) := by
      rw [not_or, UInt32.not_lt, ge_iff_le, UInt32.not_le, UInt32.le_iff_toNat_le,
        UInt32.lt_iff_toNat_lt]
      exact ⟨low, high⟩
    have pair : rdramRange ptr 2 = true := by
      rw [rdramRange_iff]
      omega
    unfold readTextArg
    rw [if_neg inside, pair, isText]
    simp [longEnough]

/-- A text lies where it was read. -/
theorem segment_of_readTextArg {rdram : Rdram} {ptr : UInt32} {text : Bytes}
    (read : readTextArg rdram ptr = some text) : segment rdram ptr text.length = text := by
  obtain ⟨⟨_, stands⟩, _⟩ := readTextArg_eq_some_iff.mp read
  rw [segment_eq_iff] at stands ⊢
  intro k shorter
  have within : k < (text ++ [0]).length := by
    rw [List.length_append]
    exact Nat.lt_add_right 1 shorter
  rw [stands k within]
  exact List.getD_append text [0] 0 k shorter

theorem getD_of_formatFrom {rdram : Rdram} {fmt : UInt32} (low : 0x80000000 ≤ fmt.toNat)
    (high : fmt.toNat < 0x80800000) {left len : Nat} (near : len + left ≤ 256) :
    ∀ k < (formatFrom rdram fmt left len).length,
      guestRb rdram (fmt + UInt32.ofNat (len + k)) = (formatFrom rdram fmt left len).getD k 0 := by
  induction left generalizing len with
  | zero =>
      intro k inside
      exact absurd inside (Nat.not_lt_zero k)
  | succ left inductionHypothesis =>
      rw [formatFrom]
      split
      next =>
        intro k inside
        exact absurd inside (Nat.not_lt_zero k)
      next c isByte =>
        split
        · intro k inside
          exact absurd inside (Nat.not_lt_zero k)
        · intro k inside
          cases k with
          | zero => exact guestRb_of_byteBehind low high (by omega) isByte
          | succ k =>
              rw [List.length_cons] at inside
              have tail := inductionHypothesis (by omega : len + 1 + left ≤ 256) k (by omega)
              rw [show len + (k + 1) = len + 1 + k by omega]
              exact tail

/-- The format lies where it was read. -/
theorem segment_readFormat (rdram : Rdram) (fmt : UInt32) :
    segment rdram fmt (readFormat rdram fmt).length = readFormat rdram fmt := by
  by_cases inRange : rdramRange fmt 1 = true
  · obtain ⟨low, high, _⟩ := rdramRange_iff.mp inRange
    rw [segment_eq_iff]
    intro k shorter
    have byte := getD_of_formatFrom low high (by decide : 0 + kSrcMax ≤ 256) k shorter
    rw [Nat.zero_add] at byte
    exact byte
  · have missing : byteBehind rdram fmt 0 = none := by
      unfold byteBehind
      rw [show fmt + UInt32.ofNat 0 = fmt from UInt32.add_zero fmt]
      exact if_neg inRange
    have empty : readFormat rdram fmt = [] := by
      show formatFrom rdram fmt (255 + 1) 0 = []
      rw [formatFrom, missing]
    rw [empty]
    rfl

/-! ## The language of `read_text_arg` -/

/-- An address of RDRAM. -/
def InRdram (address : Nat) : Prop := 0x80000000 ≤ address ∧ address < 0x80800000

/-- The byte of RDRAM at an address. -/
def rdramByte (rdram : Rdram) (address : Nat) : UInt8 := rdram (hostIndex (address - 0x80000000))

/-- The bytes of a text. -/
def IsText (c : UInt8) : Prop :=
  c = 0x0A ∨ (0x20 ≤ c ∧ c ≤ 0x7E) ∨ c = 0x8E ∨ c = 0x8F ∨ (0xA1 ≤ c ∧ c ≤ 0xFE)

/-- A text of `n` bytes stands in RDRAM at a pointer, its NUL behind it. -/
structure TextStands (rdram : Rdram) (ptr : UInt32) (n : Nat) : Prop where
  long : 2 ≤ n
  short : n ≤ 255
  inside : ∀ k < n, InRdram (ptr.toNat + k)
  texts : ∀ k < n, IsText (rdramByte rdram (ptr.toNat + k))
  ends : InRdram (ptr.toNat + n)
  nul : rdramByte rdram (ptr.toNat + n) = 0

/-- The bytes that stand at a pointer. -/
def bytesAt (rdram : Rdram) (ptr : UInt32) (n : Nat) : Bytes :=
  (List.range n).map fun k => rdramByte rdram (ptr.toNat + k)

theorem isTextByte_iff {c : UInt8} : isTextByte c = true ↔ IsText c := by
  unfold isTextByte IsText
  simp only [Bool.or_eq_true, Bool.and_eq_true, beq_iff_eq, decide_eq_true_eq, ge_iff_le, or_assoc]

/-- In a range the guest reads the bytes of RDRAM one after another. -/
theorem segment_eq_bytesAt {rdram : Rdram} {ptr len : UInt32} {n : Nat}
    (inRange : rdramRange ptr len = true) (within : n ≤ len.toNat) :
    segment rdram ptr n = bytesAt rdram ptr n := by
  obtain ⟨low, _, _⟩ := rdramRange_iff.mp inRange
  apply List.map_congr_left
  intro k member
  have inside : k < len.toNat := Nat.lt_of_lt_of_le (List.mem_range.mp member) within
  have offset : ptr.toNat + k - 0x80000000 = ptr.toNat - 0x80000000 + k := by omega
  rw [guestRb_of_range rdram inRange inside, physical_of_range inRange]
  unfold rdramByte
  rw [offset]

theorem bytesAt_succ (rdram : Rdram) (ptr : UInt32) (n : Nat) :
    bytesAt rdram ptr (n + 1) = bytesAt rdram ptr n ++ [rdramByte rdram (ptr.toNat + n)] := by
  unfold bytesAt
  rw [List.range_succ, List.map_append]
  rfl

theorem length_bytesAt (rdram : Rdram) (ptr : UInt32) (n : Nat) :
    (bytesAt rdram ptr n).length = n := by
  unfold bytesAt
  rw [List.length_map, List.length_range]

/-- A text that was read stands at its pointer. -/
theorem textStands_of_readTextArg {rdram : Rdram} {ptr : UInt32} {text : Bytes}
    (read : readTextArg rdram ptr = some text) : TextStands rdram ptr text.length := by
  obtain ⟨⟨inRange, stands⟩, long, short, texts⟩ := readTextArg_eq_some_iff.mp read
  have cap : kSrcMax = 256 := rfl
  have size := toNat_length_add_one (s := text) (by omega)
  obtain ⟨low, _, fits⟩ := rdramRange_iff.mp inRange
  rw [size] at fits
  rw [List.length_append, List.length_singleton, segment_eq_bytesAt inRange (by omega),
    bytesAt_succ] at stands
  obtain ⟨isText, isNul⟩ := List.append_inj' stands rfl
  constructor
  · exact long
  · omega
  · intro k before
    exact ⟨by omega, by omega⟩
  · intro k before
    apply isTextByte_iff.mp
    apply texts
    rw [← isText]
    exact List.mem_map.mpr ⟨k, List.mem_range.mpr before, rfl⟩
  · exact ⟨by omega, by omega⟩
  · exact List.singleton_inj.mp isNul

/-- A text that stands at a pointer is read. -/
theorem TextStands.read {rdram : Rdram} {ptr : UInt32} {n : Nat} (stands : TextStands rdram ptr n) :
    readTextArg rdram ptr = some (bytesAt rdram ptr n) := by
  have short := stands.short
  have first := stands.inside 0 (Nat.lt_of_lt_of_le (by decide) stands.long)
  have last := stands.ends
  unfold InRdram at first last
  have length := length_bytesAt rdram ptr n
  have size := toNat_length_add_one (s := bytesAt rdram ptr n) (by omega)
  have inRange : rdramRange ptr (UInt32.ofNat (bytesAt rdram ptr n).length + 1) = true := by
    rw [rdramRange_iff, size]
    omega
  apply readTextArg_eq_some_iff.mpr
  refine ⟨⟨inRange, ?_⟩, ?_, ?_, ?_⟩
  · rw [List.length_append, List.length_singleton, segment_eq_bytesAt inRange (by omega),
      length, bytesAt_succ, stands.nul]
  · rw [length]
    exact stands.long
  · rw [length]
    exact Nat.lt_succ_of_le short
  · intro c member
    obtain ⟨k, before, rfl⟩ := List.mem_map.mp member
    exact isTextByte_iff.mpr (stands.texts k (List.mem_range.mp before))

/-- `read_text_arg` accepts exactly the pointers at which a text stands, and reads that text. -/
theorem readTextArg_accepts (rdram : Rdram) (ptr : UInt32) :
    ((readTextArg rdram ptr).isSome = true ↔ ∃ n, TextStands rdram ptr n) ∧
      ∀ n, TextStands rdram ptr n → readTextArg rdram ptr = some (bytesAt rdram ptr n) := by
  constructor
  · constructor
    · intro accepted
      obtain ⟨text, read⟩ := Option.isSome_iff_exists.mp accepted
      exact ⟨text.length, textStands_of_readTextArg read⟩
    · intro ⟨n, stands⟩
      rw [stands.read]
      rfl
  · intro n stands
    exact stands.read

end StadiumRecomp.Guest
