import Mathlib.Data.Nat.Bitwise
import StadiumRecomp.Guest.TextArg

/-!
Contract: the guest memory accessors on an allocation that has only the bytes of RDRAM.

Owns: the loads and stores that fail outside those bytes, the accessors made of them, and
the theorems that none of them fails and that each hits the addressed bytes.

Does not own: the glyph measurement, which calls code outside the layer.
-/

set_option autoImplicit false

namespace StadiumRecomp.Guest

open StadiumRecomp.Lib

/-- The bytes behind `rdram`. -/
def rdramSize : Nat := 0x00800000

namespace Checked

/-! ## Host accesses -/

/-- `rdram[index]`; no result outside the allocation. -/
def load (rdram : Rdram) (index : Nat) : Option UInt8 :=
  if index < rdramSize then some (rdram index) else none

/-- `rdram[index] = byte`; no result outside the allocation. -/
def store (rdram : Rdram) (index : Nat) (byte : UInt8) : Option Rdram :=
  if index < rdramSize then some (Function.update rdram index byte) else none

/-- `rdram[(paddr + i) ^ 3]`, the sum in 32 bits. -/
def loadAt (rdram : Rdram) (paddr : UInt32) (i : Nat) : Option UInt8 :=
  load rdram (hostIndex (paddr + UInt32.ofNat i).toNat)

/-! ## Accessors -/

/-- `guest_rb`. -/
def guestRb (rdram : Rdram) (va : UInt32) : Option UInt8 :=
  if rdramRange va 1 then load rdram (hostIndex (physical va).toNat) else some 0

/-- `pms_diag_copy_bytes`, as what it leaves in `out`. -/
def copyBytes (rdram : Rdram) (vaddr len : UInt32) : Option Bytes :=
  if rdramRange vaddr len then (List.range len.toNat).mapM (loadAt rdram (physical vaddr))
  else some (List.replicate len.toNat 0)

/-- `pms_diag_read_u32`. -/
def readU32 (rdram : Rdram) (vaddr : UInt32) : Option UInt32 :=
  if rdramRange vaddr 4 then
    (List.range 4).foldlM (fun value i => do
      let byte ← loadAt rdram (physical vaddr) i
      return (value <<< 8) ||| byte.toUInt32) 0
  else some 0

/-- The loop of `guest_prefix_eq`, which stops at the first difference. -/
def prefixFrom (rdram : Rdram) (paddr : UInt32) (want : Bytes) : Nat → Nat → Option Bool
  | 0, _ => some true
  | left + 1, i => do
      let byte ← loadAt rdram paddr i
      if byte ≠ want.getD i 0 then return false
      prefixFrom rdram paddr want left (i + 1)

/-- `guest_prefix_eq`. -/
def guestPrefixEq (rdram : Rdram) (ptr : UInt32) (want : Bytes) (wlen : UInt16) : Option Bool :=
  if rdramRange ptr (wlen.toUInt32 + 1) then prefixFrom rdram (physical ptr) want wlen.toNat 0
  else some false

/-- The loop of `read_text_arg`. -/
def textFrom (rdram : Rdram) (ptr : UInt32) : Nat → Nat → Option (Option Bytes)
  | 0, _ => some none
  | left + 1, i =>
      if !rdramRange (ptr + UInt32.ofNat i) 1 then some none
      else do
        let c ← loadAt rdram (physical ptr) i
        if c = 0 then return some []
        if !isTextByte c then return none
        let rest ← textFrom rdram ptr left (i + 1)
        return rest.map (c :: ·)

/-- `read_text_arg`. -/
def readTextArg (rdram : Rdram) (ptr : UInt32) : Option (Option Bytes) :=
  if ptr < 0x80000000 ∨ ptr ≥ 0x80800000 then some none
  else if !rdramRange ptr 2 then some none
  else do
    let text ← textFrom rdram ptr kSrcMax 0
    return text.filter (fun out => 2 ≤ out.length)

/-- The scan of the string-draw format behind `r6`. -/
def formatFrom (rdram : Rdram) (fmt : UInt32) : Nat → Nat → Option Bytes
  | 0, _ => some []
  | left + 1, len =>
      if !rdramRange (fmt + UInt32.ofNat len) 1 then some []
      else do
        let c ← loadAt rdram (physical fmt) len
        if c = 0 then return []
        let rest ← formatFrom rdram fmt left (len + 1)
        return c :: rest

def readFormat (rdram : Rdram) (fmt : UInt32) : Option Bytes := formatFrom rdram fmt kSrcMax 0

/-- The stores of a string. -/
def storeFrom (rdram : Rdram) (paddr : Nat) : Bytes → Option Rdram
  | [] => some rdram
  | byte :: rest => do
      let rdram ← store rdram (hostIndex paddr) byte
      storeFrom rdram (paddr + 1) rest

/-- `write_guest_str`: what it returns, and memory behind it. -/
def writeGuestStr (rdram : Rdram) (va : UInt32) (s : Bytes) : Option (Bool × Rdram) :=
  if rdramRange va (UInt32.ofNat s.length + 1) then do
    let pa := (physical va).toNat
    let rdram ← storeFrom rdram pa s
    let rdram ← store rdram (hostIndex (pa + s.length)) 0
    return (true, rdram)
  else some (false, rdram)

/-! ## No access fails -/

/-- The swizzle stays inside its word, so inside the allocation. -/
theorem hostIndex_lt {paddr : Nat} (inside : paddr < rdramSize) :
    hostIndex paddr < rdramSize := by
  have word : 3 < 2 ^ 23 := by decide
  show paddr ^^^ 3 < 2 ^ 23
  exact Nat.xor_lt_two_pow inside word

theorem load_hostIndex (rdram : Rdram) {paddr : Nat} (inside : paddr < rdramSize) :
    load rdram (hostIndex paddr) = some (rdram (hostIndex paddr)) :=
  if_pos (hostIndex_lt inside)

theorem store_hostIndex (rdram : Rdram) (byte : UInt8) {paddr : Nat}
    (inside : paddr < rdramSize) :
    store rdram (hostIndex paddr) byte = some (Function.update rdram (hostIndex paddr) byte) :=
  if_pos (hostIndex_lt inside)

theorem physical_lt_of_range {va len : UInt32} {i : Nat}
    (inRange : rdramRange va len = true) (inside : i < len.toNat) :
    (physical va).toNat + i < rdramSize := by
  obtain ⟨low, _, fits⟩ := rdramRange_iff.mp inRange
  rw [physical_of_range inRange]
  unfold rdramSize
  omega

theorem guestRb_eq (rdram : Rdram) (va : UInt32) :
    guestRb rdram va = some (Guest.guestRb rdram va) := by
  unfold guestRb Guest.guestRb
  by_cases inRange : rdramRange va 1 = true
  · rw [if_pos inRange, if_pos inRange]
    exact load_hostIndex rdram (physical_lt_of_range inRange Nat.zero_lt_one)
  · rw [if_neg inRange, if_neg inRange]

/-- Inside a checked range, a read hits the addressed byte. -/
theorem loadAt_eq (rdram : Rdram) {va len : UInt32} {i : Nat}
    (inRange : rdramRange va len = true) (inside : i < len.toNat) :
    loadAt rdram (physical va) i = some (Guest.guestRb rdram (va + UInt32.ofNat i)) := by
  have bound := physical_lt_of_range inRange inside
  have offset : (physical va + UInt32.ofNat i).toNat = (physical va).toNat + i := by
    apply toNat_add_ofNat
    unfold rdramSize at bound
    omega
  unfold loadAt
  rw [guestRb_of_range rdram inRange inside, offset]
  exact load_hostIndex rdram bound

theorem mapM_of_reads {α β : Type} {read : α → Option β} {value : α → β} {list : List α}
    (reads : ∀ element ∈ list, read element = some (value element)) :
    list.mapM read = some (list.map value) := by
  induction list with
  | nil => rfl
  | cons head rest inductionHypothesis =>
      have tail := inductionHypothesis
        (fun element member => reads element (List.mem_cons_of_mem head member))
      rw [List.mapM_cons, reads head List.mem_cons_self, tail]
      rfl

/-- The copy holds the addressed bytes, or zeros when they are not all in RDRAM. -/
theorem copyBytes_eq (rdram : Rdram) (vaddr len : UInt32) :
    copyBytes rdram vaddr len = some (
      if rdramRange vaddr len then segment rdram vaddr len.toNat
      else List.replicate len.toNat 0) := by
  unfold copyBytes
  by_cases inRange : rdramRange vaddr len = true
  · rw [if_pos inRange, if_pos inRange]
    apply mapM_of_reads
    intro i member
    exact loadAt_eq rdram inRange (List.mem_range.mp member)
  · rw [if_neg inRange, if_neg inRange]

/-- The word is the big-endian value of the addressed bytes. -/
theorem readU32_eq (rdram : Rdram) (vaddr : UInt32) :
    readU32 rdram vaddr = some (
      if rdramRange vaddr 4 then
        (segment rdram vaddr 4).foldl
          (fun (value : UInt32) byte => (value <<< 8) ||| byte.toUInt32) 0
      else 0) := by
  unfold readU32
  by_cases inRange : rdramRange vaddr 4 = true
  · rw [if_pos inRange, if_pos inRange]
    have byte : ∀ i < 4, loadAt rdram (physical vaddr) i =
        some (Guest.guestRb rdram (vaddr + UInt32.ofNat i)) :=
      fun i inside => loadAt_eq rdram inRange inside
    have four : List.range 4 = [0, 1, 2, 3] := rfl
    simp only [four, segment, List.foldlM_cons, List.foldlM_nil, byte 0 (by decide),
      byte 1 (by decide), byte 2 (by decide), byte 3 (by decide), Option.bind_eq_bind,
      Option.bind_some, Option.pure_def, List.map_cons, List.map_nil, List.foldl_cons,
      List.foldl_nil]
  · rw [if_neg inRange, if_neg inRange]

theorem prefixFrom_eq (rdram : Rdram) {ptr len : UInt32} (inRange : rdramRange ptr len = true)
    (want : Bytes) {left i : Nat} (inside : i + left ≤ len.toNat) :
    prefixFrom rdram (physical ptr) want left i = some (decide (∀ k < left,
      Guest.guestRb rdram (ptr + UInt32.ofNat (i + k)) = want.getD (i + k) 0)) := by
  induction left generalizing i with
  | zero =>
      show some true = _
      simp
  | succ left inductionHypothesis =>
      rw [prefixFrom, loadAt_eq rdram inRange (by omega)]
      simp only [Option.bind_eq_bind, Option.bind_some]
      by_cases same : Guest.guestRb rdram (ptr + UInt32.ofNat i) = want.getD i 0
      · rw [if_neg (not_not.mpr same), inductionHypothesis (by omega)]
        congr 1
        rw [decide_eq_decide]
        constructor
        · intro rest k below
          cases k with
          | zero => exact same
          | succ k =>
              have byte := rest k (by omega)
              rw [show i + 1 + k = i + (k + 1) by omega] at byte
              exact byte
        · intro all k below
          have byte := all (k + 1) (by omega)
          rw [show i + (k + 1) = i + 1 + k by omega] at byte
          exact byte
      · rw [if_pos same]
        symm
        show some _ = some false
        rw [Option.some.injEq, decide_eq_false_iff_not]
        intro all
        exact same (all 0 (Nat.succ_pos left))

/-- The comparison is of the addressed bytes, all of them in RDRAM. -/
theorem guestPrefixEq_eq (rdram : Rdram) (ptr : UInt32) (want : Bytes) (wlen : UInt16) :
    guestPrefixEq rdram ptr want wlen = some (decide (
      rdramRange ptr (wlen.toUInt32 + 1) = true ∧ ∀ k < wlen.toNat,
        Guest.guestRb rdram (ptr + UInt32.ofNat k) = want.getD k 0)) := by
  unfold guestPrefixEq
  by_cases inRange : rdramRange ptr (wlen.toUInt32 + 1) = true
  · have bound := wlen.toNat_lt
    have one : (1 : UInt32).toNat = 1 := rfl
    have wide : (wlen.toUInt32 + 1).toNat = wlen.toNat + 1 := by
      rw [UInt32.toNat_add, UInt16.toNat_toUInt32, one]
      omega
    rw [if_pos inRange, prefixFrom_eq rdram inRange want (by omega)]
    simp only [inRange, true_and, Nat.zero_add]
  · rw [if_neg inRange, decide_eq_false (fun both => inRange both.1)]

/-! ## The scans -/

/-- A probe that passes the check, behind a pointer that did. -/
theorem loadAt_of_near (rdram : Rdram) {ptr : UInt32} {i : Nat}
    (low : 0x80000000 ≤ ptr.toNat) (high : ptr.toNat < 0x80800000) (near : i < 256)
    (inRange : rdramRange (ptr + UInt32.ofNat i) 1 = true) :
    loadAt rdram (physical ptr) i = byteBehind rdram ptr i := by
  have sum : (ptr + UInt32.ofNat i).toNat = ptr.toNat + i := toNat_add_ofNat (by omega)
  have one : (1 : UInt32).toNat = 1 := rfl
  obtain ⟨_, _, fits⟩ := rdramRange_iff.mp inRange
  have start := physical_toNat ptr
  have offset : (physical ptr + UInt32.ofNat i).toNat = (physical ptr).toNat + i :=
    toNat_add_ofNat (by omega)
  unfold loadAt byteBehind
  rw [if_pos inRange, offset]
  apply load_hostIndex
  unfold rdramSize
  omega

theorem textFrom_eq (rdram : Rdram) {ptr : UInt32} (low : 0x80000000 ≤ ptr.toNat)
    (high : ptr.toNat < 0x80800000) {left i : Nat} (near : i + left ≤ 256) :
    textFrom rdram ptr left i = some (Guest.textFrom rdram ptr left i) := by
  induction left generalizing i with
  | zero => rfl
  | succ left inductionHypothesis =>
      rw [textFrom, Guest.textFrom]
      by_cases inRange : rdramRange (ptr + UInt32.ofNat i) 1 = true
      · rw [loadAt_of_near rdram low high (by omega) inRange, inductionHypothesis (by omega)]
        have read : byteBehind rdram ptr i =
            some (rdram (hostIndex (physical ptr + UInt32.ofNat i).toNat)) := if_pos inRange
        simp only [inRange, read, Bool.not_true, Bool.false_eq_true, if_false,
          Option.bind_eq_bind, Option.bind_some]
        by_cases ends : rdram (hostIndex (physical ptr + UInt32.ofNat i).toNat) = 0
        · simp only [ends, if_true, Option.pure_def]
        · by_cases text : isTextByte (rdram (hostIndex (physical ptr + UInt32.ofNat i).toNat))
          · simp only [ends, text, if_true, if_false, Bool.not_true, Bool.false_eq_true,
              Option.pure_def]
          · simp only [ends, text, if_true, if_false, Bool.not_false, Bool.false_eq_true,
              Option.pure_def]
      · have missing : byteBehind rdram ptr i = none := if_neg inRange
        simp only [inRange, missing, Bool.not_false, if_true]

theorem readTextArg_eq (rdram : Rdram) (ptr : UInt32) :
    readTextArg rdram ptr = some (Guest.readTextArg rdram ptr) := by
  unfold readTextArg Guest.readTextArg
  by_cases outside : ptr < 0x80000000 ∨ ptr ≥ 0x80800000
  · rw [if_pos outside, if_pos outside]
  · have inside := outside
    rw [not_or, UInt32.not_lt, ge_iff_le, UInt32.not_le, UInt32.le_iff_toNat_le,
      UInt32.lt_iff_toNat_lt] at inside
    rw [if_neg outside, if_neg outside, textFrom_eq rdram inside.1 inside.2 (by decide)]
    split <;> rfl

theorem formatFrom_eq (rdram : Rdram) {fmt : UInt32} (low : 0x80000000 ≤ fmt.toNat)
    (high : fmt.toNat < 0x80800000) {left len : Nat} (near : len + left ≤ 256) :
    formatFrom rdram fmt left len = some (Guest.formatFrom rdram fmt left len) := by
  induction left generalizing len with
  | zero => rfl
  | succ left inductionHypothesis =>
      rw [formatFrom, Guest.formatFrom]
      by_cases inRange : rdramRange (fmt + UInt32.ofNat len) 1 = true
      · rw [loadAt_of_near rdram low high (by omega) inRange, inductionHypothesis (by omega)]
        have read : byteBehind rdram fmt len =
            some (rdram (hostIndex (physical fmt + UInt32.ofNat len).toNat)) := if_pos inRange
        simp only [inRange, read, Bool.not_true, Bool.false_eq_true, if_false,
          Option.bind_eq_bind, Option.bind_some, Option.pure_def]
        split <;> rfl
      · have missing : byteBehind rdram fmt len = none := if_neg inRange
        simp only [inRange, missing, Bool.not_false, if_true]

/-- A pointer outside RDRAM stops the scan at its first probe. -/
theorem readFormat_eq (rdram : Rdram) (fmt : UInt32) :
    readFormat rdram fmt = some (Guest.readFormat rdram fmt) := by
  unfold readFormat Guest.readFormat
  have start : fmt + UInt32.ofNat 0 = fmt := UInt32.add_zero fmt
  by_cases inRange : rdramRange fmt 1 = true
  · obtain ⟨low, high, _⟩ := rdramRange_iff.mp inRange
    exact formatFrom_eq rdram low high (by decide)
  · have missing : byteBehind rdram fmt 0 = none := by
      unfold byteBehind
      rw [start]
      exact if_neg inRange
    show formatFrom rdram fmt (255 + 1) 0 = some (Guest.formatFrom rdram fmt (255 + 1) 0)
    rw [formatFrom, Guest.formatFrom, start]
    simp only [inRange, missing, Bool.not_false, if_true]

/-! ## The write -/

theorem storeFrom_eq (rdram : Rdram) {paddr : Nat} {s : Bytes}
    (inside : paddr + s.length ≤ rdramSize) :
    storeFrom rdram paddr s = some (storeBytes rdram paddr s) := by
  induction s generalizing rdram paddr with
  | nil => rfl
  | cons byte rest inductionHypothesis =>
      rw [List.length_cons] at inside
      rw [storeFrom, store_hostIndex rdram byte (by omega)]
      exact inductionHypothesis _ (by omega)

/-- The write takes place when the string and its NUL lie in RDRAM. -/
theorem writeGuestStr_eq (rdram : Rdram) (va : UInt32) {s : Bytes} (short : s.length ≤ 0x300) :
    writeGuestStr rdram va s = some (
      match Guest.writeGuestStr rdram va s with
      | some after => (true, after)
      | none => (false, rdram)) := by
  unfold writeGuestStr Guest.writeGuestStr
  by_cases inRange : rdramRange va (UInt32.ofNat s.length + 1) = true
  · have last : (physical va).toNat + s.length < rdramSize := by
      apply physical_lt_of_range inRange
      rw [toNat_length_add_one short]
      exact Nat.lt_succ_self _
    rw [if_pos inRange, if_pos inRange]
    simp only [storeFrom_eq rdram (Nat.le_of_lt last), store_hostIndex _ 0 last,
      Option.bind_eq_bind, Option.bind_some, Option.pure_def]
  · rw [if_neg inRange, if_neg inRange]

end Checked

end StadiumRecomp.Guest
