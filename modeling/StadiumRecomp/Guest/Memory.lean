import Mathlib.Algebra.Group.Nat.Defs
import Mathlib.Data.List.GetD
import Mathlib.Logic.Function.Basic
import StadiumRecomp.Lib.CString

/-!
Contract: guest memory as the host sees it, one byte array behind a swizzle.

Owns: the range check of `pms_diag_rdram_range`, single reads, big-endian words, the
prefix comparison, `write_guest_str`, and where each of them reads and writes.

Does not own: what any address holds.
-/

set_option autoImplicit false

namespace StadiumRecomp.Guest

open StadiumRecomp.Lib

/-- The bytes from `rdram` on, by host index. -/
abbrev Rdram := Nat → UInt8

/-- `pms_diag_rdram_range`. -/
def rdramRange (vaddr len : UInt32) : Bool :=
  let start := vaddr &&& 0x1FFFFFFF
  vaddr ≥ 0x80000000 && vaddr < 0x80800000 && len ≤ 0x00800000 && start ≤ 0x00800000 - len

/-- `vaddr & 0x1FFFFFFF`. -/
def physical (vaddr : UInt32) : UInt32 := vaddr &&& 0x1FFFFFFF

/-- The host index `paddr ^ 3` of a physical address. -/
def hostIndex (paddr : Nat) : Nat := paddr ^^^ 3

/-- `guest_rb`. -/
def guestRb (rdram : Rdram) (va : UInt32) : UInt8 :=
  if rdramRange va 1 then rdram (hostIndex (physical va).toNat) else 0

/-- `pms_diag_read_u32`. -/
def readU32 (rdram : Rdram) (vaddr : UInt32) : UInt32 :=
  if rdramRange vaddr 4 then
    (List.range 4).foldl (fun value i => (value <<< 8) |||
      (rdram (hostIndex (physical vaddr + UInt32.ofNat i).toNat)).toUInt32) 0
  else 0

/-- `pms_diag_copy_bytes`, as what it leaves in `out`. -/
def copyBytes (rdram : Rdram) (vaddr len : UInt32) : Bytes :=
  if rdramRange vaddr len then
    (List.range len.toNat).map fun i => rdram (hostIndex ((physical vaddr).toNat + i))
  else List.replicate len.toNat 0

/-- `guest_prefix_eq`. -/
def guestPrefixEq (rdram : Rdram) (ptr : UInt32) (want : Bytes) : Bool :=
  rdramRange ptr (UInt32.ofNat want.length + 1) &&
    (List.range want.length).all fun i =>
      rdram (hostIndex (physical ptr + UInt32.ofNat i).toNat) == want.getD i 0

/-- Consecutive bytes from a physical address on. -/
def storeBytes (rdram : Rdram) (paddr : Nat) : Bytes → Rdram
  | [] => rdram
  | byte :: rest => storeBytes (Function.update rdram (hostIndex paddr) byte) (paddr + 1) rest

/-- `write_guest_str`; no result for `false`. -/
def writeGuestStr (rdram : Rdram) (va : UInt32) (s : Bytes) : Option Rdram :=
  if rdramRange va (UInt32.ofNat s.length + 1) then
    let pa := (physical va).toNat
    some (Function.update (storeBytes rdram pa s) (hostIndex (pa + s.length)) 0)
  else none

/-! ## Addresses -/

theorem physical_toNat (vaddr : UInt32) : (physical vaddr).toNat = vaddr.toNat % 2 ^ 29 := by
  unfold physical
  rw [UInt32.toNat_and]
  exact Nat.and_two_pow_sub_one_eq_mod vaddr.toNat 29

theorem rdramRange_iff {vaddr len : UInt32} :
    rdramRange vaddr len = true ↔
      0x80000000 ≤ vaddr.toNat ∧ vaddr.toNat < 0x80800000 ∧
        vaddr.toNat - 0x80000000 + len.toNat ≤ 0x800000 := by
  have start : (vaddr &&& 0x1FFFFFFF).toNat = vaddr.toNat % 2 ^ 29 := physical_toNat vaddr
  unfold rdramRange
  simp only [Bool.and_eq_true, decide_eq_true_eq, ge_iff_le, UInt32.le_iff_toNat_le,
    UInt32.lt_iff_toNat_lt, start, UInt32.toNat_sub, UInt32.reduceToNat]
  have bound := vaddr.toNat_lt
  have bound' := len.toNat_lt
  constructor
  · intro ⟨⟨⟨low, high⟩, short⟩, fits⟩
    omega
  · intro ⟨low, high, fits⟩
    refine ⟨⟨⟨low, high⟩, by omega⟩, by omega⟩

/-- The physical address of an address in RDRAM. -/
theorem physical_of_range {vaddr len : UInt32} (inRange : rdramRange vaddr len = true) :
    (physical vaddr).toNat = vaddr.toNat - 0x80000000 := by
  obtain ⟨low, high, _⟩ := rdramRange_iff.mp inRange
  rw [physical_toNat]
  omega

theorem hostIndex_inj {left right : Nat} : hostIndex left = hostIndex right ↔ left = right := by
  unfold hostIndex
  constructor
  · intro same
    have undone := congrArg (· ^^^ 3) same
    simpa [Nat.xor_assoc] using undone
  · rintro rfl
    rfl

/-! ## What a write leaves -/

/-- The byte stored at an offset, the old one elsewhere. -/
theorem storeBytes_hostIndex (rdram : Rdram) (paddr : Nat) (bytes : Bytes) (other : Nat) :
    storeBytes rdram paddr bytes (hostIndex other) =
      if paddr ≤ other ∧ other < paddr + bytes.length then bytes.getD (other - paddr) 0
      else rdram (hostIndex other) := by
  induction bytes generalizing rdram paddr with
  | nil =>
      rw [storeBytes, if_neg]
      simp
  | cons byte rest inductionHypothesis =>
      rw [storeBytes, inductionHypothesis, List.length_cons]
      by_cases here : other = paddr
      · subst here
        rw [if_neg (by omega), if_pos (by omega), Function.update_self, Nat.sub_self]
        rfl
      · have elsewhere : hostIndex other ≠ hostIndex paddr := fun same => here (hostIndex_inj.mp same)
        rw [Function.update_of_ne elsewhere]
        by_cases inside : paddr + 1 ≤ other ∧ other < paddr + 1 + rest.length
        · rw [if_pos inside, if_pos (by omega),
            show other - paddr = other - (paddr + 1) + 1 by omega]
          rfl
        · rw [if_neg inside, if_neg (by omega)]

theorem storeBytes_append (rdram : Rdram) (paddr : Nat) (left right : Bytes) :
    storeBytes rdram paddr (left ++ right) =
      storeBytes (storeBytes rdram paddr left) (paddr + left.length) right := by
  induction left generalizing rdram paddr with
  | nil => rfl
  | cons byte left inductionHypothesis =>
      rw [List.cons_append, storeBytes, storeBytes, inductionHypothesis, List.length_cons]
      congr 1
      omega

/-- A string is written with its NUL. -/
theorem writeGuestStr_eq_some_iff {rdram after : Rdram} {va : UInt32} {s : Bytes} :
    writeGuestStr rdram va s = some after ↔
      rdramRange va (UInt32.ofNat s.length + 1) = true ∧
        after = storeBytes rdram (physical va).toNat (s ++ [0]) := by
  unfold writeGuestStr
  rw [storeBytes_append]
  split
  next inRange =>
    rw [Option.some.injEq]
    exact ⟨fun same => ⟨inRange, same.symm⟩, fun both => both.2.symm⟩
  next outside =>
    exact ⟨fun impossible => (by cases impossible), fun both => absurd both.1 outside⟩

theorem rdramRange_of_writeGuestStr_none {rdram : Rdram} {va : UInt32} {s : Bytes}
    (failed : writeGuestStr rdram va s = none) :
    rdramRange va (UInt32.ofNat s.length + 1) = false := by
  unfold writeGuestStr at failed
  split at failed
  next => cases failed
  next outside => exact Bool.eq_false_iff.mpr outside

/-! ## Segments -/

/-- The bytes from an address on, as the guest reads them. -/
def segment (rdram : Rdram) (va : UInt32) (count : Nat) : Bytes :=
  (List.range count).map (fun i => guestRb rdram (va + UInt32.ofNat i))

/-- The addresses a string and its NUL take from `va` on. -/
def Spans (va : UInt32) (s : Bytes) (paddr : Nat) : Prop :=
  (physical va).toNat ≤ paddr ∧ paddr ≤ (physical va).toNat + s.length

instance (va : UInt32) (s : Bytes) (paddr : Nat) : Decidable (Spans va s paddr) :=
  inferInstanceAs (Decidable (_ ∧ _))

/-- A write is seen at its own addresses and nowhere else. -/
theorem writeGuestStr_hostIndex {rdram after : Rdram} {va : UInt32} {s : Bytes}
    (written : writeGuestStr rdram va s = some after) (paddr : Nat) :
    after (hostIndex paddr) =
      if Spans va s paddr then (s ++ [0]).getD (paddr - (physical va).toNat) 0
      else rdram (hostIndex paddr) := by
  obtain ⟨_, rfl⟩ := writeGuestStr_eq_some_iff.mp written
  rw [storeBytes_hostIndex, List.length_append, List.length_singleton]
  by_cases inside : Spans va s paddr
  · rw [if_pos inside, if_pos ⟨inside.1, Nat.lt_succ_of_le inside.2⟩]
  · rw [if_neg inside, if_neg (fun both => inside ⟨both.1, Nat.le_of_lt_succ both.2⟩)]

theorem writeGuestStr_other {rdram after : Rdram} {va : UInt32} {s : Bytes}
    (written : writeGuestStr rdram va s = some after) {paddr : Nat} (outside : ¬ Spans va s paddr) :
    after (hostIndex paddr) = rdram (hostIndex paddr) := by
  rw [writeGuestStr_hostIndex written]
  exact if_neg outside

/-- Addresses inside a range do not wrap. -/
theorem toNat_add_ofNat {va : UInt32} {i : Nat} (inside : va.toNat + i < 2 ^ 32) :
    (va + UInt32.ofNat i).toNat = va.toNat + i := by
  rw [UInt32.toNat_add, UInt32.toNat_ofNat']
  omega

/-- A read inside a range. -/
theorem guestRb_of_range (rdram : Rdram) {va len : UInt32} {i : Nat}
    (inRange : rdramRange va len = true) (inside : i < len.toNat) :
    guestRb rdram (va + UInt32.ofNat i) = rdram (hostIndex ((physical va).toNat + i)) := by
  obtain ⟨low, high, fits⟩ := rdramRange_iff.mp inRange
  have sum : (va + UInt32.ofNat i).toNat = va.toNat + i := toNat_add_ofNat (by omega)
  have one : (1 : UInt32).toNat = 1 := rfl
  have here : rdramRange (va + UInt32.ofNat i) 1 = true := by
    rw [rdramRange_iff]
    omega
  have offset : va.toNat + i - 0x80000000 = va.toNat - 0x80000000 + i := by omega
  unfold guestRb
  rw [if_pos here, physical_of_range here, physical_of_range inRange, sum, offset]

theorem length_segment (rdram : Rdram) (va : UInt32) (count : Nat) :
    (segment rdram va count).length = count := by
  unfold segment
  rw [List.length_map, List.length_range]

/-- A segment is a text when every byte is. -/
theorem segment_eq_iff {rdram : Rdram} {va : UInt32} {text : Bytes} :
    segment rdram va text.length = text ↔
      ∀ i < text.length, guestRb rdram (va + UInt32.ofNat i) = text.getD i 0 := by
  constructor
  · intro same i inside
    have byte : (segment rdram va text.length).getD i 0 = text.getD i 0 := by rw [same]
    unfold segment at byte
    rw [List.getD_eq_getElem _ _ (by rw [List.length_map, List.length_range]; exact inside),
      List.getElem_map, List.getElem_range] at byte
    exact byte
  · intro bytes
    apply List.ext_getElem (length_segment rdram va text.length)
    intro i _ inside
    have byte := bytes i inside
    rw [List.getD_eq_getElem _ _ inside] at byte
    simp only [segment, List.getElem_map, List.getElem_range, byte]

/-- The length of a short string with its NUL. -/
theorem toNat_length_add_one {s : Bytes} (short : s.length ≤ 0x300) :
    (UInt32.ofNat s.length + 1).toNat = s.length + 1 := by
  have one : (1 : UInt32).toNat = 1 := rfl
  rw [UInt32.toNat_add, UInt32.toNat_ofNat', one]
  omega

/-- A written string stands at its address, with its NUL. -/
theorem segment_writeGuestStr {rdram after : Rdram} {va : UInt32} {s : Bytes}
    (written : writeGuestStr rdram va s = some after) (short : s.length ≤ 0x300) :
    segment after va (s ++ [0]).length = s ++ [0] := by
  rw [segment_eq_iff]
  intro i inside
  rw [List.length_append, List.length_singleton] at inside
  obtain ⟨inRange, _⟩ := writeGuestStr_eq_some_iff.mp written
  rw [guestRb_of_range after inRange (by rw [toNat_length_add_one short]; exact inside),
    writeGuestStr_hostIndex written,
    if_pos ⟨Nat.le_add_right .., Nat.add_le_add_left (Nat.le_of_lt_succ inside) _⟩,
    Nat.add_sub_cancel_left]

/-- Bytes inside a range are copied. -/
theorem copyBytes_of_range (rdram : Rdram) {vaddr len : UInt32}
    (inRange : rdramRange vaddr len = true) :
    copyBytes rdram vaddr len = segment rdram vaddr len.toNat := by
  rw [copyBytes, if_pos inRange]
  refine List.map_congr_left fun i member => ?_
  exact (guestRb_of_range rdram inRange (List.mem_range.mp member)).symm

/-- A segment in two parts. -/
theorem segment_add (rdram : Rdram) (va : UInt32) (front back : Nat) :
    segment rdram va (front + back) =
      segment rdram va front ++ segment rdram (va + UInt32.ofNat front) back := by
  unfold segment
  rw [List.range_add, List.map_append, List.map_map]
  congr 1
  refine List.map_congr_left fun i _ => ?_
  rw [Function.comp_apply, UInt32.ofNat_add, UInt32.add_assoc]

/-- The front of a segment. -/
theorem take_segment (rdram : Rdram) (va : UInt32) (few count : Nat) (fewer : few ≤ count) :
    (segment rdram va count).take few = segment rdram va few := by
  unfold segment
  rw [← List.map_take, List.take_range, Nat.min_eq_left fewer]

end StadiumRecomp.Guest
