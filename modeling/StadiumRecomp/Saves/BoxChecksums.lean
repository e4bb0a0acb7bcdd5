import Mathlib.Algebra.GroupWithZero.Nat
import StadiumRecomp.Lib.CString
import StadiumRecomp.Lib.Outcome
import StadiumRecomp.Lib.Seals

/-!
Contract: `tools/repair_gen1_box_checksums.py` and the checks of
`tools/analyze_box_structure.py`.

Owns: the sum both tools take, the repair with its list of changes, and what the analysis
reports.

Does not own: the file names and the printed text.
-/

set_option autoImplicit false

namespace StadiumRecomp.Saves

open StadiumRecomp.Lib

/-! ## The tools -/

inductive Fault where
  | assertion
  | indexError
deriving DecidableEq, Repr

abbrev Run := Except Fault

/-- `b[i]`. -/
def byteAt (b : Bytes) (i : Nat) : Run UInt8 :=
  match b[i]? with
  | some byte => .ok byte
  | none => .error .indexError

/-- `(~s) & 0xFF`. -/
def complement (s : Nat) : UInt8 := UInt8.ofNat (0xFF - s % 0x100)

/-- `ones` of both tools; the range includes its end. -/
def ones (b : Bytes) (a z : Nat) : Run UInt8 := do
  let s ← (List.range' a (z + 1 - a)).foldlM (fun s i => do
    let byte ← byteAt b i
    return s + byte.toNat) 0
  return complement s

/-- `BOX`. -/
def boxSize : Nat := 0x566

/-- An entry of `changes`. -/
structure Change where
  off : Nat
  old : UInt8
  new : UInt8
deriving DecidableEq, Repr

structure Repair where
  b : Bytes
  changes : List Change
deriving DecidableEq, Repr

/-- The byte at `off` becomes the computed one; a different one is noted. -/
def rewriteByte (repair : Repair) (off : Nat) (computed : UInt8) : Run Repair := do
  let old ← byteAt repair.b off
  return {
    b := repair.b.set off computed
    changes :=
      if old ≠ computed then repair.changes ++ [⟨off, old, computed⟩] else repair.changes }

def repairBox (base : Nat) (repair : Repair) (i : Nat) : Run Repair := do
  let s := base + i * boxSize
  let computed ← ones repair.b s (s + boxSize - 1)
  rewriteByte repair (base + 0x1599 + i) computed

/-- The boxes of a bank first, then all of them. -/
def repairBank (repair : Repair) (base : Nat) : Run Repair := do
  let repair ← (List.range 4).foldlM (repairBox base) repair
  let allcalc ← ones repair.b base (base + 0x1598 - 1)
  rewriteByte repair (base + 0x1598) allcalc

/-- `main` of the repair, from the bytes of the source to those it writes. -/
def repairMain (b : Bytes) : Run Repair :=
  if b.length ≥ 0x8000 then [0x4000, 0x6000].foldlM repairBank ⟨b, []⟩
  else .error .assertion

/-- A checksum as the analysis reports it. -/
structure Check where
  off : Nat
  computed : UInt8
  stored : UInt8
deriving DecidableEq, Repr

/-- `OK`, not `MISMATCH`. -/
def Check.Passes (check : Check) : Prop := check.computed = check.stored

structure BankReport where
  counts : List UInt8
  allBoxes : Check
  perBox : List Check
  tail : Bytes
deriving DecidableEq, Repr

def BankReport.checks (report : BankReport) : List Check := report.allBoxes :: report.perBox

def checkBox (b : Bytes) (base i : Nat) : Run Check := do
  let s := base + i * boxSize
  let computed ← ones b s (s + boxSize - 1)
  let stored ← byteAt b (base + 0x1599 + i)
  return ⟨base + 0x1599 + i, computed, stored⟩

def analyzeBank (b : Bytes) (base : Nat) : Run BankReport := do
  let starts := (List.range 4).map (fun i => base + i * boxSize)
  let counts ← starts.mapM (byteAt b)
  let allboxOff := base + 0x1598
  let allboxCalc ← ones b base (allboxOff - 1)
  let allboxStored ← byteAt b allboxOff
  let perBox ← (List.range 4).mapM (checkBox b base)
  return ⟨counts, ⟨allboxOff, allboxCalc, allboxStored⟩, perBox, (b.drop allboxOff).take 8⟩

/-- `main` of the analysis, from the bytes it reads to what it reports of the two banks. -/
def analyzeMain (b : Bytes) : Run (List BankReport) := [0x4000, 0x6000].mapM (analyzeBank b)

/-! ## Checksums as seals -/

/-- The checksum of the bytes of a range. -/
def checksum (b : Bytes) (a length : Nat) : UInt8 :=
  complement (((b.drop a).take length).map UInt8.toNat).sum

theorem foldlM_byteAt {b : Bytes} {a length : Nat} (fits : a + length ≤ b.length) (start : Nat) :
    (List.range' a length).foldlM (fun s i => do
      let byte ← byteAt b i
      return s + byte.toNat) start =
        (.ok (start + (((b.drop a).take length).map UInt8.toNat).sum) : Run Nat) := by
  induction length generalizing a start with
  | zero => rfl
  | succ length inductionHypothesis =>
      have inside : a < b.length := by omega
      have read : byteAt b a = .ok b[a] := by
        unfold byteAt
        rw [List.getElem?_eq_getElem inside]
      rw [List.range'_succ, List.foldlM_cons, read, List.drop_eq_getElem_cons inside,
        List.take_succ_cons, List.map_cons, List.sum_cons, ← Nat.add_assoc]
      exact inductionHypothesis (by omega) _

theorem ones_eq {b : Bytes} {a length : Nat} (some : 0 < length) (fits : a + length ≤ b.length) :
    ones b a (a + length - 1) = .ok (checksum b a length) := by
  unfold ones
  rw [show a + length - 1 + 1 - a = length by omega, foldlM_byteAt fits, Nat.zero_add]
  rfl

/-- The checksum of a range, stored at a target. -/
def rangeSeal (target a length : Nat) : Seal UInt8 where
  target := target
  reads i := a ≤ i ∧ i < a + length
  value b := checksum b a length
  depends := by
    intro cells other agree
    unfold checksum
    congr 3
    apply List.ext_getElem?
    intro i
    rw [List.getElem?_take, List.getElem?_take, List.getElem?_drop, List.getElem?_drop]
    split
    next inside => exact agree (a + i) ⟨by omega, by omega⟩
    next => rfl

def boxSeal (base i : Nat) : Seal UInt8 :=
  rangeSeal (base + 0x1599 + i) (base + i * boxSize) boxSize

def allBoxesSeal (base : Nat) : Seal UInt8 := rangeSeal (base + 0x1598) base 0x1598

def bankSeals (base : Nat) : List (Seal UInt8) :=
  (List.range 4).map (boxSeal base) ++ [allBoxesSeal base]

/-- The ten checksums of an image. -/
def imageSeals : List (Seal UInt8) := bankSeals 0x4000 ++ bankSeals 0x6000

/-! ## The repair writes the seals -/

/-- The repair behind the write of one seal. -/
def writeSeal (repair : Repair) (sealed : Seal UInt8) : Repair where
  b := sealed.write repair.b
  changes :=
    match repair.b[sealed.target]? with
    | none => repair.changes
    | some old =>
        if old ≠ sealed.value repair.b then
          repair.changes ++ [⟨sealed.target, old, sealed.value repair.b⟩]
        else repair.changes

theorem length_writeSeal (repair : Repair) (sealed : Seal UInt8) :
    (writeSeal repair sealed).b.length = repair.b.length := List.length_set

theorem rewriteByte_eq {repair : Repair} {sealed : Seal UInt8}
    (fits : sealed.target < repair.b.length) :
    rewriteByte repair sealed.target (sealed.value repair.b) = .ok (writeSeal repair sealed) := by
  unfold rewriteByte writeSeal byteAt
  rw [List.getElem?_eq_getElem fits]
  rfl

/-- A loop whose every round writes a seal writes their list. -/
theorem foldlM_writeSeal {ι : Type} {size : Nat} {round : Repair → ι → Run Repair}
    {sealOf : ι → Seal UInt8} {inputs : List ι}
    (writes : ∀ input ∈ inputs, ∀ repair : Repair, repair.b.length = size →
      round repair input = .ok (writeSeal repair (sealOf input)))
    {repair : Repair} (length : repair.b.length = size) :
    inputs.foldlM round repair = .ok ((inputs.map sealOf).foldl writeSeal repair) := by
  induction inputs generalizing repair with
  | nil => rfl
  | cons input rest inductionHypothesis =>
      rw [List.foldlM_cons, writes input List.mem_cons_self repair length]
      apply inductionHypothesis
      · intro other member
        exact writes other (List.mem_cons_of_mem _ member)
      · rw [length_writeSeal, length]

theorem length_foldl_writeSeal (seals : List (Seal UInt8)) (repair : Repair) :
    (seals.foldl writeSeal repair).b.length = repair.b.length := by
  induction seals generalizing repair with
  | nil => rfl
  | cons first rest inductionHypothesis =>
      rw [List.foldl_cons, inductionHypothesis, length_writeSeal]

theorem repairBox_eq {base i : Nat} {repair : Repair} (box : i < 4)
    (fits : base + 0x159D ≤ repair.b.length) :
    repairBox base repair i = .ok (writeSeal repair (boxSeal base i)) := by
  have small : boxSize = 0x566 := rfl
  have start : i * boxSize = i * 0x566 := rfl
  have target : (boxSeal base i).target < repair.b.length := by
    show base + 0x1599 + i < _
    omega
  unfold repairBox
  simp only
  rw [ones_eq (by decide : 0 < boxSize) (by omega)]
  exact rewriteByte_eq target

theorem repairBank_eq {base : Nat} {repair : Repair} (fits : base + 0x159D ≤ repair.b.length) :
    repairBank repair base = .ok ((bankSeals base).foldl writeSeal repair) := by
  have boxes : (List.range 4).foldlM (repairBox base) repair =
      .ok (((List.range 4).map (boxSeal base)).foldl writeSeal repair) := by
    refine foldlM_writeSeal ?_ (rfl : _ = repair.b.length)
    intro i member other length
    exact repairBox_eq (List.mem_range.mp member) (by omega)
  have length := length_foldl_writeSeal ((List.range 4).map (boxSeal base)) repair
  unfold repairBank bankSeals
  rw [boxes, List.foldl_append]
  generalize ((List.range 4).map (boxSeal base)).foldl writeSeal repair = boxed at length
  have target : (allBoxesSeal base).target < boxed.b.length := by
    show base + 0x1598 < _
    omega
  show (ones boxed.b base (base + 0x1598 - 1) >>= _) = _
  rw [ones_eq (by decide : 0 < 0x1598) (by omega)]
  exact rewriteByte_eq target

theorem repairMain_eq {b : Bytes} (image : 0x8000 ≤ b.length) :
    repairMain b = .ok (imageSeals.foldl writeSeal ⟨b, []⟩) := by
  have length := length_foldl_writeSeal (bankSeals 0x4000) ⟨b, []⟩
  have start : (Repair.mk b []).b.length = b.length := rfl
  unfold repairMain
  rw [if_pos image, List.foldlM_cons, repairBank_eq (by omega)]
  show [0x6000].foldlM repairBank ((bankSeals 0x4000).foldl writeSeal ⟨b, []⟩) = _
  rw [List.foldlM_cons, repairBank_eq (by omega)]
  unfold imageSeals
  rw [List.foldl_append]
  rfl

theorem foldl_writeSeal_b (seals : List (Seal UInt8)) (repair : Repair) :
    (seals.foldl writeSeal repair).b = Seal.writeAll seals repair.b := by
  induction seals generalizing repair with
  | nil => rfl
  | cons first rest inductionHypothesis =>
      rw [List.foldl_cons, inductionHypothesis]
      rfl

/-- Seals that hold are left as they are, and nothing is noted. -/
theorem foldl_writeSeal_of_holds {seals : List (Seal UInt8)} {repair : Repair}
    (holds : ∀ sealed ∈ seals, sealed.Holds repair.b) : seals.foldl writeSeal repair = repair := by
  induction seals with
  | nil => rfl
  | cons first rest inductionHypothesis =>
      have held := holds first List.mem_cons_self
      have kept : writeSeal repair first = repair := by
        unfold writeSeal
        rw [Seal.write_of_holds held, held]
        simp only [ne_eq, not_true_eq_false, if_false]
      rw [List.foldl_cons, kept]
      exact inductionHypothesis (fun sealed member => holds sealed (List.mem_cons_of_mem _ member))

/-! ## The checksums are apart from what they sum -/

theorem mem_imageSeals {sealed : Seal UInt8} (member : sealed ∈ imageSeals) :
    ∃ base, (base = 0x4000 ∨ base = 0x6000) ∧
      ((∃ i < 4, sealed = boxSeal base i) ∨ sealed = allBoxesSeal base) := by
  unfold imageSeals bankSeals at member
  simp only [List.mem_append, List.mem_map, List.mem_range, List.mem_singleton] at member
  rcases member with (⟨i, box, rfl⟩ | rfl) | (⟨i, box, rfl⟩ | rfl)
  · exact ⟨0x4000, .inl rfl, .inl ⟨i, box, rfl⟩⟩
  · exact ⟨0x4000, .inl rfl, .inr rfl⟩
  · exact ⟨0x6000, .inr rfl, .inl ⟨i, box, rfl⟩⟩
  · exact ⟨0x6000, .inr rfl, .inr rfl⟩

/-- Every checksum byte of an image lies behind the boxes of its bank. -/
theorem target_imageSeals {sealed : Seal UInt8} (member : sealed ∈ imageSeals) :
    ∃ base, (base = 0x4000 ∨ base = 0x6000) ∧ base + 0x1598 ≤ sealed.target ∧
      sealed.target ≤ base + 0x159C := by
  obtain ⟨base, bank, ⟨i, box, rfl⟩ | rfl⟩ := mem_imageSeals member
  · refine ⟨base, bank, ?_, ?_⟩
    · show base + 0x1598 ≤ base + 0x1599 + i
      omega
    · show base + 0x1599 + i ≤ base + 0x159C
      omega
  · refine ⟨base, bank, Nat.le_refl _, ?_⟩
    show base + 0x1598 ≤ base + 0x159C
    omega

/-- Every checksum of an image sums bytes of the boxes of one bank. -/
theorem reads_imageSeals {sealed : Seal UInt8} (member : sealed ∈ imageSeals) :
    ∃ base, (base = 0x4000 ∨ base = 0x6000) ∧
      ∀ i, sealed.reads i → base ≤ i ∧ i < base + 0x1598 := by
  obtain ⟨base, bank, ⟨box, few, rfl⟩ | rfl⟩ := mem_imageSeals member
  · have start : box * boxSize = box * 0x566 := rfl
    have small : boxSize = 0x566 := rfl
    refine ⟨base, bank, ?_⟩
    intro i ⟨low, high⟩
    omega
  · exact ⟨base, bank, fun i within => within⟩

theorem boxSeal_mem {base i : Nat} (bank : base ∈ [0x4000, 0x6000]) (box : i < 4) :
    boxSeal base i ∈ imageSeals := by
  have inside : boxSeal base i ∈ bankSeals base :=
    List.mem_append_left _ (List.mem_map.mpr ⟨i, List.mem_range.mpr box, rfl⟩)
  simp only [List.mem_cons, List.not_mem_nil, or_false] at bank
  rcases bank with rfl | rfl
  · exact List.mem_append_left _ inside
  · exact List.mem_append_right _ inside

theorem allBoxesSeal_mem {base : Nat} (bank : base ∈ [0x4000, 0x6000]) :
    allBoxesSeal base ∈ imageSeals := by
  have inside : allBoxesSeal base ∈ bankSeals base :=
    List.mem_append_right _ List.mem_cons_self
  simp only [List.mem_cons, List.not_mem_nil, or_false] at bank
  rcases bank with rfl | rfl
  · exact List.mem_append_left _ inside
  · exact List.mem_append_right _ inside

theorem separate_imageSeals : Seal.Separate imageSeals where
  unread := by
    intro reader readerIn sealed sealedIn read
    obtain ⟨bank, _, low, high⟩ := target_imageSeals sealedIn
    obtain ⟨summed, _, within⟩ := reads_imageSeals readerIn
    have inside := within _ read
    omega
  distinct := by decide

/-! ## Repaired images -/

theorem checkBox_eq {b : Bytes} {base i : Nat} (box : i < 4) (fits : base + 0x159D ≤ b.length)
    (holds : (boxSeal base i).Holds b) :
    ∃ check, checkBox b base i = .ok check ∧ check.Passes := by
  have small : boxSize = 0x566 := rfl
  have start : i * boxSize = i * 0x566 := rfl
  have stored : b[base + 0x1599 + i]? = some (checksum b (base + i * boxSize) boxSize) := holds
  unfold checkBox
  simp only
  rw [ones_eq (by decide : 0 < boxSize) (by omega)]
  unfold byteAt
  rw [stored]
  exact ⟨_, rfl, rfl⟩

/-- The analysis of a bank whose seals hold finds no mismatch. -/
theorem analyzeBank_passes {b : Bytes} {base : Nat} (fits : base + 0x159D ≤ b.length)
    (boxes : ∀ i < 4, (boxSeal base i).Holds b) (all : (allBoxesSeal base).Holds b) :
    ∃ report, analyzeBank b base = .ok report ∧ ∀ check ∈ report.checks, check.Passes := by
  have stored : b[base + 0x1598]? = some (checksum b base 0x1598) := all
  have counted : ∃ counts, ((List.range 4).map (fun i => base + i * boxSize)).mapM (byteAt b) =
      .ok counts ∧ ∀ count ∈ counts, True := by
    apply Outcome.exists_mapM_eq_ok
    intro start member
    obtain ⟨i, box, rfl⟩ := List.mem_map.mp member
    have few := List.mem_range.mp box
    have offset : i * boxSize = i * 0x566 := rfl
    unfold byteAt
    rw [List.getElem?_eq_getElem (by omega)]
    exact ⟨_, rfl, trivial⟩
  have checked : ∃ perBox, (List.range 4).mapM (checkBox b base) = .ok perBox ∧
      ∀ check ∈ perBox, check.Passes := by
    apply Outcome.exists_mapM_eq_ok
    intro i box
    exact checkBox_eq (List.mem_range.mp box) fits (boxes i (List.mem_range.mp box))
  obtain ⟨counts, counts_eq, _⟩ := counted
  obtain ⟨perBox, perBox_eq, passes⟩ := checked
  unfold analyzeBank
  simp only [counts_eq, perBox_eq]
  show ∃ report, (ones b base (base + 0x1598 - 1) >>= _) = .ok report ∧ _
  rw [ones_eq (by decide : 0 < 0x1598) (by omega)]
  unfold byteAt
  rw [stored]
  refine ⟨_, rfl, ?_⟩
  intro check member
  rcases List.mem_cons.mp member with rfl | inside
  · rfl
  · exact passes check inside

/-- The bytes that hold the ten checksums. -/
def IsChecksumByte (off : Nat) : Prop :=
  ∃ base, (base = 0x4000 ∨ base = 0x6000) ∧ base + 0x1598 ≤ off ∧ off ≤ base + 0x159C

theorem repair_verifies {b : Bytes} (image : 0x8000 ≤ b.length) :
    ∃ repair, repairMain b = .ok repair ∧
      repair.b.length = b.length ∧
      (∀ off, ¬ IsChecksumByte off → repair.b[off]? = b[off]?) ∧
      (∃ reports, analyzeMain repair.b = .ok reports ∧
        ∀ report ∈ reports, ∀ check ∈ report.checks, check.Passes) ∧
      repairMain repair.b = .ok ⟨repair.b, []⟩ := by
  have fits : ∀ sealed ∈ imageSeals, sealed.target < b.length := by
    intro sealed member
    obtain ⟨base, bank, _, high⟩ := target_imageSeals member
    omega
  have written : (imageSeals.foldl writeSeal ⟨b, []⟩).b = Seal.writeAll imageSeals b :=
    foldl_writeSeal_b imageSeals ⟨b, []⟩
  have holds := Seal.holds_writeAll separate_imageSeals fits
  have length := Seal.length_writeAll imageSeals b
  refine ⟨_, repairMain_eq image, ?_⟩
  rw [written]
  refine ⟨length, ?_, ?_, ?_⟩
  · intro off outside
    apply Seal.getElem?_writeAll
    intro sealed member same
    apply outside
    rw [← same]
    exact target_imageSeals member
  · have bank : ∀ base ∈ [0x4000, 0x6000],
        ∃ report, analyzeBank (Seal.writeAll imageSeals b) base = .ok report ∧
          ∀ check ∈ report.checks, check.Passes := by
      intro base member
      apply analyzeBank_passes
      · simp only [List.mem_cons, List.not_mem_nil, or_false] at member
        omega
      · intro i box
        exact holds _ (boxSeal_mem member box)
      · exact holds _ (allBoxesSeal_mem member)
    exact Outcome.exists_mapM_eq_ok bank
  · rw [repairMain_eq (by omega), foldl_writeSeal_of_holds holds]

/-- A blank image of 32 KiB. -/
theorem repair_verifies_blank :
    ∃ repair, repairMain (List.replicate 0x8000 0) = .ok repair ∧
      repair.b.length = (List.replicate 0x8000 (0 : UInt8)).length ∧
      (∀ off, ¬ IsChecksumByte off →
        repair.b[off]? = (List.replicate 0x8000 (0 : UInt8))[off]?) ∧
      (∃ reports, analyzeMain repair.b = .ok reports ∧
        ∀ report ∈ reports, ∀ check ∈ report.checks, check.Passes) ∧
      repairMain repair.b = .ok ⟨repair.b, []⟩ :=
  repair_verifies (by rw [List.length_replicate])

end StadiumRecomp.Saves
