import Mathlib.Algebra.GroupWithZero.Nat
import Mathlib.Data.List.GetD
import StadiumRecomp.Lib.Search
import StadiumRecomp.Lib.Utf8

/-!
Contract: the launcher's Transfer Pak inspector against the checksum test of the game.

Owns: `pmsj_tpak_inspect`, the test `verify_jp_checksum.py` transcribes from the game,
and on which saves the two agree.

Does not own: file access, and the sizes of the fields the inspector prints into and the
table of kana glyphs, which are parameters.
-/

set_option autoImplicit false

namespace StadiumRecomp.Launcher

open StadiumRecomp.Lib

/-! ## Checksums -/

/-- The sum of the bytes from `first` up to and including `last`. -/
def byteSum (data : Bytes) (first last : Nat) : Nat :=
  (((data.drop first).take (last + 1 - first)).map UInt8.toNat).sum

/-- The complement of the low byte of a sum. -/
def complementSum (sum : Nat) : UInt8 := ~~~ UInt8.ofNat sum

/-- `data[i]`. -/
def byteAt (data : Bytes) (i : Nat) : UInt8 := data.getD i 0

/-- The check of the game: `chk_game == stored_game` in `verify_jp_checksum.py`. -/
def gameAccepts (save : Bytes) : Bool :=
  complementSum (byteSum save 0x2598 0x3593) == byteAt save 0x3594

/-! ## The inspector -/

/-- The characters that the text fields of `RecompLauncherCTpak` have room for. -/
structure TpakRooms where
  cartLabel : Nat
  trainerName : Nat
  trainerId : Nat

/-- `RecompLauncherCTpak`. Without a trainer its fields stay zeroed. -/
structure Tpak (rooms : TpakRooms) where
  valid : Bool
  cartKind : Nat
  cartLabel : CString.FixedString rooms.cartLabel
  trainer : Option
    (CString.FixedString rooms.trainerName × CString.FixedString rooms.trainerId)
deriving DecidableEq

def Tpak.zeroed {rooms : TpakRooms} : Tpak rooms := ⟨false, 0, CString.FixedString.empty, none⟩

inductive GameKey where
  | yellow
  | red
  | blue
  | green
deriving DecidableEq, Repr

/-- The game key in a cartridge title, tried in this order. -/
def gameKey (title : Bytes) : Option GameKey :=
  let has (word : String) : Bool := (Search.indexOf? (CString.bytesOf word) title).isSome
  if has "YELLOW" then some .yellow
  else if has "RED" then some .red
  else if has "BLUE" then some .blue
  else if has "GREEN" then some .green
  else none

/-- The kind and label shown for a key. -/
def cartOf : Option GameKey → Nat × Bytes
  | some .red => (1, CString.bytesOf "ポケットモンスター 赤")
  | some .blue => (2, CString.bytesOf "ポケットモンスター 青")
  | some .yellow => (3, CString.bytesOf "ポケットモンスター ピカチュウ")
  | some .green => (4, CString.bytesOf "ポケットモンスター 緑")
  | none => (0, [])

/-- `"%05d"`. -/
def fmtD05 (value : Nat) : Bytes :=
  [value / 10000 % 10, value / 1000 % 10, value / 100 % 10, value / 10 % 10, value % 10].map
    (fun digit => UInt8.ofNat (0x30 + digit))

variable (rooms : TpakRooms) (charmap : UInt8 → Bytes)

/-- `name`: glyphs up to a terminator. -/
def trainerName (save : Bytes) : Bytes :=
  (((save.drop 0x2598).take (0x25A2 + 1 - 0x2598)).takeWhile
    (fun code => code ≠ 0x50 ∧ code ≠ 0)).flatMap charmap

def trainerId (save : Bytes) : Bytes :=
  fmtD05 ((byteAt save 0x2605).toNat * 256 + (byteAt save 0x2606).toNat)

/-- The trainer fields of a save, behind its checksum. -/
def readTrainer (save : Bytes) : Option
    (CString.FixedString rooms.trainerName × CString.FixedString rooms.trainerId) :=
  if save.length ≥ 0x3524 ∧
      complementSum (byteSum save 0x2598 0x3522) = byteAt save 0x3523 then
    some (.setStr (trainerName charmap save), .setStr (trainerId save))
  else none

/-- `pmsj_tpak_inspect` on the contents of the two files, where they can be opened. -/
def pmsjTpakInspect (rom save : Option Bytes) : Tpak rooms :=
  match rom with
  | none => .zeroed
  | some rom =>
      if rom.length < 0x150 then .zeroed
      else
        let cart := cartOf (gameKey ((rom.drop 0x134).take 16))
        ⟨true, cart.1, .setStr cart.2, save.bind (readTrainer rooms charmap)⟩

/-! ## Both checks as sums -/

theorem byteSum_split (data : Bytes) {first middle last : Nat} (ordered : first ≤ middle + 1)
    (later : middle ≤ last) :
    byteSum data first last = byteSum data first middle + byteSum data (middle + 1) last := by
  unfold byteSum
  have rest : data.drop (middle + 1) = (data.drop first).drop (middle + 1 - first) := by
    rw [List.drop_drop]
    congr 1
    omega
  have count : last + 1 - first = (middle + 1 - first) + (last + 1 - (middle + 1)) := by omega
  rw [rest, count, List.take_add, List.map_append, List.sum_append]

theorem byteSum_single {data : Bytes} {i : Nat} (inside : i < data.length) :
    byteSum data i i = (byteAt data i).toNat := by
  have one : i + 1 - i = 1 := by omega
  have value : byteAt data i = data[i] := by
    unfold byteAt
    exact List.getD_eq_getElem data 0 inside
  unfold byteSum
  rw [one, List.drop_eq_getElem_cons inside, List.take_succ_cons, List.take_zero, value]
  simp only [List.map_cons, List.map_nil, List.sum_cons, List.sum_nil, Nat.add_zero]

/-- A byte complements a sum when both add up to 255. -/
theorem complementSum_eq_iff (sum : Nat) (byte : UInt8) :
    complementSum sum = byte ↔ (sum + byte.toNat) % 256 = 255 := by
  have bound := byte.toNat_lt
  have value : (complementSum sum).toNat = 255 - sum % 256 := by
    unfold complementSum
    rw [UInt8.toNat_not, UInt8.toNat_ofNat']
    rfl
  rw [← UInt8.toNat_inj, value]
  omega

/-- A check of a sum against the byte behind it. -/
theorem check_iff {data : Bytes} {first last : Nat} (ordered : first ≤ last + 1)
    (inside : last + 1 < data.length) :
    complementSum (byteSum data first last) = byteAt data (last + 1) ↔
      byteSum data first (last + 1) % 256 = 255 := by
  rw [complementSum_eq_iff, byteSum_split data ordered (Nat.le_succ last),
    byteSum_single inside]

/-- A readable ROM is accepted, whatever its title, and the save alone decides the
trainer. -/
theorem pmsjTpakInspect_readable {rom : Bytes} (save : Option Bytes)
    (readable : 0x150 ≤ rom.length) :
    (pmsjTpakInspect rooms charmap (some rom) save).valid = true ∧
      (pmsjTpakInspect rooms charmap (some rom) save).trainer =
        save.bind (readTrainer rooms charmap) := by
  rw [pmsjTpakInspect, if_neg (Nat.not_lt.mpr readable)]
  exact ⟨rfl, rfl⟩

section Save

variable {save : Bytes}

theorem gameAccepts_iff (long : 0x8000 ≤ save.length) :
    gameAccepts save = true ↔
      (byteSum save 0x2598 0x3523 + byteSum save 0x3524 0x3594) % 256 = 255 := by
  have split : byteSum save 0x2598 0x3594 =
      byteSum save 0x2598 0x3523 + byteSum save 0x3524 0x3594 :=
    byteSum_split save (by decide) (by decide)
  have inside : 0x3593 + 1 < save.length := by omega
  have check := check_iff (show 0x2598 ≤ 0x3593 + 1 by decide) inside
  rw [gameAccepts, beq_iff_eq, ← split]
  exact check

theorem readTrainer_isSome_iff (long : 0x8000 ≤ save.length) :
    (readTrainer rooms charmap save).isSome ↔ byteSum save 0x2598 0x3523 % 256 = 255 := by
  have inside : 0x3522 + 1 < save.length := by omega
  have check := check_iff (show 0x2598 ≤ 0x3522 + 1 by decide) inside
  have longEnough : save.length ≥ 0x3524 := by omega
  unfold readTrainer
  rw [Option.isSome_ite]
  exact (and_iff_right longEnough).trans check

/-- What the inspector does not sum, up to the byte the game compares with. -/
def unsummed (save : Bytes) : Nat := byteSum save 0x3524 0x3594

/-- The inspector shows the trainer of exactly the saves the game accepts, when the
bytes behind its own checksum add up to nothing, or neither check passes. -/
theorem pmsjTpakInspect_agrees_iff {rom : Bytes}
    (accepted : (pmsjTpakInspect rooms charmap (some rom) (some save)).valid = true)
    (long : 0x8000 ≤ save.length) :
    ((pmsjTpakInspect rooms charmap (some rom) (some save)).trainer.isSome ↔
        gameAccepts save = true) ↔
      unsummed save % 256 = 0 ∨
        (byteSum save 0x2598 0x3523 % 256 ≠ 255 ∧
          (byteSum save 0x2598 0x3523 + unsummed save) % 256 ≠ 255) := by
  have readable : 0x150 ≤ rom.length := by
    by_contra short
    rw [pmsjTpakInspect, if_pos (by omega)] at accepted
    cases accepted
  rw [(pmsjTpakInspect_readable rooms charmap (some save) readable).2, Option.bind_some,
    readTrainer_isSome_iff rooms charmap long, gameAccepts_iff long]
  unfold unsummed
  omega

end Save

/-! ## Two saves -/

/-- The shortest ROM the inspector reads. -/
def blankRom : Bytes := List.replicate 0x150 0

theorem blankRom_readable : 0x150 ≤ blankRom.length := by
  rw [blankRom, List.length_replicate]

/-- A save whose only byte is a checksum of zeros. -/
def markedSave (place : Nat) : Bytes :=
  List.replicate place 0 ++ 0xFF :: List.replicate (0x7FFF - place) 0

section Marked

variable {place : Nat}

theorem length_markedSave (inside : place < 0x8000) : (markedSave place).length = 0x8000 := by
  simp only [markedSave, List.length_append, List.length_cons, List.length_replicate]
  omega

theorem byteAt_markedSave : byteAt (markedSave place) place = 0xFF := by
  unfold byteAt markedSave
  rw [List.getD_append_right _ _ _ _ (by rw [List.length_replicate]), List.length_replicate,
    Nat.sub_self]
  rfl

theorem byteSum_markedSave {first last : Nat} (apart : last < place ∨ place < first) :
    byteSum (markedSave place) first last = 0 := by
  have zeros : ∀ byte ∈ ((markedSave place).drop first).take (last + 1 - first), byte = 0 := by
    intro byte member
    obtain ⟨i, inTake, rfl⟩ := List.mem_iff_getElem.mp member
    have bound := inTake
    rw [List.length_take] at bound
    rw [List.getElem_take, List.getElem_drop]
    unfold markedSave
    rcases apart with before | behind
    · rw [List.getElem_append_left (by rw [List.length_replicate]; omega),
        List.getElem_replicate]
    · obtain ⟨more, further⟩ := Nat.exists_eq_add_of_lt (Nat.lt_of_lt_of_le behind
        (Nat.le_add_right first i))
      have place' : first + i - place = more + 1 := by omega
      rw [List.getElem_append_right (by rw [List.length_replicate]; omega)]
      simp only [List.length_replicate, place', List.getElem_cons_succ, List.getElem_replicate]
  unfold byteSum
  rw [List.sum_eq_zero_iff_forall_eq_nat]
  intro value member
  obtain ⟨byte, inTake, rfl⟩ := List.mem_map.mp member
  rw [zeros byte inTake]
  rfl

/-- A sum up to the marked byte. -/
theorem byteSum_markedSave_to {first last : Nat} (inside : last + 1 < 0x8000)
    (ordered : first ≤ last + 1) : byteSum (markedSave (last + 1)) first (last + 1) = 255 := by
  have bound : last + 1 < (markedSave (last + 1)).length := by
    rw [length_markedSave inside]
    exact inside
  rw [byteSum_split _ ordered (Nat.le_succ last),
    byteSum_markedSave (Or.inl (Nat.lt_succ_self last)), byteSum_single bound, byteAt_markedSave]
  rfl

end Marked

/-- Rooms of usual sizes. -/
def usualRooms : TpakRooms := ⟨63, 31, 7⟩

/-- With the launcher's checksum, both tests accept an empty save. -/
theorem pmsjTpakInspect_agrees_iff_example :
    ((pmsjTpakInspect usualRooms (fun _ => []) (some blankRom)
        (some (markedSave 0x3523))).trainer.isSome ↔ gameAccepts (markedSave 0x3523) = true) ∧
      gameAccepts (markedSave 0x3523) = true := by
  have length : (markedSave 0x3523).length = 0x8000 := length_markedSave (by decide)
  have summed : byteSum (markedSave 0x3523) 0x2598 0x3523 = 255 :=
    byteSum_markedSave_to (show 0x3522 + 1 < 0x8000 by decide) (by decide)
  have rest : byteSum (markedSave 0x3523) 0x3524 0x3594 = 0 :=
    byteSum_markedSave (Or.inr (by decide))
  have accepted := (pmsjTpakInspect_readable usualRooms (fun _ => [])
    (some (markedSave 0x3523)) blankRom_readable).1
  refine ⟨(pmsjTpakInspect_agrees_iff usualRooms (fun _ => []) accepted length.ge).mpr
    (Or.inl ?_), ?_⟩
  · rw [unsummed, rest]
  · rw [gameAccepts_iff length.ge, summed, rest]

/-- A save whose only byte is the checksum the game compares with. -/
def gameSave : Bytes := markedSave 0x3594

/-- The game accepts this save, the launcher shows no trainer. -/
theorem pmsjTpakInspect_misses_save :
    0x8000 ≤ gameSave.length ∧
      (pmsjTpakInspect usualRooms (fun _ => []) (some blankRom) (some gameSave)).valid = true ∧
      (pmsjTpakInspect usualRooms (fun _ => []) (some blankRom) (some gameSave)).trainer = none ∧
      gameAccepts gameSave = true := by
  have length : gameSave.length = 0x8000 := length_markedSave (by decide)
  have tail : byteSum gameSave 0x3524 0x3594 = 255 :=
    byteSum_markedSave_to (show 0x3593 + 1 < 0x8000 by decide) (by decide)
  have head : byteSum gameSave 0x2598 0x3523 = 0 := byteSum_markedSave (Or.inl (by decide))
  obtain ⟨valid, trainer⟩ :=
    pmsjTpakInspect_readable usualRooms (fun _ => []) (some gameSave) blankRom_readable
  refine ⟨length.ge, valid, ?_, ?_⟩
  · rw [trainer, Option.bind_some, ← Option.not_isSome_iff_eq_none,
      readTrainer_isSome_iff _ _ length.ge, head]
    decide
  · rw [gameAccepts_iff length.ge, head, tail]

end StadiumRecomp.Launcher
