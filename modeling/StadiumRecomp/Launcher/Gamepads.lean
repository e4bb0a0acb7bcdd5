import Mathlib.Data.List.Nodup
import Mathlib.Order.Fin.Basic
import StadiumRecomp.Launcher.TransferPak

/-!
Contract: which game controller each port of `launcher_cfg.cpp` gets.

Owns: `nth_gamepad_instance` over the list of joysticks, and that `port_assignment` hands the
controllers out in port order.

Does not own: the enumeration of the joysticks, which SDL does, and what the game reads from a
controller.
-/

set_option autoImplicit false

namespace StadiumRecomp.Launcher

open StadiumRecomp.Lib
open StadiumRecomp.Lib.CString

/-! ## Joysticks -/

/-- A connected joystick as SDL reports it. The id of a connected device is not negative. -/
structure Joystick where
  isGameController : Bool
  instanceId : Nat
deriving DecidableEq, Repr

/-- The joysticks in device order. -/
structure Joysticks where
  devices : List Joystick
  distinct : (devices.map Joystick.instanceId).Nodup

/-- The loop of `nth_gamepad_instance` from a device on. -/
def searchGamepad (k seen : Int) : List Joystick → Int
  | [] => -1
  | device :: rest =>
      if device.isGameController = false then searchGamepad k seen rest
      else if seen = k then device.instanceId
      else searchGamepad k (seen + 1) rest

/-- `nth_gamepad_instance`. -/
def nthGamepadInstance (joysticks : Joysticks) (k : Int) : Int :=
  if k < 0 then -1 else searchGamepad k 0 joysticks.devices

/-- The game controllers in device order. -/
def Joysticks.controllers (joysticks : Joysticks) : List Joystick :=
  joysticks.devices.filter fun device => device.isGameController

/-- `port_assignment` with these joysticks connected. -/
def assignPort (joysticks : Joysticks) (text : Bytes) (port : Fin 4) : PortAssignment :=
  portAssignment (fun ordinal => nthGamepadInstance joysticks ordinal) (some text) port

/-! ## The order -/

/-- The file gives the port a device number of at least 2. -/
def WantsGamepad (text : Bytes) (port : Fin 4) : Prop :=
  ∃ value ∈ (readCfgMap text).get? (portKey port (bytesOf "_device")), 2 ≤ atoi value

instance (text : Bytes) (port : Fin 4) : Decidable (WantsGamepad text port) :=
  inferInstanceAs (Decidable (∃ value ∈ _, _))

/-- The ports that want a gamepad, in ascending order. -/
def gamepadPorts (text : Bytes) : List (Fin 4) :=
  (List.finRange 4).filter fun port => WantsGamepad text port

/-- Every port that wants a gamepad has the controller of its rank, and nobody else has one. -/
structure InPortOrder (joysticks : Joysticks) (text : Bytes) : Prop where
  kind : ∀ port, (assignPort joysticks text port).kind = .gamepad ↔ port ∈ gamepadPorts text
  found : ∀ (rank : Nat) (port : Fin 4) (device : Joystick),
    (gamepadPorts text)[rank]? = some port → joysticks.controllers[rank]? = some device →
      (assignPort joysticks text port).gamepadInstance = device.instanceId
  missing : ∀ (rank : Nat) (port : Fin 4), (gamepadPorts text)[rank]? = some port →
    ((assignPort joysticks text port).gamepadInstance = -1 ↔
      joysticks.controllers.length < rank + 1)
  other : ∀ port, port ∉ gamepadPorts text →
    (assignPort joysticks text port).gamepadInstance = -1
  apart : ∀ left right, left ≠ right →
    (assignPort joysticks text left).gamepadInstance =
      (assignPort joysticks text right).gamepadInstance →
        (assignPort joysticks text left).gamepadInstance = -1

/-! ## The two counts -/

/-- The id that a search ends with. -/
def idOf : Option Joystick → Int
  | some device => device.instanceId
  | none => -1

theorem idOf_eq_neg_one_iff {device : Option Joystick} : idOf device = -1 ↔ device = none := by
  cases device with
  | none => exact ⟨fun _ => rfl, fun _ => rfl⟩
  | some device =>
      constructor
      · intro negative
        have positive : (0 : Int) ≤ device.instanceId := Int.natCast_nonneg _
        rw [show idOf (some device) = (device.instanceId : Int) from rfl] at negative
        omega
      · intro absurdity
        cases absurdity

theorem searchGamepad_eq (rank : Nat) (seen : Int) (devices : List Joystick) :
    searchGamepad (seen + rank) seen devices =
      idOf (devices.filter fun device => device.isGameController)[rank]? := by
  induction devices generalizing rank seen with
  | nil => rfl
  | cons device rest inductionHypothesis =>
      rw [searchGamepad]
      cases controller : device.isGameController with
      | false =>
          rw [if_pos rfl, List.filter_cons_of_neg (by simp [controller])]
          exact inductionHypothesis rank seen
      | true =>
          rw [if_neg (by decide), List.filter_cons_of_pos (by simp [controller])]
          cases rank with
          | zero =>
              rw [if_pos (by omega)]
              rfl
          | succ rank =>
              rw [if_neg (by omega), List.getElem?_cons_succ, ← inductionHypothesis]
              congr 1
              omega

theorem nthGamepadInstance_eq (joysticks : Joysticks) (rank : Nat) :
    nthGamepadInstance joysticks rank = idOf joysticks.controllers[rank]? := by
  unfold nthGamepadInstance Joysticks.controllers
  rw [if_neg (by omega), ← searchGamepad_eq rank 0, Int.zero_add]

/-- In a sorted list the rank of a kept entry is the number of kept entries below it. -/
theorem length_filter_takeWhile_lt {α : Type} [LinearOrder α] {keep : α → Bool} {rank : Nat}
    {entry : α} {entries : List α} (sorted : entries.Pairwise (· < ·))
    (found : (entries.filter keep)[rank]? = some entry) :
    ((entries.takeWhile (· < entry)).filter keep).length = rank := by
  induction entries generalizing rank with
  | nil => cases found
  | cons head tail inductionHypothesis =>
      obtain ⟨headBelow, tailSorted⟩ := List.pairwise_cons.mp sorted
      have below {rank : Nat} (inTail : (tail.filter keep)[rank]? = some entry) :
          head < entry :=
        headBelow entry (List.mem_filter.mp (List.mem_of_getElem? inTail)).1
      by_cases kept : keep head = true
      · rw [List.filter_cons_of_pos kept] at found
        cases rank with
        | zero =>
            cases found
            rw [List.takeWhile_cons_of_neg (by simp)]
            rfl
        | succ rank =>
            rw [List.getElem?_cons_succ] at found
            rw [List.takeWhile_cons_of_pos (by simpa using below found),
              List.filter_cons_of_pos kept, List.length_cons,
              inductionHypothesis tailSorted found]
      · rw [List.filter_cons_of_neg kept] at found
        rw [List.takeWhile_cons_of_pos (by simpa using below found),
          List.filter_cons_of_neg kept]
        exact inductionHypothesis tailSorted found

theorem gamepadEntry_iff {text : Bytes} {port : Fin 4} :
    gamepadEntry (readCfgMap text) port = true ↔ WantsGamepad text port := by
  unfold gamepadEntry WantsGamepad
  cases (readCfgMap text).get? (portKey port (bytesOf "_device")) with
  | none => simp only [Option.not_mem_none, false_and, exists_false, Bool.false_eq_true]
  | some value =>
      simp only [Option.mem_some_iff, exists_eq_left', ge_iff_le, decide_eq_true_eq]

/-- The loop over the raw entries counts the ports that want a gamepad. -/
theorem gamepadOrdinal_eq (text : Bytes) (port : Fin 4) :
    gamepadOrdinal (readCfgMap text) port =
      (((List.finRange 4).takeWhile (· < port)).filter fun earlier =>
        WantsGamepad text earlier).length := by
  have counted (ports : List (Fin 4)) (ordinal : Nat) :
      ports.foldl (fun ordinal earlier =>
        if gamepadEntry (readCfgMap text) earlier then ordinal + 1 else ordinal) ordinal =
        ordinal + (ports.filter fun earlier => WantsGamepad text earlier).length := by
    induction ports generalizing ordinal with
    | nil => rfl
    | cons head tail inductionHypothesis =>
        rw [List.foldl_cons, inductionHypothesis, List.filter_cons]
        by_cases wants : WantsGamepad text head
        · rw [if_pos (gamepadEntry_iff.mpr wants), if_pos (decide_eq_true wants),
            List.length_cons]
          omega
        · rw [if_neg fun entry => wants (gamepadEntry_iff.mp entry), if_neg (by simpa using wants)]
  unfold gamepadOrdinal
  rw [counted, Nat.zero_add]

/-- The mapped source is a gamepad exactly where the raw entry is at least 2. -/
theorem loadPlayerSrc_eq_two_iff {text : Bytes} {port : Fin 4} :
    loadPlayerSrc (readCfgMap text) port = 2 ↔ WantsGamepad text port := by
  unfold loadPlayerSrc WantsGamepad
  cases (readCfgMap text).get? (portKey port (bytesOf "_device")) with
  | none =>
      simp only [Option.not_mem_none, false_and, exists_false]
      decide
  | some value =>
      simp only [Option.mem_some_iff, exists_eq_left']
      unfold deviceOf
      simp only
      constructor
      · intro two
        split at two
        · omega
        · split at two
          · omega
          · omega
      · intro atLeast
        rw [if_neg (by omega), if_neg (by omega)]

theorem mem_gamepadPorts {text : Bytes} {port : Fin 4} :
    port ∈ gamepadPorts text ↔ WantsGamepad text port := by
  unfold gamepadPorts
  rw [List.mem_filter, decide_eq_true_eq]
  exact ⟨And.right, fun wants => ⟨List.mem_finRange port, wants⟩⟩

/-! ## Handing out -/

section Assigned

variable {joysticks : Joysticks} {text : Bytes} {port : Fin 4}

theorem assignPort_gamepad (wants : WantsGamepad text port) :
    (assignPort joysticks text port).kind = .gamepad ∧
      (assignPort joysticks text port).gamepadInstance =
        nthGamepadInstance joysticks (gamepadOrdinal (readCfgMap text) port) := by
  have source := loadPlayerSrc_eq_two_iff.mpr wants
  unfold assignPort portAssignment
  simp only [source]
  exact ⟨rfl, rfl⟩

theorem assignPort_other (absent : port ∉ gamepadPorts text) :
    (assignPort joysticks text port).kind ≠ .gamepad ∧
      (assignPort joysticks text port).gamepadInstance = -1 := by
  have source : loadPlayerSrc (readCfgMap text) port ≠ 2 := fun two =>
    absent (mem_gamepadPorts.mpr (loadPlayerSrc_eq_two_iff.mp two))
  unfold assignPort portAssignment
  simp only [if_neg source]
  split
  · constructor
    · intro same
      cases same
    · rfl
  · constructor
    · intro same
      cases same
    · rfl

/-- The port of a rank has the controller of that rank. -/
theorem assignPort_rank {rank : Nat} (ranked : (gamepadPorts text)[rank]? = some port) :
    (assignPort joysticks text port).gamepadInstance = idOf joysticks.controllers[rank]? := by
  have wants := mem_gamepadPorts.mp (List.mem_of_getElem? ranked)
  have ordinal := length_filter_takeWhile_lt (List.pairwise_lt_finRange 4) ranked
  rw [(assignPort_gamepad wants).2, gamepadOrdinal_eq, ordinal]
  exact nthGamepadInstance_eq joysticks rank

end Assigned

theorem Joysticks.controllers_nodup (joysticks : Joysticks) :
    (joysticks.controllers.map Joystick.instanceId).Nodup :=
  joysticks.distinct.sublist (List.filter_sublist.map _)

/-- Two ranks with one id are one rank, unless both are beyond the last controller. -/
theorem idOf_controllers_inj {joysticks : Joysticks} {left right : Nat}
    (same : idOf joysticks.controllers[left]? = idOf joysticks.controllers[right]?)
    (held : idOf joysticks.controllers[left]? ≠ -1) : left = right := by
  cases atLeft : joysticks.controllers[left]? with
  | none => exact absurd (idOf_eq_neg_one_iff.mpr atLeft) held
  | some device =>
      cases atRight : joysticks.controllers[right]? with
      | none =>
          rw [atRight] at same
          exact absurd same held
      | some other =>
          rw [atLeft, atRight] at same
          have sameId : device.instanceId = other.instanceId := Int.ofNat.inj same
          have inside := (List.getElem?_eq_some_iff.mp atLeft).1
          apply (List.getElem?_inj (by simpa using inside) joysticks.controllers_nodup).mp
          rw [List.getElem?_map, List.getElem?_map, atLeft, atRight, Option.map_some,
            Option.map_some, sameId]

/-- Whatever the file says and whatever is connected, the controllers go to the gamepad players
in port order, one each. -/
theorem assignPort_inPortOrder (joysticks : Joysticks) (text : Bytes) :
    InPortOrder joysticks text := by
  constructor
  · intro port
    constructor
    · intro kind
      by_contra absent
      exact (assignPort_other absent).1 kind
    · intro member
      exact (assignPort_gamepad (mem_gamepadPorts.mp member)).1
  · intro rank port device ranked connected
    rw [assignPort_rank ranked, connected]
    rfl
  · intro rank port ranked
    rw [assignPort_rank ranked, idOf_eq_neg_one_iff, List.getElem?_eq_none_iff]
    omega
  · intro port absent
    exact (assignPort_other absent).2
  · intro left right different same
    by_contra held
    have leftIn : left ∈ gamepadPorts text := by
      by_contra absent
      exact held (assignPort_other absent).2
    have rightIn : right ∈ gamepadPorts text := by
      by_contra absent
      rw [same] at held
      exact held (assignPort_other absent).2
    obtain ⟨leftRank, atLeft⟩ := List.mem_iff_getElem?.mp leftIn
    obtain ⟨rightRank, atRight⟩ := List.mem_iff_getElem?.mp rightIn
    rw [assignPort_rank atLeft, assignPort_rank atRight] at same
    rw [assignPort_rank atLeft] at held
    have ranks := idOf_controllers_inj same held
    subst ranks
    rw [atLeft] at atRight
    cases atRight
    exact different rfl

/-- A first and a third player with gamepads, behind a joystick that is none. -/
example : (List.finRange 4).map (fun port =>
    (assignPort ⟨[⟨false, 7⟩, ⟨true, 3⟩, ⟨true, 5⟩], by decide⟩
      (bytesOf "p1_device=2\np2_device=1\np3_device=3\n") port).gamepadInstance) =
    [3, -1, 5, -1] := by decide

end StadiumRecomp.Launcher
