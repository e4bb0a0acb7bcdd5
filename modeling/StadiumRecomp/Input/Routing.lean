import StadiumRecomp.Debug.Input
import StadiumRecomp.Launcher.Gamepads

/-!
Contract: which host device drives which controller port of the game.

Owns: the routing tables of `src/main/main.cpp`, the opening of pads, what a port reads, what a
port is reported to be, which pad a port rumbles, and that these agree and keep the ports apart
over any sequence of calls.

Does not own: SDL, the Transfer Paks, and the arithmetic of floats, which is a parameter.
-/

set_option autoImplicit false

namespace StadiumRecomp.Input

open StadiumRecomp.Lib
open StadiumRecomp.Launcher
open StadiumRecomp.Lib.CString (bytesOf)
open StadiumRecomp.Debug (Override)

/-! ## Host devices -/

/-- What SDL knows at a call: the connected joysticks, whether one of an id can be opened, and
whether one is open. A handle stands for the id of its device. -/
structure Sdl where
  joysticks : Joysticks
  opens : Nat → Bool
  opened : Nat → Bool

/-- The buttons of a pad that are read. -/
inductive PadButton where
  | a | b | leftShoulder | start | dpadUp | dpadDown | dpadLeft | dpadRight | leftStick | rightShoulder
deriving DecidableEq, Repr

structure PadState where
  pressed : PadButton → Bool
  rightX : Int16
  rightY : Int16
  leftX : Int16
  leftY : Int16

/-- The keys that are read. -/
inductive Scancode where
  | x | z | lshift | space | return | kpEnter | up | down | left | right
  | q | e | i | k | j | l | a | d | w | s
deriving DecidableEq, Repr

/-- What a read of a port may look at. -/
structure Reading where
  pad : Nat → PadState
  keyboard : Option (Scancode → Bool)
  override : Override
  hasTransferPak : Int → Bool

/-- The floats of the sticks. -/
structure StickFloats (F : Type) where
  zero : F
  ofInt : Int → F
  div : F → F → F
  mul : F → F → F
  neg : F → F
  isZero : F → Bool

/-! ## Routing -/

/-- `g_pad`, `g_launcher_input_active` and the tables by port. -/
structure Routing where
  launcherActive : Bool
  portKind : Fin 4 → DeviceKind
  portInstance : Fin 4 → Int
  portEnabled : Fin 4 → Bool
  portPad : Fin 4 → Option Nat
  pad : Option Nat

def Routing.initial : Routing :=
  ⟨false, fun _ => .none, fun _ => -1, fun _ => false, fun _ => none, none⟩

/-- `apply_launcher_input_config`. -/
def applyLauncherInputConfig (assignment : Fin 4 → PortAssignment) (routing : Routing) : Routing :=
  { routing with
    portEnabled := fun port => (assignment port).enabled
    portKind := fun port => if (assignment port).enabled then (assignment port).kind else .none
    portInstance := fun port => (assignment port).gamepadInstance
    launcherActive := true }

/-- `open_pad_by_instance`. -/
def openPadByInstance (sdl : Sdl) (wanted : Int) : Option Nat :=
  if 0 ≤ wanted ∧ sdl.opened wanted.toNat then some wanted.toNat
  else
    match sdl.joysticks.devices.find? fun device =>
        device.isGameController && (device.instanceId : Int) == wanted with
    | some device => if sdl.opens device.instanceId then some device.instanceId else none
    | none => none

/-- `ensure_pad_open`. -/
def ensurePadOpen (sdl : Sdl) (routing : Routing) : Routing :=
  match routing.pad with
  | some _ => routing
  | none =>
      { routing with
        pad := (sdl.joysticks.devices.find? fun device =>
          device.isGameController && sdl.opens device.instanceId).map Joystick.instanceId }

/-- `poll_inputs`. -/
def pollInputs (sdl : Sdl) (routing : Routing) : Routing :=
  if routing.launcherActive then
    { routing with
      portPad := fun port =>
        if routing.portKind port = .gamepad ∧ routing.portPad port = none ∧
            0 ≤ routing.portInstance port
        then openPadByInstance sdl (routing.portInstance port) else routing.portPad port }
  else ensurePadOpen sdl routing

/-! ## Reading a port -/

/-- The buttons and the stick of a port. -/
structure PortInput (F : Type) where
  buttons : BitVec 16
  x : F
  y : F

/-- The port of a number in range. -/
def portOf (controllerNum : Int) : Option (Fin 4) :=
  if controllerNum < 0 then none
  else if below : controllerNum.toNat < 4 then some ⟨controllerNum.toNat, below⟩ else none

/-- The device behind a port. -/
inductive Source where
  | absent
  | idle (present : Bool)
  | device (pad : Option Nat) (keyboard primary : Bool)
deriving DecidableEq, Repr

/-- Which device drives a port. -/
def sourceOf (routing : Routing) (hasTransferPak : Int → Bool) (controllerNum : Int) : Source :=
  if routing.launcherActive then
    match portOf controllerNum with
    | none => .absent
    | some port =>
        if routing.portEnabled port = false then .absent
        else
          match routing.portKind port with
          | .gamepad => .device (routing.portPad port) false (controllerNum == 0)
          | .keyboard => .device none true (controllerNum == 0)
          | .none => .idle (hasTransferPak controllerNum)
  else if controllerNum ≠ 0 then .idle (hasTransferPak controllerNum)
  else .device routing.pad true true

/-- The bits of the pressed ones. -/
def bitsOf (pressed : List (Bool × BitVec 16)) : BitVec 16 :=
  pressed.foldl (fun buttons one => if one.1 then buttons ||| one.2 else buttons) 0

def padBits (pad : PadState) : List (Bool × BitVec 16) :=
  [(pad.pressed .a, 0x8000), (pad.pressed .b, 0x4000), (pad.pressed .leftShoulder, 0x2000),
    (pad.pressed .start, 0x1000), (pad.pressed .dpadUp, 0x0800), (pad.pressed .dpadDown, 0x0400),
    (pad.pressed .dpadLeft, 0x0200), (pad.pressed .dpadRight, 0x0100),
    (pad.pressed .leftStick, 0x0020), (pad.pressed .rightShoulder, 0x0010)]

def keyBits (ks : Scancode → Bool) : List (Bool × BitVec 16) :=
  [(ks .x, 0x8000), (ks .z, 0x4000), (ks .lshift || ks .space, 0x2000),
    (ks .return || ks .kpEnter, 0x1000), (ks .up, 0x0800), (ks .down, 0x0400),
    (ks .left, 0x0200), (ks .right, 0x0100), (ks .q, 0x0020), (ks .e, 0x0010),
    (ks .i, 0x0008), (ks .k, 0x0004), (ks .j, 0x0002), (ks .l, 0x0001)]

/-- A key pair as a tilt, the first of them negative. -/
def keyTilt (ks : Scancode → Bool) (negative positive : Scancode) : Int :=
  (if ks negative then -32767 else 0) + if ks positive then 32767 else 0

/-- `deadzone` and `LSTICK_DEADZONE`. -/
def deadzone : Int := 8000

/-- The C buttons that the right stick presses. -/
def stickBits (pad : PadState) : List (Bool × BitVec 16) :=
  [(pad.rightY.toInt < -deadzone, 0x0008), (pad.rightY.toInt > deadzone, 0x0004),
    (pad.rightX.toInt < -deadzone, 0x0002), (pad.rightX.toInt > deadzone, 0x0001)]

section Floats

variable {F : Type} (fl : StickFloats F)

/-- `apply_deadzone`. -/
def applyDeadzone (raw : Int) : F :=
  if raw > deadzone then
    fl.mul (fl.div (fl.ofInt (raw - deadzone)) (fl.ofInt (32767 - deadzone))) (fl.ofInt 80)
  else if raw < -deadzone then
    fl.mul (fl.div (fl.ofInt (raw + deadzone)) (fl.ofInt (32767 - deadzone))) (fl.ofInt 80)
  else fl.zero

/-- A pad at rest, which a port without one reads. -/
def PadState.rest : PadState := ⟨fun _ => false, 0, 0, 0, 0⟩

/-- What a device drives its port with. -/
def deviceInput (reading : Reading) (pad : Option Nat) (keyboard primary : Bool) : PortInput F :=
  let override := if primary && reading.override.active then reading.override else .initial
  let pad := match pad with
    | some handle => reading.pad handle
    | none => .rest
  let ks := if keyboard then reading.keyboard else none
  let keys := match ks with
    | some ks => keyBits ks
    | none => []
  let tilt := fun (raw : Int16) (negative positive : Scancode) => match ks with
    | some ks => max (-32768) (min 32767 (raw.toInt + keyTilt ks negative positive))
    | none => raw.toInt
  let given := fun (value : Int) (device : F) =>
    if fl.isZero (fl.ofInt value) then device else fl.ofInt value
  { buttons := bitsOf (padBits pad ++ keys ++ stickBits pad) ||| override.buttons
    x := given override.stickX (applyDeadzone fl (tilt pad.leftX .a .d))
    y := given override.stickY (fl.neg (applyDeadzone fl (tilt pad.leftY .w .s))) }

/-- `get_n64_input`: whether the port answers, and its input. -/
def getN64Input (routing : Routing) (reading : Reading) (controllerNum : Int) :
    Bool × PortInput F :=
  match sourceOf routing reading.hasTransferPak controllerNum with
  | .absent => (false, ⟨0, fl.zero, fl.zero⟩)
  | .idle present => (present, ⟨0, fl.zero, fl.zero⟩)
  | .device pad keyboard primary => (true, deviceInput fl reading pad keyboard primary)

end Floats

/-- `connected_device_info_t`. -/
structure DeviceInfo where
  controller : Bool
  rumblePak : Bool
deriving DecidableEq, Repr

/-- `get_connected_device_info`, with the routing it leaves. -/
def getConnectedDeviceInfo (sdl : Sdl) (hasTransferPak : Int → Bool) (controllerNum : Int)
    (routing : Routing) : DeviceInfo × Routing :=
  let pak := hasTransferPak controllerNum
  if routing.launcherActive then
    let enabled := match portOf controllerNum with
      | some port => routing.portEnabled port
      | none => false
    let driven := match portOf controllerNum with
      | some port => routing.portKind port ≠ .none
      | none => false
    (⟨enabled && (driven || pak), enabled && pak⟩, routing)
  else
    let routing := if controllerNum = 0 then ensurePadOpen sdl routing else routing
    (⟨controllerNum == 0 || pak, pak⟩, routing)

/-- The pad that `set_rumble` shakes. -/
def rumblePad (routing : Routing) (controllerNum : Int) : Option Nat :=
  if routing.launcherActive then (portOf controllerNum).bind routing.portPad
  else if controllerNum = 0 then routing.pad else none

/-! ## Calls -/

/-- A call into the routing, with what SDL knows at it. -/
inductive Call where
  | poll (sdl : Sdl)
  | query (sdl : Sdl) (hasTransferPak : Int → Bool) (controllerNum : Int)

def Call.run (routing : Routing) : Call → Routing
  | .poll sdl => pollInputs sdl routing
  | .query sdl hasTransferPak controllerNum =>
      (getConnectedDeviceInfo sdl hasTransferPak controllerNum routing).2

/-- The routing after the launcher's configuration has come between some calls. -/
def routed (assignment : Fin 4 → PortAssignment) (before after : List Call) : Routing :=
  after.foldl Call.run
    (applyLauncherInputConfig assignment (before.foldl Call.run .initial))

/-! ## What a port is -/

/-- **Every port is what it is reported to be**: in either mode and for any number, a read answers
exactly if the port is reported as a controller, and a pak only goes with one. -/
theorem getN64Input_present_iff {F : Type} (fl : StickFloats F) (sdl : Sdl) (routing : Routing)
    (reading : Reading) (controllerNum : Int) :
    let info := (getConnectedDeviceInfo sdl reading.hasTransferPak controllerNum routing).1
    (getN64Input fl routing reading controllerNum).1 = info.controller ∧
      (info.rumblePak = true → info.controller = true) := by
  unfold getN64Input sourceOf getConnectedDeviceInfo
  cases active : routing.launcherActive with
  | false =>
      by_cases first : controllerNum = 0
      · subst first
        exact ⟨rfl, fun _ => rfl⟩
      · simp [first]
  | true =>
      cases portOf controllerNum with
      | none => simp
      | some port =>
          cases enabled : routing.portEnabled port with
          | false => simp [enabled]
          | true => cases kind : routing.portKind port <;> simp [enabled, kind]

/-! ## Who owns a pad -/

theorem openPadByInstance_eq {sdl : Sdl} {wanted : Int} {handle : Nat}
    (opened : openPadByInstance sdl wanted = some handle) : (handle : Int) = wanted := by
  unfold openPadByInstance at opened
  split at opened
  next known =>
    obtain rfl := Option.some.inj opened
    exact Int.toNat_of_nonneg known.1
  next =>
    split at opened
    next device found =>
      split at opened
      next =>
        obtain rfl := Option.some.inj opened
        have same := List.find?_some found
        simp only [Bool.and_eq_true, beq_iff_eq] at same
        exact same.2
      next => cases opened
    next => cases opened

/-- The routing before the launcher's configuration. -/
structure Unrouted (routing : Routing) : Prop where
  inactive : routing.launcherActive = false
  pads : ∀ port, routing.portPad port = none

/-- The routing after it: the tables are those of the configuration, and an open pad is the one
its port was given. -/
structure Owned (assignment : Fin 4 → PortAssignment) (routing : Routing) : Prop where
  active : routing.launcherActive = true
  instances : ∀ port, routing.portInstance port = (assignment port).gamepadInstance
  pads : ∀ port handle, routing.portPad port = some handle →
    (handle : Int) = (assignment port).gamepadInstance ∧ routing.portKind port = .gamepad

theorem ensurePadOpen_tables (sdl : Sdl) (routing : Routing) :
    (ensurePadOpen sdl routing).launcherActive = routing.launcherActive ∧
      (ensurePadOpen sdl routing).portPad = routing.portPad := by
  unfold ensurePadOpen
  split <;> exact ⟨rfl, rfl⟩

theorem Unrouted.run {routing : Routing} (unrouted : Unrouted routing) (call : Call) :
    Unrouted (call.run routing) := by
  have opens : ∀ sdl, Unrouted (ensurePadOpen sdl routing) := fun sdl =>
    ⟨(ensurePadOpen_tables sdl routing).1.trans unrouted.inactive,
      (ensurePadOpen_tables sdl routing).2 ▸ unrouted.pads⟩
  cases call with
  | poll sdl =>
      unfold Call.run pollInputs
      rw [unrouted.inactive]
      exact opens sdl
  | query sdl hasTransferPak controllerNum =>
      unfold Call.run getConnectedDeviceInfo
      rw [unrouted.inactive]
      show Unrouted (if controllerNum = 0 then ensurePadOpen sdl routing else routing)
      split
      · exact opens sdl
      · exact unrouted

theorem Owned.run {assignment : Fin 4 → PortAssignment} {routing : Routing}
    (owned : Owned assignment routing) (call : Call) : Owned assignment (call.run routing) := by
  cases call with
  | poll sdl =>
      rw [Call.run, pollInputs, if_pos owned.active]
      refine ⟨owned.active, owned.instances, fun port handle open' => ?_⟩
      simp only at open'
      split at open'
      next closed =>
        exact ⟨(openPadByInstance_eq open').trans (owned.instances port), closed.1⟩
      next => exact owned.pads port handle open'
  | query sdl hasTransferPak controllerNum =>
      unfold Call.run getConnectedDeviceInfo
      rw [owned.active]
      exact owned

/-- What any calls before and after the configuration leave. -/
theorem owned_routed (assignment : Fin 4 → PortAssignment) (before after : List Call) :
    Owned assignment (routed assignment before after) := by
  have unrouted : Unrouted (before.foldl Call.run .initial) := by
    have kept : ∀ routing, Unrouted routing → Unrouted (before.foldl Call.run routing) := by
      induction before with
      | nil => exact fun _ unrouted => unrouted
      | cons call before inductionHypothesis =>
          exact fun routing unrouted => inductionHypothesis _ (unrouted.run call)
    exact kept .initial ⟨rfl, fun _ => rfl⟩
  have applied : Owned assignment
      (applyLauncherInputConfig assignment (before.foldl Call.run .initial)) :=
    { active := rfl
      instances := fun _ => rfl
      pads := fun port handle open' => by
        have closed : (before.foldl Call.run .initial).portPad port = some handle := open'
        rw [unrouted.pads port] at closed
        cases closed }
  unfold routed
  generalize applyLauncherInputConfig assignment (before.foldl Call.run .initial) = routing
    at applied
  induction after generalizing routing with
  | nil => exact applied
  | cons call after inductionHypothesis => exact inductionHypothesis _ (applied.run call)

/-- The launcher gives a controller to one port. -/
theorem assignPort_owner {joysticks : Joysticks} {text : Bytes} {left right : Fin 4} {handle : Nat}
    (leftOwns : (handle : Int) = (assignPort joysticks text left).gamepadInstance)
    (rightOwns : (handle : Int) = (assignPort joysticks text right).gamepadInstance) :
    left = right := by
  have held : ∀ port, (handle : Int) = (assignPort joysticks text port).gamepadInstance →
      ∃ rank : Nat, (gamepadPorts text)[rank]? = some port := by
    intro port owns
    refine List.mem_iff_getElem?.mp ?_
    by_contra absent
    rw [(assignPort_other absent).2] at owns
    omega
  obtain ⟨leftRank, atLeft⟩ := held left leftOwns
  obtain ⟨rightRank, atRight⟩ := held right rightOwns
  rw [assignPort_rank atLeft] at leftOwns
  rw [assignPort_rank atRight] at rightOwns
  obtain rfl := idOf_controllers_inj (leftOwns.symm.trans rightOwns) (by omega)
  exact Option.some.inj (atLeft.symm.trans atRight)

/-- Two readings that differ in one pad at most. -/
structure DifferOnlyAt (handle : Nat) (left right : Reading) : Prop where
  pad : ∀ other, other ≠ handle → left.pad other = right.pad other
  keyboard : left.keyboard = right.keyboard
  override : left.override = right.override
  hasTransferPak : left.hasTransferPak = right.hasTransferPak

theorem deviceInput_congr {F : Type} (fl : StickFloats F) {handle : Nat} {left right : Reading}
    (same : DifferOnlyAt handle left right) {pad : Option Nat} (other : pad ≠ some handle)
    (keyboard primary : Bool) :
    deviceInput fl left pad keyboard primary = deviceInput fl right pad keyboard primary := by
  unfold deviceInput
  rw [same.keyboard, same.override]
  cases pad with
  | none => rfl
  | some open' => simp only [same.pad open' fun here => other (congrArg some here)]

/-- A port whose source is not the pad reads nothing of it. -/
theorem getN64Input_congr {F : Type} (fl : StickFloats F) {handle : Nat} {left right : Reading}
    (same : DifferOnlyAt handle left right) {routing : Routing} (active : routing.launcherActive = true)
    {controllerNum : Int}
    (apart : ∀ port, portOf controllerNum = some port → routing.portPad port ≠ some handle) :
    getN64Input fl routing left controllerNum = getN64Input fl routing right controllerNum := by
  unfold getN64Input sourceOf
  rw [active, same.hasTransferPak]
  cases port : portOf controllerNum with
  | none => rfl
  | some port' =>
      cases enabled : routing.portEnabled port' with
      | false => simp only [enabled, if_true]
      | true =>
          cases kind : routing.portKind port' with
          | none => simp only [enabled, kind]; rfl
          | keyboard =>
              simp only [enabled, kind]
              exact congrArg _ (deviceInput_congr fl same (by simp) _ _)
          | gamepad =>
              simp only [enabled, kind]
              exact congrArg _ (deviceInput_congr fl same (apart port' port) _ _)

/-- **A joystick drives one port**: whatever the launcher wrote, whatever is plugged in or out
between the calls, and whatever calls came before the configuration, for every joystick there is a
port such that no other port number reads or rumbles it; and that port does so only if the
launcher gave it the joystick. -/
theorem joystick_drives_one_port {F : Type} (fl : StickFloats F) (joysticks : Joysticks)
    (text : Bytes) (before after : List Call) (handle : Nat) :
    let routing := routed (assignPort joysticks text) before after
    ∃ owner : Fin 4,
      (routing.portPad owner = some handle →
        (assignPort joysticks text owner).gamepadInstance = handle) ∧
      ∀ controllerNum : Int, portOf controllerNum ≠ some owner →
        rumblePad routing controllerNum ≠ some handle ∧
        ∀ left right : Reading, DifferOnlyAt handle left right →
          getN64Input fl routing left controllerNum = getN64Input fl routing right controllerNum := by
  intro routing
  have owned : Owned (assignPort joysticks text) routing := owned_routed _ before after
  obtain ⟨owner, gave, only⟩ : ∃ owner : Fin 4,
      (routing.portPad owner = some handle →
        (assignPort joysticks text owner).gamepadInstance = handle) ∧
      ∀ port, port ≠ owner → routing.portPad port ≠ some handle := by
    by_cases driven : ∃ port, routing.portPad port = some handle
    · obtain ⟨owner, opened⟩ := driven
      have owns := (owned.pads owner handle opened).1
      exact ⟨owner, fun _ => owns.symm, fun port other opened' =>
        other (assignPort_owner (owned.pads port handle opened').1 owns)⟩
    · have none : ∀ port, routing.portPad port ≠ some handle := fun port opened =>
        driven ⟨port, opened⟩
      exact ⟨0, fun opened => absurd opened (none 0), fun port _ => none port⟩
  refine ⟨owner, gave, fun controllerNum other => ⟨?_, fun left right same => ?_⟩⟩
  · unfold rumblePad
    rw [if_pos owned.active]
    cases port : portOf controllerNum with
    | none => exact fun absurdity => nomatch absurdity
    | some port' => exact only port' fun here => other (port.trans (congrArg some here))
  · exact getN64Input_congr fl same owned.active fun port' port =>
      only port' fun here => other (port.trans (congrArg some here))

/-! ## Which buttons there are -/

/-- The two bits of a controller's status that are no button. -/
def Plain (buttons : BitVec 16) : Prop := buttons &&& 0x00C0 = 0

theorem Plain.zero : Plain 0 := show (0 : BitVec 16) &&& 0x00C0 = 0 by decide

theorem Plain.or {left right : BitVec 16} (plainLeft : Plain left) (plainRight : Plain right) :
    Plain (left ||| right) := by
  unfold Plain at *
  rw [BitVec.and_comm, BitVec.and_or_distrib_left, BitVec.and_comm _ left, BitVec.and_comm _ right,
    plainLeft, plainRight]
  rfl

theorem plain_bitsOf {pressed : List (Bool × BitVec 16)} (plain : ∀ one ∈ pressed, Plain one.2) :
    Plain (bitsOf pressed) := by
  unfold bitsOf
  have kept : ∀ buttons, Plain buttons → Plain (pressed.foldl (fun buttons one =>
      if one.1 then buttons ||| one.2 else buttons) buttons) := by
    induction pressed with
    | nil => exact fun _ plain => plain
    | cons one pressed inductionHypothesis =>
        intro buttons before
        refine inductionHypothesis (fun other member => plain other (.tail one member)) _ ?_
        show Plain (if one.1 then buttons ||| one.2 else buttons)
        split
        · exact before.or (plain one (.head pressed))
        · exact before
  exact kept 0 .zero

theorem plain_padBits (pad : PadState) : ∀ one ∈ padBits pad, Plain one.2 := by
  simp [padBits, Plain]

theorem plain_keyBits (ks : Scancode → Bool) : ∀ one ∈ keyBits ks, Plain one.2 := by
  simp [keyBits, Plain]

theorem plain_stickBits (pad : PadState) : ∀ one ∈ stickBits pad, Plain one.2 := by
  simp [stickBits, Plain]

theorem plain_apply {state : Override} (plain : Plain state.buttons) (command : Debug.Command) :
    Plain (command.apply state).buttons := by
  cases command with
  | setButton name down =>
      cases named : Debug.buttonOf name with
      | none => rwa [Debug.Command.apply_unknown named]
      | some button =>
          rw [Debug.Command.apply_known named]
          cases down with
          | true =>
              refine plain.or ?_
              cases button <;> rfl
          | false =>
              show (state.buttons &&& ~~~button.bit) &&& 0x00C0 = 0
              rw [BitVec.and_assoc, BitVec.and_comm _ 0x00C0, ← BitVec.and_assoc, plain]
              exact BitVec.zero_and
  | setStick x y => exact plain
  | clearInput => exact .zero
  | unrelated => exact plain

/-- What any lines of the debug port leave in the override. -/
theorem plain_execute {σ : Type} {others : Override → Bytes → σ → σ × Bytes} {rest after : σ}
    {lines : List Bytes} {state : Override}
    (executed : Debug.execute others rest lines = some (state, after)) : Plain state.buttons := by
  unfold Debug.execute at executed
  have kept : ∀ server : Override × σ, Plain server.1.buttons →
      lines.foldlM (fun server line => (Debug.handleLine others server line).map Prod.fst) server =
        some (state, after) → Plain state.buttons := by
    clear executed
    induction lines with
    | nil =>
        intro server plain done
        obtain rfl := Option.some.inj done
        exact plain
    | cons line lines inductionHypothesis =>
        intro server plain done
        obtain ⟨next, handled, onward⟩ := Option.bind_eq_some_iff.mp done
        obtain ⟨⟨next', reply⟩, answered, rfl⟩ := Option.map_eq_some_iff.mp handled
        refine inductionHypothesis next' ?_ onward
        rw [Debug.handleLine_apply answered]
        exact plain_apply plain _
  exact kept _ .zero executed

/-- The port of the debug harness is the first one. -/
theorem sourceOf_primary {routing : Routing} {hasTransferPak : Int → Bool} {controllerNum : Int}
    {pad : Option Nat} {keyboard primary : Bool}
    (source : sourceOf routing hasTransferPak controllerNum = .device pad keyboard primary) :
    primary = (controllerNum == 0) := by
  unfold sourceOf at source
  split at source
  · split at source
    · cases source
    · split at source
      · cases source
      · split at source <;> cases source <;> rfl
  · split at source
    · cases source
    next first =>
      cases source
      have zero : controllerNum = 0 := not_not.mp first
      rw [zero]
      rfl

/-- **A script reaches the first port and presses only buttons**: after any lines of the debug
port, whatever is routed and pressed, no port reports a button that a controller does not have,
every other port reads as if no line had come, and a button that the override holds is down on
the first port whenever a device answers there. -/
theorem getN64Input_scripted {F σ : Type} (fl : StickFloats F)
    {others : Override → Bytes → σ → σ × Bytes} {rest after : σ} {lines : List Bytes}
    {state : Override} (executed : Debug.execute others rest lines = some (state, after))
    (routing : Routing) (reading : Reading) (controllerNum : Int) :
    let input := getN64Input fl routing { reading with override := state } controllerNum
    input.2.buttons &&& 0x00C0 = 0 ∧
    (controllerNum ≠ 0 →
      input = getN64Input fl routing { reading with override := .initial } controllerNum) ∧
    (∀ pad keyboard button,
      sourceOf routing reading.hasTransferPak 0 = .device pad keyboard true →
      controllerNum = 0 → state.active = true → state.buttons &&& Debug.Button.bit button ≠ 0 →
      input.1 = true ∧ input.2.buttons &&& Debug.Button.bit button ≠ 0) := by
  have scripted : Plain state.buttons := plain_execute executed
  refine ⟨?_, fun other => ?_, fun pad keyboard button source first active held => ?_⟩
  · show Plain _
    unfold getN64Input
    cases sourceOf routing reading.hasTransferPak controllerNum with
    | absent => exact .zero
    | idle present => exact .zero
    | device pad keyboard primary =>
        have given :
            Plain (if primary && state.active then state else Override.initial).buttons := by
          split
          · exact scripted
          · exact .zero
        refine Plain.or (plain_bitsOf fun one pressed => ?_) given
        rcases List.mem_append.mp pressed with ofPadOrKeys | ofStick
        · rcases List.mem_append.mp ofPadOrKeys with ofPad | ofKeys
          · exact plain_padBits _ one ofPad
          · revert ofKeys
            cases if keyboard then reading.keyboard else none with
            | none => exact fun ofKeys => nomatch ofKeys
            | some ks => exact plain_keyBits ks one
        · exact plain_stickBits _ one ofStick
  · show getN64Input fl routing _ controllerNum = _
    unfold getN64Input
    cases source : sourceOf routing reading.hasTransferPak controllerNum with
    | absent => rfl
    | idle present => rfl
    | device pad keyboard primary =>
        have secondary : primary = false := (sourceOf_primary source).trans (by simpa using other)
        subst secondary
        rfl
  · subst first
    unfold getN64Input
    rw [source]
    refine ⟨rfl, fun cleared => held ?_⟩
    simp only [deviceInput, active, Bool.and_self, if_true] at cleared
    rw [BitVec.and_comm, BitVec.and_or_distrib_left] at cleared
    exact (BitVec.and_comm ..).trans (BitVec.or_eq_zero_iff.mp cleared).2

/-- The floats of a stick at rest are those of the rationals. -/
def restFloats : StickFloats Rat := ⟨0, fun value => value, (· / ·), (· * ·), (- ·), (· == 0)⟩

theorem getN64Input_scripted_start :
    let lines := [bytesOf "\x7b\"cmd\":\"set_button\",\"name\":\"start\"\x7d"]
    let reading : Reading := ⟨fun _ => .rest, none, .initial, fun _ => false⟩
    Debug.execute (fun _ _ _ => ((), [])) () lines = some (⟨true, 0x1000, 0, 0⟩, ()) ∧
    (getN64Input restFloats .initial { reading with override := ⟨true, 0x1000, 0, 0⟩ } 0).2.buttons
      &&& Debug.Button.bit .start ≠ 0 := by
  intro lines reading
  have executed : Debug.execute (fun _ _ _ => ((), [])) () lines =
      some (⟨true, 0x1000, 0, 0⟩, ()) := by decide +kernel
  exact ⟨executed, ((getN64Input_scripted restFloats executed .initial reading 0).2.2 none true
    .start rfl rfl rfl (by decide)).2⟩

end StadiumRecomp.Input
