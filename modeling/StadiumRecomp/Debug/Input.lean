import Mathlib.Data.List.Induction
import StadiumRecomp.Debug.Fields

/-!
Contract: the scripted controller of `src/main/debug_server.cpp`.

Owns: `button_bit`, the commands of `handle_line` that touch the override, and what the
override is after any sequence of lines.

Does not own: the other commands, which touch none of it, and who reads the override.
-/

set_option autoImplicit false

namespace StadiumRecomp.Debug

open StadiumRecomp.Lib
open StadiumRecomp.Lib.CString (bytesOf)

/-! ## Buttons -/

inductive Button where
  | a | b | z | start
  | dUp | dDown | dLeft | dRight
  | l | r
  | cUp | cDown | cLeft | cRight
deriving DecidableEq, Repr

namespace Button

/-- The rows of `button_bit`, in its order. -/
def all : List Button :=
  [a, b, z, start, dUp, dDown, dLeft, dRight, l, r, cUp, cDown, cLeft, cRight]

def index : Button → Nat
  | a => 15
  | b => 14
  | z => 13
  | start => 12
  | dUp => 11
  | dDown => 10
  | dLeft => 9
  | dRight => 8
  | l => 5
  | r => 4
  | cUp => 3
  | cDown => 2
  | cLeft => 1
  | cRight => 0

def bit : Button → BitVec 16
  | a => 0x8000
  | b => 0x4000
  | z => 0x2000
  | start => 0x1000
  | dUp => 0x0800
  | dDown => 0x0400
  | dLeft => 0x0200
  | dRight => 0x0100
  | l => 0x0020
  | r => 0x0010
  | cUp => 0x0008
  | cDown => 0x0004
  | cLeft => 0x0002
  | cRight => 0x0001

/-- The names of a button, in lower case. -/
def aliases : Button → List Bytes
  | a => [bytesOf "a"]
  | b => [bytesOf "b"]
  | z => [bytesOf "z"]
  | start => [bytesOf "start"]
  | dUp => [bytesOf "du", bytesOf "d_up", bytesOf "d-up", bytesOf "up"]
  | dDown => [bytesOf "dd", bytesOf "d_down", bytesOf "d-down", bytesOf "down"]
  | dLeft => [bytesOf "dl", bytesOf "d_left", bytesOf "d-left", bytesOf "left"]
  | dRight => [bytesOf "dr", bytesOf "d_right", bytesOf "d-right", bytesOf "right"]
  | l => [bytesOf "l"]
  | r => [bytesOf "r"]
  | cUp => [bytesOf "cu", bytesOf "c_up", bytesOf "c-up"]
  | cDown => [bytesOf "cd", bytesOf "c_down", bytesOf "c-down"]
  | cLeft => [bytesOf "cl", bytesOf "c_left", bytesOf "c-left"]
  | cRight => [bytesOf "cr", bytesOf "c_right", bytesOf "c-right"]

/-- The name is one of the button's, in any case. -/
def Named (button : Button) (name : Bytes) : Prop :=
  name.map CString.toLower ∈ button.aliases

instance (button : Button) (name : Bytes) : Decidable (Named button name) :=
  inferInstanceAs (Decidable (_ ∈ _))

theorem mem_all (button : Button) : button ∈ all := by cases button <;> decide

theorem bit_eq_twoPow (button : Button) : button.bit = BitVec.twoPow 16 button.index := by
  cases button <;> decide

theorem index_lt (button : Button) : button.index < 16 := by cases button <;> decide

theorem index_inj {left right : Button} (same : left.index = right.index) : left = right := by
  cases left <;> cases right <;> first | rfl | exact absurd same (by decide)

end Button

/-- The button that a name names. -/
def buttonOf (name : Bytes) : Option Button := Button.all.find? fun button => button.Named name

/-- `button_bit`. -/
def buttonBit (name : Bytes) : BitVec 16 :=
  match buttonOf name with
  | some button => button.bit
  | none => 0

/-! ## The commands -/

/-- The override as the globals hold it. -/
structure Override where
  active : Bool
  buttons : BitVec 16
  stickX : Int
  stickY : Int
deriving DecidableEq, Repr

/-- The globals before the first command. -/
def Override.initial : Override := ⟨false, 0, 0, 0⟩

/-- `std::clamp(value, -80, 80)`. -/
def clampStick (value : Int) : Int := max (-80) (min 80 value)

def okReply : Bytes := bytesOf "\x7b\"ok\":true\x7d"
def emptyReply : Bytes := bytesOf "\x7b\"ok\":false,\"error\":\"empty command\"\x7d"
def unknownButtonReply : Bytes := bytesOf "\x7b\"ok\":false,\"error\":\"unknown button\"\x7d"

section Server

variable {σ : Type}

/-- `handle_line`, no response where the process exits. `others` answers the commands that leave
the override alone, an unknown one included, out of the rest of the process. -/
def handleLine (others : Override → Bytes → σ → σ × Bytes) (server : Override × σ)
    (rawLine : Bytes) : Option ((Override × σ) × Bytes) :=
  let (state, rest) := server
  let line := trim rawLine
  let cmd := getCmd line
  if cmd = [] then some ((state, rest), emptyReply)
  else if cmd = bytesOf "set_button" then
    let name := getStr line (bytesOf "name")
    let down := getBool line (bytesOf "down") true
    let bit := buttonBit name
    if bit = 0 then some ((state, rest), unknownButtonReply)
    else
      let cur := state.buttons
      let cur := if down then cur ||| bit else cur &&& ~~~bit
      some (({ state with active := true, buttons := cur }, rest), okReply)
  else if cmd = bytesOf "set_stick" then
    let x := clampStick (getInt line (bytesOf "x") 0)
    let y := clampStick (getInt line (bytesOf "y") 0)
    some (({ state with active := true, stickX := x, stickY := y }, rest), okReply)
  else if cmd = bytesOf "clear_input" then some ((⟨false, 0, 0, 0⟩, rest), okReply)
  else if cmd = bytesOf "quit" then none
  else
    let (rest, reply) := others state line rest
    some ((state, rest), reply)

/-- A sequence of lines from the first command on; none when one of them exits. -/
def execute (others : Override → Bytes → σ → σ × Bytes) (rest : σ) (lines : List Bytes) :
    Option (Override × σ) :=
  lines.foldlM (fun server line => (handleLine others server line).map Prod.fst)
    (.initial, rest)

end Server

/-- The line asks the process to exit. -/
def Exits (rawLine : Bytes) : Prop := getCmd (trim rawLine) = bytesOf "quit"

instance (rawLine : Bytes) : Decidable (Exits rawLine) := inferInstanceAs (Decidable (_ = _))

/-! ## Histories -/

/-- A line as a command. -/
inductive Command where
  | setButton (name : Bytes) (down : Bool)
  | setStick (x y : Int)
  | clearInput
  | unrelated
deriving DecidableEq, Repr

def commandOf (rawLine : Bytes) : Command :=
  let line := trim rawLine
  let cmd := getCmd line
  if cmd = bytesOf "set_button" then
    .setButton (getStr line (bytesOf "name")) (getBool line (bytesOf "down") true)
  else if cmd = bytesOf "set_stick" then
    .setStick (getInt line (bytesOf "x") 0) (getInt line (bytesOf "y") 0)
  else if cmd = bytesOf "clear_input" then .clearInput
  else .unrelated

/-- A `set_stick`, or a `set_button` that names a button. -/
def Command.Sets : Command → Prop
  | .setButton name _ => ∃ button : Button, button.Named name
  | .setStick _ _ => True
  | _ => False

/-- What the command asks of a button. -/
def Command.asks (button : Button) : Command → Option Bool
  | .setButton name down => if button.Named name then some down else none
  | _ => none

/-- Where the command puts the stick. -/
def Command.stick : Command → Option (Int × Int)
  | .setStick x y => some (clampStick x, clampStick y)
  | _ => none

/-- The commands since the last `clear_input`, both lists newest first. -/
def sinceClear (history : List Command) : List Command :=
  history.takeWhile fun command => command ≠ .clearInput

/-- The override that a history leaves, newest command first. -/
structure Reflects (history : List Command) (state : Override) : Prop where
  button : ∀ button : Button, state.buttons &&& button.bit ≠ 0 ↔
    (sinceClear history).findSome? (Command.asks button) = some true
  active : state.active = true ↔ ∃ command ∈ sinceClear history, command.Sets
  stick : (state.stickX, state.stickY) =
    ((sinceClear history).findSome? Command.stick).getD (0, 0)

/-! ## Names and bits -/

/-- No name is of two buttons. -/
theorem Button.named_inj {left right : Button} {name : Bytes} (leftNamed : left.Named name)
    (rightNamed : right.Named name) : left = right := by
  have apart : ∀ button ∈ Button.all, ∀ other ∈ Button.all, button ≠ other →
      ∀ lowered ∈ button.aliases, lowered ∉ other.aliases := by decide +kernel
  by_contra different
  exact apart left left.mem_all right right.mem_all different _ leftNamed rightNamed

theorem buttonOf_eq_some_iff {name : Bytes} {button : Button} :
    buttonOf name = some button ↔ button.Named name := by
  constructor
  · intro found
    simpa using List.find?_some found
  · intro named
    cases found : buttonOf name with
    | none =>
        have absent := List.find?_eq_none.mp found button button.mem_all
        exact absurd (decide_eq_true named) absent
    | some other =>
        have otherNamed : other.Named name := by simpa using List.find?_some found
        rw [Button.named_inj named otherNamed]

theorem Button.bit_ne_zero (button : Button) : button.bit ≠ 0 := by cases button <;> decide

theorem and_bit_ne_zero_iff (buttons : BitVec 16) (button : Button) :
    buttons &&& button.bit ≠ 0 ↔ buttons.getLsbD button.index = true := by
  have nonzero := button.bit_ne_zero
  rw [button.bit_eq_twoPow] at nonzero ⊢
  rw [BitVec.and_twoPow]
  split
  next held => exact ⟨fun _ => held, fun _ => nonzero⟩
  next clear => exact ⟨fun bad => absurd rfl bad, fun held => absurd held clear⟩

/-- Setting or clearing a button's bit leaves those of the others. -/
theorem and_bit_update (buttons : BitVec 16) (button other : Button) (down : Bool) :
    (if down then buttons ||| button.bit else buttons &&& ~~~button.bit) &&& other.bit ≠ 0 ↔
      if button = other then down = true else buttons &&& other.bit ≠ 0 := by
  have inside := other.index_lt
  rw [and_bit_ne_zero_iff, and_bit_ne_zero_iff, button.bit_eq_twoPow]
  by_cases same : button = other
  · subst same
    rw [if_pos rfl]
    cases down
    · rw [if_neg Bool.false_ne_true, BitVec.getLsbD_and, BitVec.getLsbD_not,
        BitVec.getLsbD_twoPow]
      simp [inside]
    · rw [if_pos rfl, BitVec.getLsbD_or, BitVec.getLsbD_twoPow]
      simp [inside]
  · have apart : button.index ≠ other.index := fun index => same (Button.index_inj index)
    rw [if_neg same]
    cases down
    · rw [if_neg Bool.false_ne_true, BitVec.getLsbD_and, BitVec.getLsbD_not,
        BitVec.getLsbD_twoPow]
      simp [inside, apart]
    · rw [if_pos rfl, BitVec.getLsbD_or, BitVec.getLsbD_twoPow]
      simp [apart]

/-! ## One line -/

/-- What a command does to the override. -/
def Command.apply (state : Override) : Command → Override
  | .setButton name down =>
      match buttonOf name with
      | none => state
      | some button => {
          state with
          active := true
          buttons := if down then state.buttons ||| button.bit
            else state.buttons &&& ~~~button.bit }
  | .setStick x y => { state with active := true, stickX := clampStick x, stickY := clampStick y }
  | .clearInput => .initial
  | .unrelated => state

section Apply

variable {state : Override} {name : Bytes} {down : Bool}

theorem Command.apply_unknown (unknown : buttonOf name = none) :
    (Command.setButton name down).apply state = state := by
  unfold Command.apply
  simp only [unknown]

theorem Command.apply_known {button : Button} (named : buttonOf name = some button) :
    (Command.setButton name down).apply state = {
      state with
      active := true
      buttons := if down then state.buttons ||| button.bit
        else state.buttons &&& ~~~button.bit } := by
  unfold Command.apply
  simp only [named]

end Apply

section Line

variable {σ : Type} {others : Override → Bytes → σ → σ × Bytes} {server next : Override × σ}
  {rawLine reply : Bytes}

theorem handleLine_eq_none_iff : handleLine others server rawLine = none ↔ Exits rawLine := by
  obtain ⟨state, rest⟩ := server
  unfold handleLine Exits
  simp only
  generalize getCmd (trim rawLine) = cmd
  constructor
  · intro exits
    by_contra stays
    rw [if_neg stays] at exits
    split_ifs at exits
  · intro quit
    subst quit
    rw [if_neg (by decide), if_neg (by decide), if_neg (by decide), if_neg (by decide), if_pos rfl]

/-- A line that returns has done what its command does. -/
theorem handleLine_apply (handled : handleLine others server rawLine = some (next, reply)) :
    next.1 = (commandOf rawLine).apply server.1 := by
  obtain ⟨state, rest⟩ := server
  unfold handleLine at handled
  unfold commandOf
  simp only at handled ⊢
  generalize getCmd (trim rawLine) = cmd at handled ⊢
  by_cases empty : cmd = []
  · rw [if_pos empty] at handled
    subst empty
    rw [if_neg (by decide), if_neg (by decide), if_neg (by decide)]
    cases handled
    rfl
  rw [if_neg empty] at handled
  by_cases setButton : cmd = bytesOf "set_button"
  · rw [if_pos setButton] at handled ⊢
    unfold buttonBit at handled
    cases found : buttonOf (getStr (trim rawLine) (bytesOf "name")) with
    | none =>
        rw [Command.apply_unknown found]
        simp only [found] at handled
        cases handled
        rfl
    | some button =>
        rw [Command.apply_known found]
        simp only [found, if_neg button.bit_ne_zero] at handled
        cases handled
        rfl
  rw [if_neg setButton] at handled ⊢
  by_cases setStick : cmd = bytesOf "set_stick"
  · rw [if_pos setStick] at handled ⊢
    cases handled
    rfl
  rw [if_neg setStick] at handled ⊢
  by_cases clearInput : cmd = bytesOf "clear_input"
  · rw [if_pos clearInput] at handled ⊢
    cases handled
    rfl
  rw [if_neg clearInput] at handled ⊢
  split at handled
  · cases handled
  · cases handled
    rfl

end Line

/-- A command that sets nothing and clears nothing leaves the override alone. -/
theorem Command.apply_eq_self {command : Command} (state : Override) (rejected : ¬ command.Sets)
    (keeps : command ≠ .clearInput) : command.apply state = state := by
  cases command with
  | setButton name down =>
      cases found : buttonOf name with
      | none => exact Command.apply_unknown found
      | some button => exact absurd ⟨button, buttonOf_eq_some_iff.mp found⟩ rejected
  | setStick x y => exact absurd trivial rejected
  | clearInput => exact absurd rfl keeps
  | unrelated => rfl

theorem sinceClear_cons {command : Command} (history : List Command)
    (keeps : command ≠ .clearInput) :
    sinceClear (command :: history) = command :: sinceClear history :=
  List.takeWhile_cons_of_pos (decide_eq_true keeps)

theorem sinceClear_clear (history : List Command) :
    sinceClear (.clearInput :: history) = [] :=
  List.takeWhile_cons_of_neg (by decide)

/-- A setting has happened once the newest command is one, or it had before. -/
theorem exists_sets_cons {command : Command} {history : List Command} :
    (∃ entry ∈ command :: history, entry.Sets) ↔
      command.Sets ∨ ∃ entry ∈ history, entry.Sets := by
  simp only [List.mem_cons, exists_eq_or_imp]

section Histories

variable {history : List Command} {state : Override}

/-- With nothing since the last `clear_input` the override is off. -/
theorem reflects_initial (nothing : sinceClear history = []) : Reflects history .initial := by
  constructor
  · intro button
    rw [nothing, show Override.initial.buttons &&& button.bit = 0 from BitVec.zero_and]
    exact ⟨fun set => absurd rfl set, fun none => by cases none⟩
  · rw [nothing]
    constructor
    · intro active
      cases active
    · intro ⟨command, member, _⟩
      cases member
  · rw [nothing]
    rfl

/-- A command without any say leaves the override as it was. -/
theorem Reflects.skip (reflects : Reflects history state) {command : Command}
    (keeps : command ≠ .clearInput) (silent : ∀ button, command.asks button = none)
    (still : command.stick = none) (rejected : ¬ command.Sets) :
    Reflects (command :: history) state := by
  have kept := sinceClear_cons history keeps
  constructor
  · intro button
    rw [kept, List.findSome?_cons, silent button]
    exact reflects.button button
  · rw [kept, exists_sets_cons, reflects.active]
    exact ⟨Or.inr, fun either => either.resolve_left rejected⟩
  · rw [kept, List.findSome?_cons, still]
    exact reflects.stick

/-- The command for a button decides that button and no other. -/
theorem Reflects.setButton (reflects : Reflects history state) {name : Bytes} {target : Button}
    (named : target.Named name) (down : Bool) :
    Reflects (.setButton name down :: history) {
      state with
      active := true
      buttons := if down then state.buttons ||| target.bit
        else state.buttons &&& ~~~target.bit } := by
  have kept := @sinceClear_cons (.setButton name down) history (by intro clear; cases clear)
  constructor
  · intro button
    rw [kept, List.findSome?_cons, and_bit_update]
    by_cases same : target = button
    · subst same
      simp only [Command.asks, if_pos named, if_true, Option.some.injEq]
    · have unnamed : ¬ button.Named name := fun also => same (Button.named_inj named also)
      simp only [Command.asks, if_neg unnamed, if_neg same]
      exact reflects.button button
  · rw [kept, exists_sets_cons]
    exact ⟨fun _ => Or.inl ⟨target, named⟩, fun _ => rfl⟩
  · rw [kept]
    exact reflects.stick

theorem Reflects.setStick (reflects : Reflects history state) (x y : Int) :
    Reflects (.setStick x y :: history)
      { state with active := true, stickX := clampStick x, stickY := clampStick y } := by
  have kept := @sinceClear_cons (.setStick x y) history (by intro clear; cases clear)
  constructor
  · intro button
    rw [kept]
    exact reflects.button button
  · rw [kept, exists_sets_cons]
    exact ⟨fun _ => Or.inl trivial, fun _ => rfl⟩
  · rw [kept]
    rfl

/-- One more command on a history. -/
theorem Reflects.apply (reflects : Reflects history state) (command : Command) :
    Reflects (command :: history) (command.apply state) := by
  cases command with
  | setButton name down =>
      cases found : buttonOf name with
      | none =>
          have unnamed (button : Button) : ¬ button.Named name := by
            intro named
            rw [buttonOf_eq_some_iff.mpr named] at found
            cases found
          rw [Command.apply_unknown found]
          apply reflects.skip (by intro clear; cases clear)
          · intro button
            exact if_neg (unnamed button)
          · rfl
          · intro ⟨button, named⟩
            exact unnamed button named
      | some target =>
          rw [Command.apply_known found]
          exact reflects.setButton (buttonOf_eq_some_iff.mp found) down
  | setStick x y => exact reflects.setStick x y
  | clearInput => exact reflects_initial (sinceClear_clear history)
  | unrelated => exact reflects.skip (by decide) (fun _ => rfl) rfl id

end Histories

/-! ## Runs -/

section Runs

variable {σ : Type} {others : Override → Bytes → σ → σ × Bytes}

theorem execute_append (others : Override → Bytes → σ → σ × Bytes) (rest : σ)
    (earlier : List Bytes) (line : Bytes) :
    execute others rest (earlier ++ [line]) =
      (execute others rest earlier).bind fun server =>
        (handleLine others server line).map Prod.fst := by
  unfold execute
  rw [List.foldlM_append]
  simp only [List.foldlM_cons, List.foldlM_nil, Option.bind_eq_bind, Option.pure_def,
    Option.bind_fun_some]

/-- After any sequence of lines without an exit the override is what the commands since the last
`clear_input` make it, and a line that sets nothing and clears nothing leaves it alone. -/
theorem execute_reflects (others : Override → Bytes → σ → σ × Bytes) (rest : σ)
    (lines : List Bytes) (stays : ∀ line ∈ lines, ¬ Exits line) :
    ∃ state after, execute others rest lines = some (state, after) ∧
      Reflects (lines.map commandOf).reverse state ∧
      ∀ (rawLine : Bytes) (next : Override × σ) (reply : Bytes),
        handleLine others (state, after) rawLine = some (next, reply) →
        ¬ (commandOf rawLine).Sets → commandOf rawLine ≠ .clearInput → next.1 = state := by
  have reaches : ∃ state after, execute others rest lines = some (state, after) ∧
      Reflects (lines.map commandOf).reverse state := by
    induction lines using List.reverseRecOn with
    | nil => exact ⟨.initial, rest, rfl, reflects_initial rfl⟩
    | append_singleton earlier line inductionHypothesis =>
        obtain ⟨state, after, reached, reflects⟩ := inductionHypothesis fun entry member =>
          stays entry (List.mem_append_left _ member)
        have returns : handleLine others (state, after) line ≠ none := fun exits =>
          stays line (List.mem_append_right _ List.mem_cons_self)
            (handleLine_eq_none_iff.mp exits)
        obtain ⟨⟨next, reply⟩, answered⟩ := Option.ne_none_iff_exists'.mp returns
        refine ⟨next.1, next.2, ?_, ?_⟩
        · rw [execute_append, reached, Option.bind_some, answered]
          rfl
        · rw [List.map_append, List.reverse_append, handleLine_apply answered]
          exact reflects.apply (commandOf line)
  obtain ⟨state, after, reached, reflects⟩ := reaches
  refine ⟨state, after, reached, reflects, ?_⟩
  intro rawLine next reply handled rejected keeps
  rw [handleLine_apply handled]
  exact Command.apply_eq_self state rejected keeps

/-- A stick beyond its range, a button under an alias, and the same button let go. -/
def heldScript : List Bytes := [
  bytesOf "\x7b\"cmd\":\"set_button\",\"name\":\"D-Up\",\"down\":true\x7d",
  bytesOf "\x7b\"cmd\":\"set_stick\",\"x\":-200,\"y\":15\x7d",
  bytesOf "\x7b\"cmd\":\"set_button\",\"name\":\"A\"\x7d",
  bytesOf " \x7b\"cmd\":\"set_button\",\"name\":\"up\",\"down\":0\x7d\r"]

theorem execute_reflects_heldScript :
    execute (fun _ _ _ => ((), [])) () heldScript = some (⟨true, 0x8000, -80, 15⟩, ()) ∧
      Reflects (heldScript.map commandOf).reverse ⟨true, 0x8000, -80, 15⟩ := by
  have executed : execute (fun _ _ _ => ((), [])) () heldScript =
      some (⟨true, 0x8000, -80, 15⟩, ()) := by decide +kernel
  obtain ⟨state, after, reached, reflects, _⟩ :=
    execute_reflects (fun _ _ _ => ((), [])) () heldScript (by decide +kernel)
  rw [executed] at reached
  cases reached
  exact ⟨executed, reflects⟩

end Runs

end StadiumRecomp.Debug
