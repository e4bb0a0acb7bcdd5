import Mathlib.Data.List.Infix
import StadiumRecomp.Debug.Session

/-!
Contract: `tools/pms_drive.py` on the scripted controller.

Owns: the actions of `main` as commands, what the server reads of each, and that no action leaves
a button down or the stick moved, wherever `main` stops.

Does not own: the texts of the actions on the command line, the pauses and the screenshots.
-/

set_option autoImplicit false

namespace StadiumRecomp.Debug

open StadiumRecomp.Lib
open StadiumRecomp.Lib.Search
open StadiumRecomp.Lib.Lockstep
open StadiumRecomp.Lib.CString (bytesOf)

/-! ## The commands of `main` -/

def nameKey : Text := ['n', 'a', 'm', 'e']
def downKey : Text := ['d', 'o', 'w', 'n']

/-- A key word argument of `DebugClient.command`, besides those with a key of its own. -/
def addrKey : Text := ['a', 'd', 'd', 'r']
def tailKey : Text := ['t', 'a', 'i', 'l']

/-- `{"cmd": cmd}` with the key word arguments. -/
def payloadOf (cmd : Text) (fields : List Field)
    (distinct : (['c', 'm', 'd'] :: fields.map Prod.fst).Nodup) : Payload :=
  ⟨(['c', 'm', 'd'], .str cmd) :: fields, distinct⟩

/-- A command without arguments. -/
def plainPayload (cmd : Text) : Payload := payloadOf cmd [] (by decide)

def setButton (name : Text) (down : Bool) : Payload :=
  payloadOf "set_button".toList [(nameKey, .str name), (downKey, .bool down)]
    (show ([['c', 'm', 'd'], nameKey, downKey] : List Text).Nodup by decide)

def setStick (x y : Int) : Payload :=
  payloadOf "set_stick".toList [(['x'], .int x), (['y'], .int y)]
    (show ([['c', 'm', 'd'], ['x'], ['y']] : List Text).Nodup by decide)

/-- An action of the command line. `wait`, `shot`, `captures` and unknown ones send nothing. -/
inductive Action where
  /-- With the number of times that `status` is asked before the target or the deadline. -/
  | boot (polls : Nat)
  | press (name : Text)
  | hold (name : Text)
  | stick (x y : Int)
  | status
  | dumpsec
  | ptrsite
  | probe (addr : Text)
  | jit (addr : Text)
  | evictall
  | mem (addr : Text) (length : Int)
  | tracedump (tag : Text)
  | dumpSched (tail : Text)
  | dumpMesg (mq tail : Text)
  | gbcartDump (tail : Text)
  | silent

/-- The commands of an action, in order. -/
def Action.script : Action → List Payload
  | boot polls => List.replicate polls (plainPayload "status".toList)
  | press name => [setButton name true, setButton name false]
  | hold name => [setButton name true, setButton name false]
  | stick x y => [setStick x y, setStick 0 0]
  | status => [plainPayload "status".toList]
  | dumpsec => [plainPayload "dump_sections".toList]
  | ptrsite => [plainPayload "probe_pointer_site".toList]
  | probe addr => [payloadOf "probe_lookup".toList [(addrKey, .str addr)]
      (show ([['c', 'm', 'd'], addrKey] : List Text).Nodup by decide)]
  | jit addr => [payloadOf "jit_test".toList [(addrKey, .str addr)]
      (show ([['c', 'm', 'd'], addrKey] : List Text).Nodup by decide)]
  | evictall => [plainPayload "jit_evict_all".toList]
  | mem addr length => [payloadOf "read_mem".toList
      [(addrKey, .str addr), (['l', 'e', 'n'], .int length)]
      (show ([['c', 'm', 'd'], addrKey, ['l', 'e', 'n']] : List Text).Nodup by decide)]
  | tracedump tag => [payloadOf "tracedump".toList [(['t', 'a', 'g'], .str tag)]
      (show ([['c', 'm', 'd'], ['t', 'a', 'g']] : List Text).Nodup by decide)]
  | dumpSched tail => [payloadOf "dump_sched".toList [(tailKey, .str tail)]
      (show ([['c', 'm', 'd'], tailKey] : List Text).Nodup by decide)]
  | dumpMesg mq tail => [payloadOf "dump_mesg".toList [(['m', 'q'], .str mq), (tailKey, .str tail)]
      (show ([['c', 'm', 'd'], ['m', 'q'], tailKey] : List Text).Nodup by decide)]
  | gbcartDump tail => [payloadOf "gbcart_dump".toList [(tailKey, .str tail)]
      (show ([['c', 'm', 'd'], tailKey] : List Text).Nodup by decide)]
  | silent => []

/-- The commands of `main`: the `ping` of `connect`, the actions, and `clear_input`. -/
def mainPayloads (actions : List Action) : List Payload :=
  plainPayload "ping".toList :: (actions.flatMap Action.script ++
    [plainPayload "clear_input".toList])

/-- The lines of `main`. -/
def mainLines (actions : List Action) : List Bytes := (mainPayloads actions).map (dumps .pmsDrive)

def Value.isFloat : Value → Bool
  | .float _ => true
  | _ => false

theorem oneLine_of_noFloat {payload : Payload}
    (noFloat : payload.fields.all (fun field => !field.2.isFloat) = true) : payload.OneLine := by
  intro field member text isFloat
  have other := List.all_eq_true.mp noFloat field member
  rw [isFloat] at other
  cases other

/-- No action sends a float. -/
theorem noFloat_script (action : Action) : ∀ payload ∈ action.script,
    payload.fields.all (fun field => !field.2.isFloat) = true := by
  intro payload member
  cases action with
  | boot polls =>
      rw [List.eq_of_mem_replicate member]
      rfl
  | press | hold | stick =>
      rcases List.mem_cons.mp member with rfl | second
      · rfl
      · rw [List.mem_singleton.mp second]
        rfl
  | silent => cases member
  | _ =>
      rw [List.mem_singleton.mp member]
      rfl

/-- Every line of `main` that the server takes whole is a command. -/
theorem isCommand_mainLines {actions : List Action}
    (fits : ∀ line ∈ mainLines actions, line.length ≤ lineLimit) :
    ∀ line ∈ mainLines actions, IsCommand .pmsDrive (request line) := by
  intro line member
  have short := fits line member
  obtain ⟨payload, inMain, rfl⟩ := List.mem_map.mp member
  refine ⟨payload, oneLine_of_noFloat ?_, short, rfl⟩
  rcases List.mem_cons.mp inMain with rfl | behind
  · rfl
  · rcases List.mem_append.mp behind with ofAction | last
    · obtain ⟨action, _, inScript⟩ := List.mem_flatMap.mp ofAction
      exact noFloat_script action payload inScript
    · rw [List.mem_singleton.mp last]
      rfl

/-! ## What the server reads -/

/-- A word of plain symbols that starts with a letter. -/
def isKey (key : Text) : Bool :=
  key.all isPlain && key.head?.any fun symbol => symbol != ':' && symbol != ',' && symbol != '}'

theorem plainKey_of_isKey {key : Text} (isKey : isKey key = true) : PlainKey key := by
  unfold Debug.isKey at isKey
  obtain ⟨plain, first⟩ := Bool.and_eq_true_iff.mp isKey
  cases key with
  | nil => cases first
  | cons symbol key =>
      refine ⟨List.all_eq_true.mp plain, fun other isHead => ?_⟩
      obtain rfl : symbol = other := Option.some.inj isHead
      simpa [and_assoc] using first

theorem getCmd_payloadOf {cmd : Text} (plain : cmd.all isPlain = true) {fields : List Field}
    {distinct : (['c', 'm', 'd'] :: fields.map Prod.fst).Nodup} :
    getCmd (trim (dumps .pmsDrive (payloadOf cmd fields distinct))) = asciiBytes cmd := by
  have cmdIsKey : PlainKey ['c', 'm', 'd'] := plainKey_of_isKey (by decide)
  have split : (payloadOf cmd fields distinct).fields =
      [] ++ (['c', 'm', 'd'], .str cmd) :: fields := rfl
  have read := readsValue_of_found (behindColon_of_field .pmsDrive cmdIsKey split
    fun _ member => absurd member List.not_mem_nil)
  have key : asciiBytes ['c', 'm', 'd'] = cmdKey := by decide
  have opens : (dumps .pmsDrive (payloadOf cmd fields distinct)).head? = some 0x7B := rfl
  rw [key] at read
  rw [trim_dumps, getCmd, if_pos opens]
  exact read.2 (List.all_eq_true.mp plain)

/-- The key stands at the end of a string that mentions it, and nowhere before. -/
theorem exists_front_of_mentions {key text : Text} (plainKey : PlainKey key)
    (mentions : Mentions key text) (behind : Bytes) :
    ∃ front, quoted text = front ++ needle (asciiBytes key) ∧
      StartsNowhere (needle (asciiBytes key)) front (needle (asciiBytes key) ++ behind) := by
  rcases mentions with rfl | ⟨before, rfl⟩
  · refine ⟨[], ?_, trivial⟩
    rw [quoted, escaped_plain plainKey.plain]
    rfl
  · have shape : ∀ before : Text, escaped (before ++ '"' :: key) ++ [0x22] =
        (escaped before ++ [0x5C]) ++ needle (asciiBytes key) := by
      intro before
      have quote : escapeChar '"' = [0x5C, 0x22] := by decide
      have keyText : key.flatMap escapeChar = asciiBytes key := escaped_plain plainKey.plain
      unfold escaped needle
      rw [List.flatMap_append, List.flatMap_cons, quote, keyText]
      simp
    have inside : ∀ before : Text, StartsNowhere (needle (asciiBytes key))
        (escaped before ++ [0x5C]) (needle (asciiBytes key) ++ behind) := by
      intro before
      induction before with
      | nil => exact startsNowhere_of_not_mem (by decide)
      | cons symbol before inductionHypothesis =>
          rw [escaped_cons, List.append_assoc]
          apply StartsNowhere.append _ inductionHypothesis
          by_cases quote : symbol = '"'
          · subst quote
            refine ⟨?_, ?_, trivial⟩
            · intro starts
              exact absurd (List.cons_prefix_cons.mp starts).1 (by decide)
            · intro starts
              have inner := (List.cons_prefix_cons.mp starts).2
              rw [List.nil_append, ← List.append_assoc, ← shape, List.append_assoc] at inner
              have same := eq_of_prefix_escaped plainKey.plain inner
              have length := congrArg List.length same
              rw [List.length_append, List.length_cons] at length
              omega
          · exact startsNowhere_of_not_mem (quote_not_mem_escapeChar quote)
    refine ⟨0x22 :: (escaped before ++ [0x5C]), ?_, ?_, inside before⟩
    · rw [quoted, shape]
      rfl
    · intro starts
      have inner := (List.cons_prefix_cons.mp starts).2
      rw [← List.append_assoc, ← shape, List.append_assoc] at inner
      have same := eq_of_prefix_escaped plainKey.plain inner
      have length := congrArg List.length same
      rw [List.length_append, List.length_cons] at length
      omega

theorem behindColon_of_startsNowhere {key front before rest : Bytes}
    (nowhere : StartsNowhere (needle key) front (needle key ++ (before ++ 0x3A :: rest)))
    (noColon : ∀ byte ∈ before, isColon byte = false) :
    behindColon (front ++ (needle key ++ (before ++ 0x3A :: rest))) key = some rest := by
  unfold behindColon
  rw [indexOf?_of_startsNowhere nowhere]
  show (Text.splitFirst isColon (List.drop _ _) >>= _) = _
  rw [← List.append_assoc, ← List.length_append, List.drop_left,
    Text.splitFirst_append noColon rfl]
  rfl

/-- A name that mentions `down` does not lead `get_bool` astray: behind it stands its field. -/
theorem behindColon_down (name : Text) (down : Bool) :
    behindColon (dumps .pmsDrive (setButton name down)) (asciiBytes downKey) =
      some (valueText (.bool down) ++ [0x7D]) := by
  have downIsKey : PlainKey downKey := plainKey_of_isKey (by decide)
  have inCmd : ¬ MentionedIn downKey (['c', 'm', 'd'], .str "set_button".toList) :=
    not_mentionedIn (by decide) (by decide)
  have inKey : ¬ Mentions downKey nameKey := by
    unfold Mentions
    decide
  by_cases mentions : Mentions downKey name
  · obtain ⟨front, shape, nowhere⟩ := exists_front_of_mentions downIsKey mentions
      ((0x2C :: quoted downKey) ++ 0x3A :: (valueText (.bool down) ++ [0x7D]))
    have noColon : ((0x2C :: quoted downKey).all fun byte => !isColon byte) = true := by decide
    have nameSplit : (setButton name down).fields =
        [(['c', 'm', 'd'], .str "set_button".toList)] ++
          (nameKey, .str name) :: [(downKey, .bool down)] := rfl
    have whole : dumps .pmsDrive (setButton name down) =
        (frontText .pmsDrive [(['c', 'm', 'd'], .str "set_button".toList)] ++
          (quoted nameKey ++ ([0x3A] ++ front))) ++ (needle (asciiBytes downKey) ++
            ((0x2C :: quoted downKey) ++ 0x3A :: (valueText (.bool down) ++ [0x7D]))) := by
      rw [dumps_eq .pmsDrive nameSplit]
      show _ ++ ((quoted nameKey ++ ([0x3A] ++ quoted name)) ++
        ([0x2C] ++ ((quoted downKey ++ ([0x3A] ++ valueText (.bool down))) ++ [0x7D]))) = _
      rw [shape]
      simp only [List.append_assoc, List.cons_append, List.nil_append]
    rw [whole]
    refine behindColon_of_startsNowhere ?_ (by simpa using noColon)
    refine (startsNowhere_frontText .pmsDrive downIsKey ?_).append
      ((startsNowhere_quoted downIsKey ⟨0x3A, _, rfl, .inl rfl⟩ inKey).append
        ((startsNowhere_of_not_mem (by decide)).append nowhere))
    intro field member
    rw [List.mem_singleton.mp member]
    exact inCmd
  · have inName : ¬ MentionedIn downKey (nameKey, .str name) := by
      rintro (key | ⟨text, same, inText⟩)
      · exact inKey key
      · cases same
        exact mentions inText
    have downSplit : (setButton name down).fields =
        [(['c', 'm', 'd'], .str "set_button".toList), (nameKey, .str name)] ++
          (downKey, .bool down) :: [] := rfl
    refine behindColon_of_field .pmsDrive downIsKey downSplit fun field member => ?_
    rcases List.mem_cons.mp member with rfl | isName
    · exact inCmd
    · rw [List.mem_singleton.mp isName]
      exact inName

/-- The server takes a button command as it was meant, whatever the name is. -/
theorem commandOf_setButton (name : Text) (down : Bool) :
    commandOf (dumps .pmsDrive (setButton name down)) = .setButton (firstPart name) down := by
  have nameIsKey : PlainKey nameKey := plainKey_of_isKey (by decide)
  have cmd : getCmd (trim (dumps .pmsDrive (setButton name down))) = bytesOf "set_button" :=
    (getCmd_payloadOf (by decide)).trans (by decide)
  have nameSplit : (setButton name down).fields =
      [(['c', 'm', 'd'], .str "set_button".toList)] ++
        (nameKey, .str name) :: [(downKey, .bool down)] := rfl
  have readName := readsValue_of_found (behindColon_of_field .pmsDrive nameIsKey nameSplit (by
    intro field member
    rw [List.mem_singleton.mp member]
    exact not_mentionedIn (by decide) (by decide)))
  have readDown := readsValue_of_found (show behindColon _ _ = some (Sender.pmsDrive.blanks ++
    (valueText (.bool down) ++ fieldsText .pmsDrive [])) from behindColon_down name down)
  have nameBytes : asciiBytes nameKey = bytesOf "name" := by decide
  have downBytes : asciiBytes downKey = bytesOf "down" := by decide
  rw [nameBytes] at readName
  rw [downBytes] at readDown
  rw [trim_dumps] at cmd
  unfold commandOf
  rw [trim_dumps]
  simp only [cmd, if_true, readName.1, readDown.1]

theorem commandOf_setStick (x y : Int) : commandOf (dumps .pmsDrive (setStick x y)) =
    .setStick (max (-0x80000000) (min 0x7FFFFFFF x)) (max (-0x80000000) (min 0x7FFFFFFF y)) := by
  have xIsKey : PlainKey ['x'] := plainKey_of_isKey (by decide)
  have yIsKey : PlainKey ['y'] := plainKey_of_isKey (by decide)
  have cmd : getCmd (trim (dumps .pmsDrive (setStick x y))) = bytesOf "set_stick" :=
    (getCmd_payloadOf (by decide)).trans (by decide)
  have xSplit : (setStick x y).fields =
      [(['c', 'm', 'd'], .str "set_stick".toList)] ++ (['x'], .int x) :: [(['y'], .int y)] := rfl
  have ySplit : (setStick x y).fields =
      [(['c', 'm', 'd'], .str "set_stick".toList), (['x'], .int x)] ++ (['y'], .int y) :: [] := rfl
  have readX := readsValue_of_found (behindColon_of_field .pmsDrive xIsKey xSplit (by
    intro field member
    rw [List.mem_singleton.mp member]
    exact not_mentionedIn (by decide) (by decide)))
  have readY := readsValue_of_found (behindColon_of_field .pmsDrive yIsKey ySplit (by
    intro field member
    rcases List.mem_cons.mp member with rfl | isX
    · exact not_mentionedIn (by decide) (by decide)
    · rw [List.mem_singleton.mp isX]
      exact not_mentionedIn (show ['x'] ≠ ['y'] by decide)
        (show ¬ '"' :: ['y'] <:+ ['x'] by decide)))
  have xBytes : asciiBytes ['x'] = bytesOf "x" := by decide
  have yBytes : asciiBytes ['y'] = bytesOf "y" := by decide
  have notButton : ¬ bytesOf "set_stick" = bytesOf "set_button" := by decide
  rw [xBytes] at readX
  rw [yBytes] at readY
  rw [trim_dumps] at cmd
  unfold commandOf
  rw [trim_dumps]
  simp only [cmd, if_neg notButton, if_true, readX.1, readY.1]

/-- The commands that touch the override. -/
def overrideCommands : List Bytes :=
  [bytesOf "set_button", bytesOf "set_stick", bytesOf "clear_input"]

/-- The commands that leave it alone. -/
def isUnrelated (cmd : Text) : Bool :=
  cmd.all isPlain && !overrideCommands.contains (asciiBytes cmd)

theorem commandOf_unrelated {cmd : Text} (unrelated : isUnrelated cmd = true)
    {fields : List Field} {distinct : (['c', 'm', 'd'] :: fields.map Prod.fst).Nodup} :
    commandOf (dumps .pmsDrive (payloadOf cmd fields distinct)) = .unrelated := by
  obtain ⟨plain, others⟩ := Bool.and_eq_true_iff.mp unrelated
  have read : getCmd (trim (dumps .pmsDrive (payloadOf cmd fields distinct))) = asciiBytes cmd :=
    getCmd_payloadOf plain
  simp only [overrideCommands, Bool.not_eq_true', List.contains_eq_mem, decide_eq_false_iff_not,
    List.mem_cons, List.not_mem_nil, or_false, not_or] at others
  rw [trim_dumps] at read
  unfold commandOf
  rw [trim_dumps]
  simp only [read, if_neg others.1, if_neg others.2.1, if_neg others.2.2]

theorem commandOf_plain {cmd : Text} (unrelated : isUnrelated cmd = true) :
    commandOf (dumps .pmsDrive (plainPayload cmd)) = .unrelated := commandOf_unrelated unrelated

theorem commandOf_clearInput :
    commandOf (dumps .pmsDrive (plainPayload "clear_input".toList)) = .clearInput := by
  decide +kernel

/-! ## What an action leaves -/

/-- The button is down. -/
def Held (button : Button) (state : Override) : Prop := state.buttons &&& button.bit ≠ 0

/-- The commands of one action: it lets go what it has pressed, and centres the stick. -/
inductive Balanced : List Command → Prop
  | unrelated (count : Nat) : Balanced (List.replicate count .unrelated)
  | button (name : Bytes) : Balanced [.setButton name true, .setButton name false]
  | stick (x y : Int) : Balanced [.setStick x y, .setStick 0 0]

theorem balanced_script (action : Action) :
    Balanced (action.script.map fun payload => commandOf (dumps .pmsDrive payload)) := by
  cases action with
  | boot polls =>
      rw [Action.script, List.map_replicate, commandOf_plain (by decide)]
      exact .unrelated polls
  | press name =>
      show Balanced [commandOf _, commandOf _]
      rw [commandOf_setButton, commandOf_setButton]
      exact .button _
  | hold name =>
      show Balanced [commandOf _, commandOf _]
      rw [commandOf_setButton, commandOf_setButton]
      exact .button _
  | stick x y =>
      show Balanced [commandOf _, commandOf _]
      rw [commandOf_setStick, commandOf_setStick]
      exact .stick _ _
  | silent => exact .unrelated 0
  | status | dumpsec | ptrsite | evictall =>
      show Balanced [commandOf _]
      rw [commandOf_plain (by decide)]
      exact .unrelated 1
  | probe | jit | mem | tracedump | dumpSched | dumpMesg | gbcartDump =>
      show Balanced [commandOf _]
      rw [commandOf_unrelated (by decide)]
      exact .unrelated 1

/-- Nothing is left of the commands in between, but of the last one. -/
structure Leaves (before after : Override) (last : Option Command) : Prop where
  button : ∀ button : Button, Held button after →
    Held button before ∨ ∃ name, last = some (.setButton name true) ∧ button.Named name
  stick : (after.stickX, after.stickY) = (before.stickX, before.stickY) ∨
    (after.stickX, after.stickY) = (0, 0) ∨ ∃ x y, last = some (.setStick x y)

theorem Leaves.refl (state : Override) : Leaves state state none :=
  ⟨fun _ held => .inl held, .inl rfl⟩

/-- What is left of nothing is left of anything. -/
theorem Leaves.weaken {before after : Override} (leaves : Leaves before after none)
    (last : Option Command) : Leaves before after last where
  button := fun button held => (leaves.button button held).imp_right
    fun ⟨_, nothing, _⟩ => by cases nothing
  stick := leaves.stick.imp_right fun centred => .inl (centred.resolve_right
    fun ⟨_, _, nothing⟩ => by cases nothing)

theorem Leaves.trans {before middle after : Override} {last : Option Command}
    (first : Leaves before middle none) (second : Leaves middle after last) :
    Leaves before after last where
  button := fun button held => by
    rcases second.button button held with held | ofLast
    · exact (first.weaken last).button button held
    · exact .inr ofLast
  stick := by
    rcases second.stick with same | moved
    · rw [same]
      exact (first.weaken last).stick
    · exact .inr moved

theorem held_setButton {state : Override} {name : Bytes} {down : Bool} {button : Button}
    (held : Held button ((Command.setButton name down).apply state)) :
    if button.Named name then down = true else Held button state := by
  cases found : buttonOf name with
  | none =>
      have unnamed : ¬ button.Named name := fun named => by
        rw [buttonOf_eq_some_iff.mpr named] at found
        cases found
      rw [Command.apply_unknown found] at held
      rwa [if_neg unnamed]
  | some target =>
      have named := buttonOf_eq_some_iff.mp found
      rw [Command.apply_known found] at held
      have set := (and_bit_update state.buttons target button down).mp held
      by_cases same : target = button
      · rw [if_pos same] at set
        rwa [if_pos (same ▸ named)]
      · rw [if_neg same] at set
        rwa [if_neg fun alsoNamed => same (Button.named_inj named alsoNamed)]

theorem stick_setButton (state : Override) (name : Bytes) (down : Bool) :
    (((Command.setButton name down).apply state).stickX,
      ((Command.setButton name down).apply state).stickY) = (state.stickX, state.stickY) := by
  cases found : buttonOf name with
  | none => rw [Command.apply_unknown found]
  | some target => rw [Command.apply_known found]

theorem leaves_apply (state : Override) (command : Command) :
    Leaves state (command.apply state) (some command) := by
  cases command with
  | setButton name down =>
      refine ⟨fun button held => ?_, .inl (stick_setButton state name down)⟩
      have set := held_setButton held
      split at set
      next named =>
        subst set
        exact .inr ⟨name, rfl, named⟩
      next => exact .inl set
  | setStick x y => exact ⟨fun _ held => .inl held, .inr (.inr ⟨x, y, rfl⟩)⟩
  | clearInput => exact ⟨fun _ held => absurd BitVec.zero_and held, .inr (.inl rfl)⟩
  | unrelated => exact (Leaves.refl state).weaken _

/-- A whole action leaves nothing. -/
theorem leaves_balanced {commands : List Command} (balanced : Balanced commands)
    (state : Override) : Leaves state (commands.foldl Command.apply state) none := by
  cases balanced with
  | unrelated count =>
      induction count with
      | zero => exact .refl state
      | succ count inductionHypothesis => exact inductionHypothesis
  | button name =>
      refine ⟨fun button held => ?_, .inl ?_⟩
      · have released := held_setButton held
        split at released
        next => cases released
        next unnamed =>
          have pressed := held_setButton released
          rw [if_neg unnamed] at pressed
          exact .inl pressed
      · exact (stick_setButton _ name false).trans (stick_setButton state name true)
  | stick x y => exact ⟨fun _ held => .inl held, .inr (.inl rfl)⟩

theorem prefix_balanced {commands front : List Command} (balanced : Balanced commands)
    (isFront : front <+: commands) (state : Override) :
    Leaves state (front.foldl Command.apply state) front.getLast? := by
  have ofPair {first second : Command} (whole : Balanced [first, second])
      (isFront : front <+: [first, second]) :
      Leaves state (front.foldl Command.apply state) front.getLast? := by
    rcases front with _ | ⟨command, _ | ⟨other, rest⟩⟩
    · exact .refl state
    · exact leaves_apply state command
    · have all := isFront.eq_of_length_le (by simp)
      rw [all]
      exact (leaves_balanced whole state).weaken _
  cases balanced with
  | unrelated count =>
      have repeated : front = List.replicate front.length .unrelated :=
        List.eq_replicate_of_mem fun command member =>
          List.eq_of_mem_replicate (isFront.subset member)
      have nothing := leaves_balanced (.unrelated front.length) state
      rw [← repeated] at nothing
      exact nothing.weaken _
  | button name => exact ofPair (.button name) isFront
  | stick x y => exact ofPair (.stick x y) isFront

/-- Wherever actions stop, only the last command can have left anything. -/
theorem prefix_flatten {blocks : List (List Command)} (balanced : ∀ block ∈ blocks, Balanced block)
    {front : List Command} (isFront : front <+: blocks.flatten) (state : Override) :
    Leaves state (front.foldl Command.apply state) front.getLast? := by
  induction blocks generalizing front state with
  | nil =>
      rw [List.prefix_nil.mp isFront]
      exact .refl state
  | cons block blocks inductionHypothesis =>
      have first := balanced block List.mem_cons_self
      rw [List.flatten_cons] at isFront
      rcases List.prefix_or_prefix_of_prefix isFront (List.prefix_append block _) with inside | beyond
      · exact prefix_balanced first inside state
      · obtain ⟨rest, rfl⟩ := beyond
        have more := inductionHypothesis (fun other member => balanced other (.tail _ member))
          ((List.prefix_append_right_inj block).mp isFront) (block.foldl Command.apply state)
        have whole := leaves_balanced first state
        rw [List.foldl_append]
        cases rest with
        | nil => exact whole.weaken _
        | cons command rest =>
            rw [List.getLast?_append_of_ne_nil _ (List.cons_ne_nil _ _)]
            exact whole.trans more

/-! ## A session of `main` -/

theorem Leaves.of_not_sets {before after : Override} {last : Option Command}
    (leaves : Leaves before after last) (refused : ∀ command ∈ last, ¬ command.Sets) :
    Leaves before after none where
  button := fun button held => .inl ((leaves.button button held).resolve_right
    fun ⟨_, isLast, named⟩ => refused _ isLast ⟨button, named⟩)
  stick := leaves.stick.imp_right fun moved => .inl (moved.resolve_right
    fun ⟨_, _, isLast⟩ => refused _ isLast trivial)

section Session

variable {σ : Type} {others : Override → Bytes → σ → σ × Bytes}

/-- A command that sets something is not refused. -/
theorem reply_of_sets {server next : Override × σ} {raw reply : Bytes}
    (handled : handleLine others server raw = some (next, reply))
    (sets : (commandOf raw).Sets) : reply = okReply := by
  obtain ⟨state, rest⟩ := server
  unfold commandOf at sets
  unfold handleLine at handled
  simp only at sets handled
  by_cases button : getCmd (trim raw) = bytesOf "set_button"
  · rw [if_pos button] at sets handled
    obtain ⟨target, named⟩ := sets
    have found : buttonBit (getStr (trim raw) (bytesOf "name")) = target.bit := by
      unfold buttonBit
      rw [buttonOf_eq_some_iff.mpr named]
    rw [if_neg (by rw [button]; decide), found, if_neg target.bit_ne_zero] at handled
    cases handled
    rfl
  · rw [if_neg button] at sets handled
    by_cases stick : getCmd (trim raw) = bytesOf "set_stick"
    · rw [if_pos stick, if_neg (by rw [stick]; decide)] at handled
      cases handled
      rfl
    · rw [if_neg stick] at sets
      split at sets <;> exact sets.elim

theorem Replied.mem {server last : Override × σ} {replied : List (Bytes × Bytes)}
    (chain : Replied (handleLine others) server replied last) {exchange : Bytes × Bytes}
    (member : exchange ∈ replied) :
    ∃ before next, handleLine others before exchange.1 = some (next, exchange.2) := by
  induction replied generalizing server with
  | nil => cases member
  | cons first replied inductionHypothesis =>
      obtain ⟨next, handled, rest⟩ := chain
      rcases List.mem_cons.mp member with rfl | inside
      · exact ⟨server, next, handled⟩
      · exact inductionHypothesis rest inside

/-- The commands of `main`, as the server reads them. -/
def mainCommands (actions : List Action) : List Command := (mainLines actions).map commandOf

theorem mainCommands_eq (actions : List Action) : ∃ blocks : List (List Command),
    (∀ block ∈ blocks, Balanced block) ∧ mainCommands actions = blocks.flatten ++ [.clearInput] := by
  refine ⟨[.unrelated] :: actions.map fun action =>
    action.script.map fun payload => commandOf (dumps .pmsDrive payload), ?_, ?_⟩
  · intro block member
    rcases List.mem_cons.mp member with rfl | ofAction
    · exact .unrelated 1
    · obtain ⟨action, _, rfl⟩ := List.mem_map.mp ofAction
      exact balanced_script action
  · unfold mainCommands mainLines mainPayloads
    rw [List.map_map, List.map_cons, List.map_append, List.map_flatMap, List.flatten_cons,
      ← List.flatMap_def]
    show commandOf _ :: (_ ++ [commandOf _]) = _
    rw [commandOf_plain (by decide), commandOf_clearInput]
    rfl

theorem leaves_mainCommands {actions : List Action} {front : List Command}
    (isFront : front <+: mainCommands actions) (state : Override) :
    Leaves state (front.foldl Command.apply state) front.getLast? := by
  obtain ⟨blocks, balanced, shape⟩ := mainCommands_eq actions
  rw [shape] at isFront
  rcases List.prefix_concat_iff.mp isFront with rfl | inside
  · rw [List.foldl_append, List.getLast?_concat]
    exact ⟨fun _ held => absurd BitVec.zero_and held, .inr (.inl rfl)⟩
  · exact prefix_flatten balanced inside state

theorem mainCommands_releases (actions : List Action) (state : Override) :
    (mainCommands actions).foldl Command.apply state = .initial := by
  obtain ⟨blocks, _, shape⟩ := mainCommands_eq actions
  rw [shape, List.foldl_append]
  rfl

/-- **Nothing stays down.** Wherever `main` stops between two commands, none of them longer than
the server takes, only the last of them can have left a button down or the stick moved, and not
if it was refused. Where it comes to its end, the override is off. -/
theorem drive_releases
    (oneLine : ∀ state line rest, (0x0A : UInt8) ∉ (others state line rest).2)
    (actions : List Action) (first : Override × σ) {link : Link UInt8 (Client (Override × σ))}
    (steps : Relation.ReflTransGen (Step (taking (handleLine others)) 0x0A (IsCommand .pmsDrive))
      (opened (accepted first)) link) (idle : link.phase = .idle)
    (sent : link.exchanges.map Prod.fst <+: (mainLines actions).map request) :
    ∃ client, link.server = some client ∧
      Leaves first.1 client.server.1 ((mainCommands actions).take link.exchanges.length).getLast? ∧
      ((∃ exchange ∈ link.exchanges.getLast?, exchange.2 ≠ okReply) →
        Leaves first.1 client.server.1 none) ∧
      (link.exchanges.length = (mainLines actions).length → client.server.1 = .initial) := by
  have lines := Relation.ReflTransGen.mono (fun _ _ step => step.mono IsCommand.isRequest) _ _ steps
  obtain ⟨replied, server, shape, chain, quiet⟩ := replied_of_steps oneLine lines
  obtain ⟨_, _, client, present, rfl, _, _⟩ := quiet idle
  have texts : replied.map Prod.fst <+: mainLines actions := by
    rw [shape, List.map_map] at sent
    refine (List.prefix_map_iff_of_injective request_injective).mp ?_
    rw [List.map_map]
    exact sent
  have commands : (replied.map fun exchange => commandOf exchange.1) <+: mainCommands actions := by
    have mapped := texts.map commandOf
    rwa [List.map_map] at mapped
  have count : link.exchanges.length = (replied.map fun exchange => commandOf exchange.1).length := by
    rw [shape, List.length_map, List.length_map]
  have taken := List.prefix_iff_eq_take.mp commands
  have leaves := leaves_mainCommands commands first.1
  rw [← chain.apply] at leaves
  refine ⟨client, present, ?_, ?_, ?_⟩
  · rw [count, ← taken]
    exact leaves
  · rintro ⟨exchange, isLast, refused⟩
    refine leaves.of_not_sets fun command ofLast sets => refused ?_
    rw [shape, List.getLast?_map] at isLast
    rw [List.getLast?_map] at ofLast
    obtain ⟨text, final, rfl⟩ := Option.map_eq_some_iff.mp isLast
    obtain ⟨same, alsoFinal, rfl⟩ := Option.map_eq_some_iff.mp ofLast
    obtain rfl := Option.some.inj (final.symm.trans alsoFinal)
    obtain ⟨_, _, handled⟩ := chain.mem (List.mem_of_getLast? final)
    exact reply_of_sets handled sets
  · intro whole
    have all := commands.eq_of_length_le (by
      rw [← count, whole, mainCommands, List.length_map])
    rw [chain.apply, all]
    exact mainCommands_releases actions first.1

/-- `press:a` against a server that takes every other command. -/
theorem drive_releases_pressA :
    ∃ (link : Link UInt8 (Client (Override × Unit))) (client : Client (Override × Unit)),
      link.server = some client ∧ client.server.1 = .initial ∧
      link.exchanges = (mainLines [.press ['a']]).map fun line => (request line, okReply) := by
  have plain : ∀ (state : Override) (line : Bytes) (rest : Unit),
      (0x0A : UInt8) ∉ (rest, okReply).2 := fun _ _ _ => show (0x0A : UInt8) ∉ okReply by decide
  have lines : ∀ line ∈ mainLines [.press ['a']], IsCommand .pmsDrive (request line) :=
    isCommand_mainLines (by decide +kernel)
  have chain : Replied (handleLine fun _ _ rest => (rest, okReply)) (.initial, ())
      ((mainLines [.press ['a']]).map fun line => (line, okReply)) (.initial, ()) := by
    refine ⟨(.initial, ()), by decide +kernel, (⟨true, 0x8000, 0, 0⟩, ()), by decide +kernel,
      (⟨true, 0, 0, 0⟩, ()), by decide +kernel, (.initial, ()), by decide +kernel, rfl⟩
  obtain ⟨final, served, _⟩ := served_of_replied (oneLine_handleLine plain) chain (by
    intro exchange member
    obtain ⟨line, inside, rfl⟩ := List.mem_map.mp member
    exact (lines line inside).isLine)
    (show (accepted (Override.initial, ())).line = [] from rfl) rfl
  have steps : Relation.ReflTransGen (Step (taking (handleLine fun _ _ rest => (rest, okReply)))
      0x0A (IsCommand .pmsDrive)) (opened (accepted (Override.initial, ()))) ⟨some final, [], [], .idle,
        ((mainLines [.press ['a']]).map fun line => (line, okReply)).map
          fun exchange => (request exchange.1, exchange.2)⟩ := by
    refine steps_of_served served (fun exchange member => ?_) .refl
    obtain ⟨other, inside, rfl⟩ := List.mem_map.mp member
    obtain ⟨line, inMain, rfl⟩ := List.mem_map.mp inside
    exact lines line inMain
  obtain ⟨client, present, _, _, released⟩ :=
    drive_releases plain [.press ['a']] (Override.initial, ()) steps rfl (by
      simp [List.map_map, Function.comp_def])
  exact ⟨_, client, present, released (by simp), by simp [List.map_map, Function.comp_def]⟩

end Session

end StadiumRecomp.Debug
