import StadiumRecomp.Debug.Framing
import StadiumRecomp.Debug.Input
import StadiumRecomp.Debug.Payload
import StadiumRecomp.Lib.Lockstep

/-!
Contract: a client of `tools/` and `client_loop`, with the bytes between them in any order.

Owns: the lines that the clients write, `client_loop` as a server of them, and that each command
is handled once, in order, and gets its own reply.

Does not own: the timeouts of the client, and a server that is shut down.
-/

set_option autoImplicit false

namespace StadiumRecomp.Debug

open StadiumRecomp.Lib
open StadiumRecomp.Lib.Lockstep
open StadiumRecomp.Lib.CString (bytesOf)

/-! ## What a client writes -/

/-- No byte ends a line or is skipped by the loop. -/
def Unbroken (text : Bytes) : Prop := ∀ byte ∈ text, byte ≠ 0x0A ∧ byte ≠ 0x0D

instance (text : Bytes) : Decidable (Unbroken text) := List.decidableBAll _ _

theorem Unbroken.append {left right : Bytes} (front : Unbroken left) (back : Unbroken right) :
    Unbroken (left ++ right) := fun byte member =>
  (List.mem_append.mp member).elim (front byte) (back byte)

theorem Unbroken.cons {byte : UInt8} {text : Bytes} (first : byte ≠ 0x0A ∧ byte ≠ 0x0D)
    (rest : Unbroken text) : Unbroken (byte :: text) := by
  intro other member
  rcases List.mem_cons.mp member with rfl | inside
  · exact first
  · exact rest other inside

/-- The literals of the floats are on one line. -/
def Payload.OneLine (payload : Payload) : Prop :=
  ∀ field ∈ payload.fields, ∀ text, field.2 = .float text → Unbroken text.bytes

theorem unbroken_unicodeEscape (code : Nat) : Unbroken (unicodeEscape code) := by
  have digits : ∀ digit < 16, hexDigit digit ≠ 0x0A ∧ hexDigit digit ≠ 0x0D := by decide
  have below (part : Nat) : part % 16 < 16 := Nat.mod_lt part (by decide)
  unfold unicodeEscape
  exact .cons (by decide) (.cons (by decide) (.cons (digits _ (below _)) (.cons
    (digits _ (below _)) (.cons (digits _ (below _)) (.cons (digits _ (below _))
      fun _ member => absurd member List.not_mem_nil)))))

theorem unbroken_escapeChar (symbol : Char) : Unbroken (escapeChar symbol) := by
  by_cases plain : isPlain symbol = true
  · rw [escapeChar_plain plain]
    obtain ⟨low, high, _⟩ := isPlain_bounds plain
    have visible : ∀ byte : UInt8, byte = UInt8.ofNat symbol.toNat → 0x20 ≤ byte.toNat := by
      rintro byte rfl
      rw [UInt8.toNat_ofNat']
      omega
    intro byte member
    have from20 := visible byte (List.mem_singleton.mp member)
    constructor <;> rintro rfl <;> exact absurd from20 (by decide)
  · unfold escapeChar
    rw [if_neg plain]
    repeat' split
    all_goals first
      | decide
      | exact unbroken_unicodeEscape _
      | exact (unbroken_unicodeEscape _).append (unbroken_unicodeEscape _)

theorem unbroken_quoted (text : Text) : Unbroken (quoted text) := by
  refine .cons (by decide) (.append ?_ (by decide))
  intro byte member
  obtain ⟨symbol, _, inside⟩ := List.mem_flatMap.mp member
  exact unbroken_escapeChar symbol byte inside

theorem unbroken_decimal (value : Int) : Unbroken (CString.decimal value) := by
  have digits (magnitude : Nat) : Unbroken (CString.decimalDigits magnitude) := by
    intro byte member
    have digit := CString.isDigit_of_mem_decimalDigits member
    constructor <;> rintro rfl <;> exact absurd digit (by decide)
  unfold CString.decimal
  split
  · exact .cons (by decide) (digits _)
  · exact digits _

theorem unbroken_fieldText (sender : Sender) {field : Field}
    (oneLine : ∀ text, field.2 = .float text → Unbroken text.bytes) :
    Unbroken (fieldText sender field) := by
  have separator : Unbroken sender.keySeparator := by cases sender <;> decide
  refine (unbroken_quoted _).append (separator.append ?_)
  obtain ⟨key, value⟩ := field
  cases value with
  | str text => exact unbroken_quoted text
  | int value => exact unbroken_decimal value
  | float text => exact oneLine text rfl
  | bool value =>
      cases value with
      | true => exact show Unbroken trueWord by decide
      | false => exact show Unbroken falseWord by decide

theorem unbroken_fieldsText (sender : Sender) {fields : List Field}
    (oneLine : ∀ field ∈ fields, ∀ text, field.2 = .float text → Unbroken text.bytes) :
    Unbroken (fieldsText sender fields) := by
  have separator : Unbroken sender.itemSeparator := by cases sender <;> decide
  induction fields with
  | nil => exact show Unbroken [0x7D] by decide
  | cons field fields inductionHypothesis =>
      exact separator.append ((unbroken_fieldText sender (oneLine field List.mem_cons_self)).append
        (inductionHypothesis fun other member => oneLine other (List.mem_cons_of_mem _ member)))

theorem unbroken_dumps (sender : Sender) {payload : Payload} (oneLine : payload.OneLine) :
    Unbroken (dumps sender payload) := by
  unfold Payload.OneLine at oneLine
  unfold dumps
  split
  · decide
  next field rest fields =>
    rw [fields] at oneLine
    exact .cons (by decide) ((unbroken_fieldText sender (oneLine field List.mem_cons_self)).append
      (unbroken_fieldsText sender fun other member => oneLine other (List.mem_cons_of_mem _ member)))

/-- A line that the loop hands over as it was written. -/
structure IsLine (text : Bytes) : Prop where
  unbroken : Unbroken text
  fits : text.length ≤ lineLimit

/-- A text with the line feed that the clients write behind it. -/
def request (text : Bytes) : Bytes := text ++ [0x0A]

/-! ## `client_loop` as a server of lines -/

section Server

variable {σ : Type} {handleLine : σ → Bytes → Option (σ × Bytes)}

/-- What `client_loop` does with a byte, and the bytes it sends; none when the process exits. -/
def taking (handleLine : σ → Bytes → Option (σ × Bytes)) (client : Client σ) (ch : UInt8) :
    Option (Client σ × Bytes) :=
  match receive handleLine client ch with
  | (next, true) => some (next, next.sent.drop client.sent.length)
  | (_, false) => none

theorem taking_plain {client : Client σ} {ch : UInt8} (plain : ch ≠ 0x0A ∧ ch ≠ 0x0D)
    (fits : client.line.length < lineLimit) : taking handleLine client ch =
      some ({ client with received := client.received ++ [ch], line := client.line ++ [ch] }, []) := by
  have short : ¬ (client.line ++ [ch]).length > lineLimit := by
    rw [List.length_append, List.length_singleton]
    omega
  unfold taking receive
  rw [if_neg plain.1, if_pos plain.2]
  simp only [if_neg short, List.drop_length]

/-- The client behind a handled line. -/
def Client.handledLine (client : Client σ) (text : Bytes) (result : σ × Bytes) : Client σ :=
  ⟨result.1, [], client.received ++ request text, client.handled ++ [text],
    client.sent ++ (result.2 ++ [0x0A])⟩

theorem hearing_line {text : Bytes} (unbroken : Unbroken text) {client : Client σ}
    (fits : client.line.length + text.length ≤ lineLimit) :
    hearing (taking handleLine) client text =
      some { client with received := client.received ++ text, line := client.line ++ text } := by
  induction text generalizing client with
  | nil =>
      rw [List.append_nil, List.append_nil]
      rfl
  | cons ch text inductionHypothesis =>
      rw [List.length_cons] at fits
      have first : taking handleLine client ch = _ :=
        taking_plain (unbroken ch List.mem_cons_self) (by omega)
      have rest := @inductionHypothesis (fun byte member => unbroken byte (.tail _ member))
        { client with received := client.received ++ [ch], line := client.line ++ [ch] }
        (by rw [List.length_append, List.length_singleton]; omega)
      rw [hearing, first]
      simp only [rest, List.append_assoc, List.singleton_append]

/-- A line in an empty buffer is handled, and the reply sent. -/
theorem answers_line {client : Client σ} (empty : client.line = []) {text : Bytes}
    (line : IsLine text) (oneLine : ∀ server raw next reply,
      handleLine server raw = some (next, reply) → (0x0A : UInt8) ∉ reply) :
    Answers (taking handleLine) 0x0A client (request text)
      ((handleLine client.server text).map fun result =>
        (client.handledLine text result, result.2)) where
  heard := by
    refine ⟨text, 0x0A, _, rfl, hearing_line line.unbroken ?_, ?_⟩
    · rw [empty]
      simpa using line.fits
    · unfold taking receive Client.handledLine request
      simp only [if_true, empty, List.nil_append]
      cases handleLine client.server text with
      | none => rfl
      | some result => simp
  whole := by
    intro result member
    obtain ⟨handled, found, rfl⟩ := Option.map_eq_some_iff.mp member
    exact oneLine _ _ _ _ found

/-- A line that the loop takes whole. -/
def IsRequest (bytes : Bytes) : Prop := ∃ text, IsLine text ∧ bytes = request text

/-- A command of a client, no longer than the loop takes. -/
def IsCommand (sender : Sender) (bytes : Bytes) : Prop :=
  ∃ payload : Payload, payload.OneLine ∧ (dumps sender payload).length ≤ lineLimit ∧
    bytes = request (dumps sender payload)

theorem IsCommand.isRequest {sender : Sender} (bytes : Bytes) (command : IsCommand sender bytes) :
    IsRequest bytes := by
  obtain ⟨payload, oneLine, fits, rfl⟩ := command
  exact ⟨_, ⟨unbroken_dumps sender oneLine, fits⟩, rfl⟩

theorem request_injective : Function.Injective request :=
  fun _ _ same => List.append_cancel_right same

theorem IsCommand.isLine {sender : Sender} {text : Bytes}
    (command : IsCommand sender (request text)) : IsLine text := by
  obtain ⟨other, line, same⟩ := command.isRequest
  rwa [request_injective same]

/-- A byte with an answer ends the line. -/
theorem line_of_taking {client next : Client σ} {ch : UInt8} {answer : Bytes}
    (taken : taking handleLine client ch = some (next, answer)) (spoken : answer ≠ []) :
    next.line = [] := by
  unfold taking receive at taken
  by_cases feed : ch = 0x0A
  · rw [if_pos feed] at taken
    simp only at taken
    cases handled : handleLine client.server client.line with
    | none =>
        rw [handled] at taken
        cases taken
    | some result =>
        rw [handled] at taken
        cases taken
        rfl
  · rw [if_neg feed] at taken
    split at taken
    next _ received =>
      split at received <;> cases received <;> cases taken <;>
        exact absurd List.drop_length spoken
    next => cases taken

theorem discipline_taking (oneLine : ∀ server raw next reply,
    handleLine server raw = some (next, reply) → (0x0A : UInt8) ∉ reply) :
    Discipline (taking handleLine) 0x0A IsRequest fun client : Client σ => client.line = [] where
  nonempty := by
    rintro _ ⟨text, _, rfl⟩
    simp [request]
  answers := by
    rintro client _ empty ⟨text, line, rfl⟩
    exact ⟨_, answers_line empty line oneLine⟩
  kept := by
    intro client bytes result _ answers
    obtain ⟨front, last, before, _, _, taken⟩ := answers.heard
    exact line_of_taking taken (by simp)

/-- `handle_line` on one text after the other, each with its reply. -/
def Replied (handleLine : σ → Bytes → Option (σ × Bytes)) (server : σ) :
    List (Bytes × Bytes) → σ → Prop
  | [], last => last = server
  | exchange :: rest, last => ∃ next,
      handleLine server exchange.1 = some (next, exchange.2) ∧ Replied handleLine next rest last

/-- What the loop has served, `handle_line` has replied. -/
theorem replied_of_served (oneLine : ∀ server raw next reply,
      handleLine server raw = some (next, reply) → (0x0A : UInt8) ∉ reply)
    {client last : Client σ} {exchanges : List (Bytes × Bytes)}
    (served : Served (taking handleLine) 0x0A client exchanges last) (empty : client.line = [])
    (requests : ∀ exchange ∈ exchanges, IsRequest exchange.1) :
    ∃ replied : List (Bytes × Bytes),
      exchanges = replied.map (fun exchange => (request exchange.1, exchange.2)) ∧
      Replied handleLine client.server replied last.server ∧
      last.handled = client.handled ++ replied.map Prod.fst := by
  induction exchanges generalizing client with
  | nil =>
      obtain rfl : last = client := served
      exact ⟨[], rfl, rfl, (List.append_nil _).symm⟩
  | cons exchange exchanges inductionHypothesis =>
      obtain ⟨next, answers, rest⟩ := served
      obtain ⟨text, line, isRequest⟩ := requests exchange List.mem_cons_self
      obtain ⟨bytes, reply⟩ := exchange
      obtain rfl : bytes = request text := isRequest
      have same := answers.unique (answers_line empty line oneLine)
      obtain ⟨result, handled, isResult⟩ := Option.map_eq_some_iff.mp same.symm
      obtain ⟨rfl, rfl⟩ := Prod.mk.inj isResult
      obtain ⟨replied, shape, chain, texts⟩ := inductionHypothesis rest rfl
        fun other member => requests other (.tail _ member)
      refine ⟨(text, result.2) :: replied, ?_, ⟨result.1, handled, chain⟩, ?_⟩
      · rw [List.map_cons, shape]
      · rw [texts, List.map_cons]
        exact List.append_assoc client.handled [text] _

/-- What `handle_line` replies, the loop serves. -/
theorem served_of_replied (oneLine : ∀ server raw next reply,
      handleLine server raw = some (next, reply) → (0x0A : UInt8) ∉ reply)
    {server last : σ} {replied : List (Bytes × Bytes)}
    (chain : Replied handleLine server replied last) (lines : ∀ exchange ∈ replied, IsLine exchange.1)
    {client : Client σ} (empty : client.line = []) (holds : client.server = server) :
    ∃ final, Served (taking handleLine) 0x0A client
      (replied.map fun exchange => (request exchange.1, exchange.2)) final ∧
      final.server = last := by
  induction replied generalizing client server with
  | nil =>
      obtain rfl : last = server := chain
      exact ⟨client, rfl, holds⟩
  | cons exchange replied inductionHypothesis =>
      obtain ⟨next, handled, rest⟩ := chain
      have answers := answers_line empty (lines exchange List.mem_cons_self) oneLine
      rw [holds, handled] at answers
      obtain ⟨final, served, isLast⟩ := inductionHypothesis rest
        (fun other member => lines other (.tail _ member))
        (show (client.handledLine exchange.1 (next, exchange.2)).line = [] from rfl) rfl
      exact ⟨final, ⟨_, answers, served⟩, isLast⟩

end Server

/-! ## A session -/

section Session

variable {σ : Type} {others : Override → Bytes → σ → σ × Bytes}

theorem oneLine_handleLine (oneLine : ∀ state line rest, (0x0A : UInt8) ∉ (others state line rest).2)
    (server : Override × σ) (raw : Bytes) (next : Override × σ) (reply : Bytes)
    (handled : handleLine others server raw = some (next, reply)) : (0x0A : UInt8) ∉ reply := by
  have ok : (0x0A : UInt8) ∉ okReply := by decide
  have empty : (0x0A : UInt8) ∉ emptyReply := by decide
  have unknown : (0x0A : UInt8) ∉ unknownButtonReply := by decide
  obtain ⟨state, rest⟩ := server
  unfold handleLine at handled
  simp only at handled
  split_ifs at handled <;> cases handled
  all_goals first
    | exact ok
    | exact empty
    | exact unknown
    | exact oneLine _ _ _

theorem Replied.apply {server last : Override × σ} {replied : List (Bytes × Bytes)}
    (chain : Replied (handleLine others) server replied last) :
    last.1 = (replied.map fun exchange => commandOf exchange.1).foldl Command.apply server.1 := by
  induction replied generalizing server with
  | nil =>
      obtain rfl : last = server := chain
      rfl
  | cons exchange replied inductionHypothesis =>
      obtain ⟨next, handled, rest⟩ := chain
      rw [inductionHypothesis rest, handleLine_apply handled]
      rfl

/-- What a client has exchanged is what `handle_line` replies to its lines, and an idle one has
nothing in flight. -/
theorem replied_of_steps
    (oneLine : ∀ state line rest, (0x0A : UInt8) ∉ (others state line rest).2)
    {first : Override × σ} {link : Link UInt8 (Client (Override × σ))}
    (steps : Relation.ReflTransGen (Step (taking (handleLine others)) 0x0A IsRequest)
      (opened (accepted first)) link) :
    ∃ replied server,
      link.exchanges = replied.map (fun exchange => (request exchange.1, exchange.2)) ∧
      Replied (handleLine others) first replied server ∧
      (link.phase = .idle → link.up = [] ∧ link.down = [] ∧ ∃ client, link.server = some client ∧
        client.server = server ∧ client.line = [] ∧ client.handled = replied.map Prod.fst) := by
  have replies := oneLine_handleLine oneLine
  have sound := sound_of_steps (discipline_taking replies) rfl steps
  have served : ∃ last, Served (taking (handleLine others)) 0x0A (accepted first)
      link.exchanges last ∧ (link.phase = .idle →
        link.up = [] ∧ link.down = [] ∧ link.server = some last) := by
    cases sound with
    | idle served => exact ⟨_, served, fun _ => ⟨rfl, rfl, rfl⟩⟩
    | asking served answers heard left => exact ⟨_, served, fun other => by cases other⟩
    | answering served answers whole left => exact ⟨_, served, fun other => by cases other⟩
    | gone served answers => exact ⟨_, served, fun other => by cases other⟩
    | closed served => exact ⟨_, served, fun other => by cases other⟩
  obtain ⟨last, served, idle⟩ := served
  obtain ⟨replied, shape, chain, texts⟩ :=
    replied_of_served replies served rfl (allowed_of_steps steps).1
  refine ⟨replied, last.server, shape, chain, fun isIdle => ?_⟩
  obtain ⟨up, down, server⟩ := idle isIdle
  exact ⟨up, down, last, server, rfl, served.keeps (discipline_taking replies) rfl, texts⟩

/-- **Lockstep.** However the bytes of a client and of the loop overtake each other, the client,
whose commands are no longer than the loop takes, has got the replies of `handle_line` to them,
each handled once and in order, and the override is what they make it. An idle client has nothing
in flight, and one that waits is not stuck and does not wait for ever. -/
theorem session_lockstep
    (oneLine : ∀ state line rest, (0x0A : UInt8) ∉ (others state line rest).2)
    {sender : Sender} (state : Override) (rest : σ) {link : Link UInt8 (Client (Override × σ))}
    (steps : Relation.ReflTransGen (Step (taking (handleLine others)) 0x0A (IsCommand sender))
      (opened (accepted (state, rest))) link) :
    ∃ replied server,
      link.exchanges = replied.map (fun exchange => (request exchange.1, exchange.2)) ∧
      Replied (handleLine others) (state, rest) replied server ∧
      server.1 = (replied.map fun exchange => commandOf exchange.1).foldl Command.apply state ∧
      (link.phase = .idle → link.up = [] ∧ link.down = [] ∧ ∃ client, link.server = some client ∧
        client.server = server ∧ client.line = [] ∧ client.handled = replied.map Prod.fst) ∧
      (∀ asked gained, link.phase = .waiting asked gained →
        ∃ next, Receive (taking (handleLine others)) 0x0A link next) ∧
      Acc (fun next link => Receive (taking (handleLine others)) 0x0A link next) link := by
  have lines := Relation.ReflTransGen.mono (fun _ _ step => step.mono IsCommand.isRequest) _ _ steps
  have sound := sound_of_steps (discipline_taking (oneLine_handleLine oneLine)) rfl lines
  obtain ⟨replied, server, shape, chain, idle⟩ := replied_of_steps oneLine lines
  exact ⟨replied, server, shape, chain, chain.apply, idle,
    fun asked gained waiting => sound.progress waiting, receive_wellFounded.apply link⟩

/-- A command `p` that is answered with an `o`. -/
theorem session_lockstep_p :
    ∃ (payload : Payload) (replied : List (Bytes × Bytes)) (server : Override × Unit),
      [(request (dumps .pmsCmd payload), [0x6F])] =
        replied.map (fun exchange : Bytes × Bytes => (request exchange.1, exchange.2)) ∧
      Replied (handleLine fun _ _ rest => (rest, [0x6F])) (.initial, ()) replied server ∧
      server.1 =
        (replied.map fun exchange => commandOf exchange.1).foldl Command.apply .initial := by
  let payload : Payload := ⟨[(['c', 'm', 'd'], .str ['p'])], by decide⟩
  have oneLine : payload.OneLine := by
    intro field member text isFloat
    rw [List.mem_singleton.mp member] at isFloat
    cases isFloat
  have fits : (dumps .pmsCmd payload).length ≤ lineLimit := by decide
  have plain : ∀ (state : Override) (line : Bytes) (rest : Unit),
      (0x0A : UInt8) ∉ (rest, ([0x6F] : Bytes)).2 := fun _ _ _ =>
    show (0x0A : UInt8) ∉ ([0x6F] : Bytes) by decide
  have chain : Replied (handleLine fun _ _ rest => (rest, [0x6F])) (.initial, ())
      [(dumps .pmsCmd payload, [0x6F])] (.initial, ()) := ⟨(.initial, ()), by decide, rfl⟩
  obtain ⟨final, served, _⟩ := served_of_replied (oneLine_handleLine plain) chain (by
    intro exchange member
    rw [List.mem_singleton.mp member]
    exact ⟨unbroken_dumps .pmsCmd oneLine, fits⟩)
    (show (accepted (Override.initial, ())).line = [] from rfl) rfl
  have steps : Relation.ReflTransGen (Step (taking (handleLine fun _ _ rest => (rest, [0x6F])))
      0x0A (IsCommand .pmsCmd)) (opened (accepted (Override.initial, ())))
      ⟨some final, [], [], .idle, [(request (dumps .pmsCmd payload), [0x6F])]⟩ :=
    steps_of_served served (fun exchange member => by
      rw [List.mem_singleton.mp member]
      exact ⟨payload, oneLine, fits, rfl⟩) .refl
  obtain ⟨replied, server, shape, chain, override, _⟩ :=
    session_lockstep plain .initial () steps
  exact ⟨payload, replied, server, shape, chain, override⟩

end Session

end StadiumRecomp.Debug
