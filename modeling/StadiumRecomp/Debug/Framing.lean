import StadiumRecomp.Lib.CString

/-!
Contract: `client_loop` of `src/main/debug_server.cpp`.

Owns: the loop over a connection, the strings it passes to `handle_line`, and which of
these are whole lines.

Does not own: what `handle_line` does with a line, and the sockets.
-/

set_option autoImplicit false

namespace StadiumRecomp.Debug

open StadiumRecomp.Lib

/-! ## The loop -/

/-- A connection as the loop has served it so far. -/
structure Client (σ : Type) where
  /-- What `handle_line` works on. -/
  server : σ
  line : Bytes
  /-- The bytes that `recv` has returned. -/
  received : Bytes
  /-- The strings passed to `handle_line`. -/
  handled : List Bytes
  sent : Bytes

/-- `recv` of one byte from the chunks that arrive. -/
def recv : List Bytes → Option (UInt8 × List Bytes)
  | [] => none
  | [] :: rest => recv rest
  | (ch :: chunk) :: rest => some (ch, chunk :: rest)

/-- The limit of a line. -/
def lineLimit : Nat := 4096

section Loop

variable {σ : Type}

/-- One received byte, and whether the process is still there: `handle_line` gives no
response for a command that exits. -/
def receive (handleLine : σ → Bytes → Option (σ × Bytes)) (client : Client σ) (ch : UInt8) :
    Client σ × Bool :=
  let client := { client with received := client.received ++ [ch] }
  if ch = 0x0A then
    let handled := client.handled ++ [client.line]
    match handleLine client.server client.line with
    | none => ({ client with handled := handled }, false)
    | some (server, response) =>
        ({ client with
            server := server
            handled := handled
            sent := client.sent ++ (response ++ [0x0A])
            line := [] }, true)
  else if ch ≠ 0x0D then
    let line := client.line ++ [ch]
    ({ client with line := if line.length > lineLimit then [] else line }, true)
  else (client, true)

theorem flatten_recv {chunks rest : List Bytes} {ch : UInt8}
    (received : recv chunks = some (ch, rest)) : chunks.flatten = ch :: rest.flatten := by
  induction chunks with
  | nil => cases received
  | cons chunk others inductionHypothesis =>
      cases chunk with
      | nil => exact inductionHypothesis received
      | cons first chunk =>
          cases received
          rfl

theorem flatten_recv_none {chunks : List Bytes} (ended : recv chunks = none) :
    chunks.flatten = [] := by
  induction chunks with
  | nil => rfl
  | cons chunk others inductionHypothesis =>
      cases chunk with
      | nil => exact inductionHypothesis ended
      | cons first chunk => cases ended

/-- `client_loop`; `running` is what `s_running` holds at each round. -/
def clientLoop (handleLine : σ → Bytes → Option (σ × Bytes)) (running : Nat → Bool) (round : Nat)
    (chunks : List Bytes) (client : Client σ) : Client σ :=
  if running round then
    match _received : recv chunks with
    | none => client
    | some (ch, rest) =>
        match receive handleLine client ch with
        | (client, true) => clientLoop handleLine running (round + 1) rest client
        | (client, false) => client
  else client
termination_by chunks.flatten.length
decreasing_by
  rw [flatten_recv _received, List.length_cons]
  exact Nat.lt_succ_self _

/-- The connection as it is accepted. -/
def accepted (server : σ) : Client σ := ⟨server, [], [], [], []⟩

end Loop

/-! ## Lines of a stream -/

def isNewline (ch : UInt8) : Bool := ch == 0x0A

/-- A line with its carriage returns removed. -/
def withoutReturns (line : Bytes) : Bytes := line.filter (· ≠ 0x0D)

/-- The newline-terminated lines of a stream, carriage returns removed. -/
def streamLines (stream : Bytes) : List Bytes :=
  (Text.endedLines isNewline stream).map withoutReturns

/-- Those of them that the limit allows. -/
def wholeLines (stream : Bytes) : List Bytes :=
  (streamLines stream).filter fun line => line.length ≤ lineLimit

/-- What the buffer holds of a line: it is emptied by every byte beyond the limit. -/
def buffered (line : Bytes) : Bytes := line.drop ((lineLimit + 1) * (line.length / (lineLimit + 1)))

theorem buffered_of_le {line : Bytes} (fits : line.length ≤ lineLimit) : buffered line = line := by
  unfold buffered lineLimit at *
  rw [Nat.div_eq_of_lt (by omega), Nat.mul_zero, List.drop_zero]

/-- One more byte in the buffer. -/
theorem buffered_push (line : Bytes) (ch : UInt8) :
    buffered (line ++ [ch]) =
      if (buffered line ++ [ch]).length > lineLimit then [] else buffered line ++ [ch] := by
  have length : (line ++ [ch]).length = line.length + 1 := by
    rw [List.length_append, List.length_singleton]
  have kept : (buffered line ++ [ch]).length =
      line.length - 4097 * (line.length / 4097) + 1 := by
    unfold buffered lineLimit
    rw [List.length_append, List.length_drop, List.length_singleton]
  unfold buffered lineLimit at *
  rw [kept]
  split
  next beyond =>
    apply List.drop_eq_nil_of_le
    omega
  next fits =>
    rw [length, show 4096 + 1 = 4097 from rfl,
      show (line.length + 1) / 4097 = line.length / 4097 by omega]
    exact List.drop_append_of_le_length (by omega)

theorem withoutReturns_push (line : Bytes) (ch : UInt8) :
    withoutReturns (line ++ [ch]) =
      if ch ≠ 0x0D then withoutReturns line ++ [ch] else withoutReturns line := by
  unfold withoutReturns
  rw [List.filter_append]
  split
  next shown => rw [List.filter_cons_of_pos (by simpa using shown), List.filter_nil]
  next hidden =>
    rw [List.filter_cons_of_neg (by simpa using hidden), List.filter_nil, List.append_nil]

/-! ## What the loop handles -/

section Handled

variable {σ : Type} {handleLine : σ → Bytes → Option (σ × Bytes)}

/-- Every ended line has been handled as the buffer held it. -/
def Settled (client : Client σ) : Prop :=
  client.handled = (streamLines client.received).map buffered

/-- And the buffer holds the line that is not ended. -/
structure Framed (client : Client σ) (lines : List Bytes) (tail : Bytes) : Prop where
  received : client.received = Text.unlines 0x0A lines ++ tail
  oneLine : ∀ line ∈ lines, Text.OneLine isNewline line
  tailLine : Text.OneLine isNewline tail
  handled : client.handled = (lines.map withoutReturns).map buffered
  line : client.line = buffered (withoutReturns tail)

theorem Framed.settled {client : Client σ} {lines : List Bytes} {tail : Bytes}
    (framed : Framed client lines tail) : Settled client := by
  unfold Settled streamLines
  rw [framed.received, Text.endedLines_unlines_append rfl framed.oneLine framed.tailLine,
    framed.handled]

theorem oneLine_snoc {line : Bytes} {ch : UInt8} (oneLine : Text.OneLine isNewline line)
    (plain : ch ≠ 0x0A) : Text.OneLine isNewline (line ++ [ch]) := by
  intro symbol member
  rcases List.mem_append.mp member with inside | last
  · exact oneLine symbol inside
  · rw [List.mem_singleton.mp last]
    exact beq_eq_false_iff_ne.mpr plain

theorem unlines_snoc (lines : List Bytes) (line : Bytes) :
    Text.unlines 0x0A (lines ++ [line]) ++ [] = Text.unlines 0x0A lines ++ line ++ [0x0A] := by
  unfold Text.unlines
  rw [List.flatMap_append, List.append_nil, List.flatMap_singleton, List.append_assoc]

/-- A newline ends the line in the buffer. -/
theorem Framed.ended {client : Client σ} {lines : List Bytes} {tail : Bytes} {server : σ}
    {sent : Bytes} (framed : Framed client lines tail) :
    Framed ⟨server, [], client.received ++ [0x0A], client.handled ++ [client.line], sent⟩
      (lines ++ [tail]) [] where
  received := by rw [framed.received, unlines_snoc]
  oneLine := by
    intro line member
    rcases List.mem_append.mp member with inside | last
    · exact framed.oneLine line inside
    · rw [List.mem_singleton.mp last]
      exact framed.tailLine
  tailLine := fun symbol member => absurd member List.not_mem_nil
  handled := by
    rw [framed.handled, framed.line, List.map_append, List.map_append]
    rfl
  line := rfl

/-- Any other byte goes on with it. -/
theorem Framed.continued {client : Client σ} {lines : List Bytes} {tail line : Bytes} {ch : UInt8}
    (framed : Framed client lines tail) (plain : ch ≠ 0x0A)
    (grown : line = buffered (withoutReturns (tail ++ [ch]))) :
    Framed { client with received := client.received ++ [ch], line := line } lines
      (tail ++ [ch]) where
  received := by
    show client.received ++ [ch] = _
    rw [framed.received, List.append_assoc]
  oneLine := framed.oneLine
  tailLine := oneLine_snoc framed.tailLine plain
  handled := framed.handled
  line := grown

/-- A received byte keeps the frame; an exit leaves every ended line handled. -/
theorem Framed.receive {client next : Client σ} {lines : List Bytes} {tail : Bytes} {ch : UInt8}
    {running : Bool} (framed : Framed client lines tail)
    (stepped : Debug.receive handleLine client ch = (next, running)) :
    Settled next ∧ (running = true → ∃ lines tail, Framed next lines tail) := by
  unfold Debug.receive at stepped
  simp only at stepped
  split at stepped
  next newline =>
    rw [newline] at stepped
    split at stepped
    · cases stepped
      have settled : Settled (Client.mk client.server [] (client.received ++ [0x0A])
        (client.handled ++ [client.line]) client.sent) := framed.ended.settled
      exact ⟨settled, fun stopped => by cases stopped⟩
    · cases stepped
      exact ⟨framed.ended.settled, fun _ => ⟨_, _, framed.ended⟩⟩
  next plain =>
    split at stepped
    next shown =>
      cases stepped
      have line : (if (client.line ++ [ch]).length > lineLimit then [] else client.line ++ [ch]) =
          buffered (withoutReturns (tail ++ [ch])) := by
        rw [withoutReturns_push, if_pos shown, buffered_push, framed.line]
      have grown := framed.continued plain line
      exact ⟨grown.settled, fun _ => ⟨_, _, grown⟩⟩
    next hidden =>
      cases stepped
      have line : client.line = buffered (withoutReturns (tail ++ [ch])) := by
        rw [withoutReturns_push, if_neg hidden, framed.line]
      have kept := framed.continued plain line
      exact ⟨kept.settled, fun _ => ⟨_, _, kept⟩⟩

/-- The loop leaves every ended line handled. -/
theorem settled_clientLoop {running : Nat → Bool} {round : Nat} {chunks : List Bytes}
    {client : Client σ} {lines : List Bytes} {tail : Bytes}
    (framed : Framed client lines tail) :
    Settled (clientLoop handleLine running round chunks client) := by
  induction size : chunks.flatten.length using Nat.strongRecOn
    generalizing round chunks client lines tail with
  | ind size inductionHypothesis =>
      rw [clientLoop]
      split
      · split
        · exact framed.settled
        next ch rest received =>
          have shorter := congrArg List.length (flatten_recv received)
          rw [List.length_cons] at shorter
          split
          next next stepped =>
            obtain ⟨lines, tail, nextFramed⟩ := (framed.receive stepped).2 rfl
            exact inductionHypothesis _ (by omega) nextFramed rfl
          next next stepped => exact (framed.receive stepped).1
      · exact framed.settled

/-- A byte is received whatever it does. -/
theorem received_receive {client next : Client σ} {ch : UInt8} {running : Bool}
    (stepped : receive handleLine client ch = (next, running)) :
    next.received = client.received ++ [ch] := by
  unfold receive at stepped
  simp only at stepped
  split at stepped
  · split at stepped
    · cases stepped
      rfl
    · cases stepped
      rfl
  · split at stepped
    · cases stepped
      rfl
    · cases stepped
      rfl

/-- Only a command without a response stops the process. -/
theorem receive_running {client next : Client σ} {ch : UInt8}
    (returns : ∀ server line, handleLine server line ≠ none) :
    receive handleLine client ch ≠ (next, false) := by
  intro stopped
  unfold receive at stopped
  simp only at stopped
  split at stopped
  · split at stopped
    next failed => exact returns _ _ failed
    next => cases stopped
  · split at stopped <;> cases stopped

/-- Without a stop, the loop receives the whole stream, whatever the chunks are. -/
theorem received_clientLoop {running : Nat → Bool} (always : ∀ round, running round = true)
    (returns : ∀ server line, handleLine server line ≠ none) (round : Nat) (chunks : List Bytes)
    (client : Client σ) :
    (clientLoop handleLine running round chunks client).received =
      client.received ++ chunks.flatten := by
  induction size : chunks.flatten.length using Nat.strongRecOn
    generalizing round chunks client with
  | ind size inductionHypothesis =>
      rw [clientLoop, if_pos (always round)]
      split
      next ended => rw [flatten_recv_none ended, List.append_nil]
      next ch rest received =>
        have whole := flatten_recv received
        have shorter := congrArg List.length whole
        rw [List.length_cons] at shorter
        split
        next next stepped =>
          rw [inductionHypothesis _ (by omega) _ _ _ rfl, received_receive stepped, whole,
            List.append_assoc]
          rfl
        next next stepped => exact absurd stepped (receive_running returns)

/-- What was received is a front of the stream. -/
theorem received_prefix {running : Nat → Bool} (round : Nat) (chunks : List Bytes)
    (client : Client σ) :
    (clientLoop handleLine running round chunks client).received <+:
      client.received ++ chunks.flatten := by
  induction size : chunks.flatten.length using Nat.strongRecOn
    generalizing round chunks client with
  | ind size inductionHypothesis =>
      rw [clientLoop]
      split
      · split
        · exact List.prefix_append _ _
        next ch rest received =>
          have whole := flatten_recv received
          have shorter := congrArg List.length whole
          rw [List.length_cons] at shorter
          have front : client.received ++ chunks.flatten =
              client.received ++ [ch] ++ rest.flatten := by
            rw [whole, List.append_assoc]
            rfl
          split
          next next stepped =>
            rw [front, ← received_receive stepped]
            exact inductionHypothesis _ (by omega) _ _ _ rfl
          next next stepped =>
            rw [front, ← received_receive stepped]
            exact List.prefix_append _ _
      · exact List.prefix_append _ _

/-! ## Whole lines -/

/-- On every stream, however it arrives, the loop handles exactly the whole lines if and
only if no ended line is beyond the limit. -/
theorem handled_iff (handleLine : σ → Bytes → Option (σ × Bytes)) (running : Nat → Bool)
    (chunks : List Bytes) (server : σ) :
    ((clientLoop handleLine running 0 chunks (accepted server)).handled =
        wholeLines (clientLoop handleLine running 0 chunks (accepted server)).received ↔
      ∀ line ∈ streamLines (clientLoop handleLine running 0 chunks (accepted server)).received,
        line.length ≤ lineLimit) ∧
    (clientLoop handleLine running 0 chunks (accepted server)).received <+: chunks.flatten ∧
    ((∀ round, running round = true) → (∀ server line, handleLine server line ≠ none) →
      (clientLoop handleLine running 0 chunks (accepted server)).received = chunks.flatten) := by
  have framed : Framed (accepted server) [] [] := by
    refine ⟨rfl, ?_, ?_, rfl, rfl⟩
    · exact fun line member => absurd member List.not_mem_nil
    · exact fun symbol member => absurd member List.not_mem_nil
  have settled := @settled_clientLoop σ handleLine running 0 chunks (accepted server) [] [] framed
  refine ⟨?_, received_prefix 0 chunks (accepted server), ?_⟩
  · unfold Settled at settled
    unfold wholeLines
    rw [settled]
    constructor
    · intro same line member
      have lengths := congrArg List.length same
      rw [List.length_map] at lengths
      exact of_decide_eq_true (List.length_filter_eq_length_iff.mp lengths.symm line member)
    · intro short
      rw [List.filter_eq_self.mpr (fun line member => decide_eq_true (short line member))]
      exact (List.map_congr_left fun line member => buffered_of_le (short line member)).trans
        (List.map_id _)
  · intro always returns
    exact received_clientLoop always returns 0 chunks (accepted server)

end Handled

/-- A line that is one byte longer than the limit in front of its last four bytes, `ping`. -/
def overlongLine : Bytes := List.replicate 4097 0x61 ++ [0x70, 0x69, 0x6E, 0x67]

/-- Its last four bytes are run as a command. -/
theorem handled_overlongLine :
    (clientLoop (fun (_ : Unit) _ => some ((), [])) (fun _ => true) 0 [overlongLine ++ [0x0A]]
      (accepted ())).handled = [[0x70, 0x69, 0x6E, 0x67]] ∧
    wholeLines (overlongLine ++ [0x0A]) = [] := by
  have oneLine : Text.OneLine isNewline overlongLine := by
    intro symbol member
    rcases List.mem_append.mp member with letter | command
    · rw [List.eq_of_mem_replicate letter]
      rfl
    · exact List.all_iff_forall_prop.mp (by decide : [0x70, 0x69, 0x6E, 0x67].all
        fun symbol => decide (isNewline symbol = false)) symbol command
  have shown : withoutReturns overlongLine = overlongLine := by
    unfold withoutReturns overlongLine
    rw [List.filter_append, List.filter_replicate_of_pos (by decide)]
    rfl
  have length : overlongLine.length = 4101 := by
    unfold overlongLine
    rw [List.length_append, List.length_replicate]
    rfl
  have lines : streamLines (overlongLine ++ [0x0A]) = [overlongLine] := by
    unfold streamLines
    rw [Text.endedLines_append_break oneLine rfl, List.map_cons, shown]
    rfl
  have framed : Framed (accepted ()) [] [] := by
    refine ⟨rfl, ?_, ?_, rfl, rfl⟩
    · exact fun line member => absurd member List.not_mem_nil
    · exact fun symbol member => absurd member List.not_mem_nil
  constructor
  · have settled := @settled_clientLoop Unit (fun _ _ => some ((), [])) (fun _ => true) 0
      [overlongLine ++ [0x0A]] (accepted ()) [] [] framed
    have received := @received_clientLoop Unit (fun _ _ => some ((), [])) (fun _ => true)
      (fun _ => rfl) (fun _ _ stopped => by cases stopped) 0 [overlongLine ++ [0x0A]] (accepted ())
    unfold Settled at settled
    have nothing : (accepted ()).received = [] := rfl
    rw [settled, received, List.flatten_singleton, nothing, List.nil_append, lines,
      List.map_singleton]
    have suffix : buffered overlongLine = [0x70, 0x69, 0x6E, 0x67] := by
      have whole : (lineLimit + 1) * (4101 / (lineLimit + 1)) = 4097 := by decide
      unfold buffered
      rw [length, whole]
      exact List.drop_left' List.length_replicate
    rw [suffix]
  · unfold wholeLines
    rw [lines]
    apply List.filter_eq_nil_iff.mpr
    intro line member
    rw [List.mem_singleton.mp member, length]
    decide

end StadiumRecomp.Debug
