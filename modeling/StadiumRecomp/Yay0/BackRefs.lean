import StadiumRecomp.Yay0.Decompress
import StadiumRecomp.Yay0.Encoding

/-!
Contract: which blobs the oracle accepts, and what their back-references point at.

Owns: the tokens that the tables of a blob spell, whatever bytes they produce; the rounds a
run executes; the relation of the two; and when an accepted run stays inside its output.

Does not own: what the accepted bytes are.

A read before the start of the output counts from its end, so a back-reference that reaches
at most twice as far as the output is long finds a byte.
-/

set_option autoImplicit false

namespace StadiumRecomp.Yay0

open StadiumRecomp.Lib

/-! ## The tokens a blob spells -/

/-- Where the tables are read. -/
structure Cursor where
  bitPos : Nat
  linkPos : Nat
  chunkPos : Nat
  bitsLeft : Nat
  cur : Int
deriving DecidableEq, Repr

def State.cursor (state : State) : Cursor :=
  ⟨state.bitPos, state.linkPos, state.chunkPos, state.bitsLeft, state.cur⟩

def Cursor.with (cursor : Cursor) (out : Bytes) : State :=
  ⟨out, cursor.bitPos, cursor.linkPos, cursor.chunkPos, cursor.bitsLeft, cursor.cur⟩

/-- The cursor behind a token. -/
def Cursor.shifted (cursor : Cursor) : Cursor :=
  { cursor with cur := shiftCur cursor.cur, bitsLeft := cursor.bitsLeft - 1 }

/-- A new bit word when the last one is used up. -/
def Cursor.fill (blob : Bytes) (cursor : Cursor) : Run Cursor :=
  if cursor.bitsLeft = 0 then do
    let cur ← unpackI32 blob cursor.bitPos
    return { cursor with cur := cur, bitPos := cursor.bitPos + 4, bitsLeft := 32 }
  else .ok cursor

/-- The token at a filled cursor. -/
def Cursor.token (blob : Bytes) (cursor : Cursor) : Run (Token × Cursor) :=
  if cursor.cur < 0 then do
    let byte ← byteAt blob cursor.chunkPos
    return (.literal byte, { cursor with chunkPos := cursor.chunkPos + 1 })
  else do
    let code ← unpackU16 blob cursor.linkPos
    let (count, chunkPos) ← countOf blob code cursor.chunkPos
    return (.copy ((code &&& 0xFFF) + 1) count,
      { cursor with linkPos := cursor.linkPos + 2, chunkPos := chunkPos })

/-- The next token of the tables, and the cursor behind it. -/
def nextToken (blob : Bytes) (cursor : Cursor) : Run (Token × Cursor) := do
  let cursor ← cursor.fill blob
  let (token, cursor) ← cursor.token blob
  return (token, cursor.shifted)

/-- Distance and count of a back-reference are positive. -/
def Proper : Token → Prop
  | .literal _ => True
  | .copy distance count => 0 < distance ∧ 0 < count

theorem Proper.size_pos {token : Token} (proper : Proper token) : 0 < token.size := by
  cases token with
  | literal byte => exact Nat.one_pos
  | copy distance count => exact proper.2

theorem nextToken_proper {blob : Bytes} {cursor next : Cursor} {token : Token}
    (read : nextToken blob cursor = .ok (token, next)) : Proper token := by
  obtain ⟨filled, _, rest⟩ := Outcome.bind_eq_ok read
  obtain ⟨⟨found, behind⟩, taken, finish⟩ := Outcome.bind_eq_ok rest
  cases finish
  unfold Cursor.token at taken
  split at taken
  · obtain ⟨byte, _, finish⟩ := Outcome.bind_eq_ok taken
    cases finish
    trivial
  · obtain ⟨code, _, rest⟩ := Outcome.bind_eq_ok taken
    obtain ⟨⟨count, chunkPos⟩, counted, finish⟩ := Outcome.bind_eq_ok rest
    cases finish
    exact ⟨Nat.succ_pos _, countOf_pos counted⟩

/-- The tokens of the tables up to a total size; `none` where the tables end before it or
step over it. -/
def spelled (blob : Bytes) (decSize maxOut produced : Nat) (cursor : Cursor) :
    Option (List Token) :=
  if produced = decSize then some []
  else if produced > decSize ∨ produced > maxOut then none
  else
    match _read : nextToken blob cursor with
    | .error _ => none
    | .ok (token, next) =>
        (spelled blob decSize maxOut (produced + token.size) next).map (token :: ·)
termination_by maxOut + 1 - produced
decreasing_by
  have positive := (nextToken_proper _read).size_pos
  omega

/-- The cursor the header sets up. -/
def startCursor (linkOff chunkOff : Nat) : Cursor := ⟨0x10, linkOff, chunkOff, 0, 0⟩

/-- The tokens of a blob, up to the size in its header. -/
def tokensOf (blob : Bytes) (maxOut : Nat) : Option (List Token) :=
  match unpackU32 blob 4, unpackU32 blob 8, unpackU32 blob 0xC with
  | .ok decSize, .ok linkOff, .ok chunkOff =>
      spelled blob decSize maxOut 0 (startCursor linkOff chunkOff)
  | _, _, _ => none

/-! ## Reach -/

/-- A token whose copy finds a byte at every read, a read from the end included. -/
def Readable (produced : Nat) : Token → Prop
  | .literal _ => True
  | .copy distance _ => distance ≤ 2 * produced

/-- A token that points inside the output so far. -/
def Inside (produced : Nat) : Token → Prop
  | .literal _ => True
  | .copy distance _ => distance ≤ produced

instance (produced : Nat) : (token : Token) → Decidable (Readable produced token)
  | .literal _ => .isTrue trivial
  | .copy distance _ => Nat.decLe distance (2 * produced)

instance (produced : Nat) : (token : Token) → Decidable (Inside produced token)
  | .literal _ => .isTrue trivial
  | .copy distance _ => Nat.decLe distance produced

/-- Every token satisfies a condition on what the ones before it produce. -/
def Throughout (holds : Nat → Token → Prop) : Nat → List Token → Prop
  | _, [] => True
  | produced, token :: rest =>
      holds produced token ∧ Throughout holds (produced + token.size) rest

/-! ## Rounds -/

/-- What the token in front does to the output. -/
def place (token : Token) (out : Bytes) : Run Bytes :=
  match token with
  | .literal byte => .ok (out ++ [byte])
  | .copy distance count => copyLoop count (out.length - (distance - 1 : Nat)) out

theorem refill_eq (blob : Bytes) (state : State) :
    refill blob state = (state.cursor.fill blob).map (·.with state.out) := by
  unfold refill Cursor.fill
  by_cases used : state.bitsLeft = 0
  · have cursorUsed : state.cursor.bitsLeft = 0 := used
    rw [if_pos used, if_pos cursorUsed]
    show _ = Except.map _ (unpackI32 blob state.bitPos >>= _)
    cases unpackI32 blob state.bitPos <;> rfl
  · have cursorUnused : ¬ state.cursor.bitsLeft = 0 := used
    rw [if_neg used, if_neg cursorUnused]
    rfl

/-- A round reads its token from the tables and places it. -/
theorem takeToken_eq (blob : Bytes) (cursor : Cursor) (out : Bytes) :
    takeToken blob (cursor.with out) = (do
      let (token, next) ← cursor.token blob
      let placed ← place token out
      return next.with placed) := by
  unfold takeToken Cursor.token
  by_cases sign : cursor.cur < 0
  · have stateSign : (cursor.with out).cur < 0 := sign
    rw [if_pos sign, if_pos stateSign]
    show (byteAt blob cursor.chunkPos >>= _) = _
    cases byteAt blob cursor.chunkPos <;> rfl
  · have stateSign : ¬ (cursor.with out).cur < 0 := sign
    rw [if_neg sign, if_neg stateSign]
    show (unpackU16 blob cursor.linkPos >>= _) = _
    cases unpackU16 blob cursor.linkPos with
    | error fault => rfl
    | ok code =>
        show (countOf blob code cursor.chunkPos >>= _) =
          (countOf blob code cursor.chunkPos >>= _) >>= _
        cases countOf blob code cursor.chunkPos with
        | error fault => rfl
        | ok counted => rfl

theorem step_eq (blob : Bytes) (state : State) :
    step blob state = (do
      let (token, next) ← nextToken blob state.cursor
      let out ← place token state.out
      return next.with out) := by
  unfold step nextToken
  rw [refill_eq]
  cases state.cursor.fill blob with
  | error fault => rfl
  | ok filled =>
      show (takeToken blob (filled.with state.out) >>= _) = _
      rw [takeToken_eq]
      show ((filled.token blob >>= _) >>= _) = ((filled.token blob >>= _) >>= _)
      cases filled.token blob with
      | error fault => rfl
      | ok found =>
          show (place found.1 state.out >>= _) >>= _ = (place found.1 state.out >>= _)
          cases place found.1 state.out <;> rfl

/-! ## Reads that wrap -/

theorem byteAt_forward {bytes : Bytes} {position : Nat} (inside : position < bytes.length) :
    byteAt bytes (position : Int) = .ok bytes[position] := by
  unfold byteAt
  rw [if_neg (by omega : ¬ (position : Int) < 0)]
  simp only [Int.toNat_natCast, List.getElem?_eq_getElem inside]
  rw [if_neg (by omega)]

/-- A negative index counts from the end. -/
theorem byteAt_backward {bytes : Bytes} {index : Int} (negative : index < 0) :
    byteAt bytes index =
      if index + bytes.length < 0 then .error .indexError
      else byteAt bytes (index + bytes.length) := by
  unfold byteAt
  simp only [if_pos negative]
  by_cases beyond : index + (bytes.length : Int) < 0
  · rw [if_pos beyond, if_pos beyond]
  · rw [if_neg beyond, if_neg beyond]
    simp only [if_neg beyond]

theorem byteAt_ok {bytes : Bytes} {index : Int} (low : -(bytes.length : Int) ≤ index)
    (high : index < bytes.length) : ∃ byte, byteAt bytes index = .ok byte := by
  by_cases negative : index < 0
  · rw [byteAt_backward negative, if_neg (by omega),
      show index + (bytes.length : Int) = (index + bytes.length).toNat by omega,
      byteAt_forward (by omega)]
    exact ⟨_, rfl⟩
  · rw [show index = index.toNat by omega, byteAt_forward (by omega)]
    exact ⟨_, rfl⟩

/-- A read from the end finds a byte only when it does not step over the start. -/
theorem low_of_byteAt {bytes : Bytes} {index : Int} {byte : UInt8}
    (read : byteAt bytes index = .ok byte) : -(bytes.length : Int) ≤ index := by
  by_cases negative : index < 0
  · rw [byteAt_backward negative] at read
    split at read
    next => cases read
    next low => omega
  · omega

/-- The source moves as fast as the end, so the first read decides. -/
theorem copyLoop_ok {count : Nat} {src : Int} {out : Bytes}
    (low : -(out.length : Int) ≤ src - 1) (high : src - 1 < out.length) :
    ∃ final, copyLoop count src out = .ok final := by
  induction count generalizing src out with
  | zero => exact ⟨out, rfl⟩
  | succ count inductionHypothesis =>
      obtain ⟨byte, read⟩ := byteAt_ok low high
      have longer : (out ++ [byte]).length = out.length + 1 := by
        rw [List.length_append, List.length_singleton]
      obtain ⟨final, copied⟩ := @inductionHypothesis (src + 1) (out ++ [byte])
        (by omega) (by omega)
      refine ⟨final, ?_⟩
      rw [copyLoop, read]
      exact copied

theorem low_of_copyLoop {count : Nat} {src : Int} {out final : Bytes} (positive : 0 < count)
    (copied : copyLoop count src out = .ok final) : -(out.length : Int) ≤ src - 1 := by
  cases count with
  | zero => omega
  | succ count =>
      obtain ⟨byte, read, _⟩ := Outcome.bind_eq_ok copied
      exact low_of_byteAt read

theorem length_place {token : Token} {out placed : Bytes}
    (succeeded : place token out = .ok placed) : placed.length = out.length + token.size := by
  cases token with
  | literal byte =>
      cases succeeded
      exact List.length_append
  | copy distance count => exact length_copyLoop succeeded

theorem place_ok {token : Token} {out : Bytes} (proper : Proper token)
    (readable : Readable out.length token) : ∃ placed, place token out = .ok placed := by
  cases token with
  | literal byte => exact ⟨_, rfl⟩
  | copy distance count =>
      obtain ⟨positive, _⟩ := proper
      have reach : distance ≤ 2 * out.length := readable
      apply copyLoop_ok <;> omega

theorem readable_of_place {token : Token} {out placed : Bytes} (proper : Proper token)
    (succeeded : place token out = .ok placed) : Readable out.length token := by
  cases token with
  | literal byte => trivial
  | copy distance count =>
      obtain ⟨positive, some⟩ := proper
      have low := low_of_copyLoop some succeeded
      show distance ≤ 2 * out.length
      omega

/-! ## Executed rounds -/

/-- The loop goes on. -/
def Continues (decSize maxOut : Nat) (state : State) : Prop :=
  state.out.length ≠ decSize ∧ ¬ (state.out.length > decSize ∨ state.out.length > maxOut)

/-- From the first state, the run executes a round at the second. -/
inductive Executes (blob : Bytes) (decSize maxOut : Nat) : State → State → Prop
  | now {state : State} (continues : Continues decSize maxOut state) :
      Executes blob decSize maxOut state state
  | later {state next target : State} (continues : Continues decSize maxOut state)
      (stepped : step blob state = .ok next)
      (executes : Executes blob decSize maxOut next target) :
      Executes blob decSize maxOut state target

/-- The round at a state takes a back-reference that points so far back. -/
def RefersBack (blob : Bytes) (state : State) (distance : Nat) : Prop :=
  ∃ filled code, refill blob state = .ok filled ∧ ¬ filled.cur < 0 ∧
    unpackU16 blob filled.linkPos = .ok code ∧ distance = (code &&& 0xFFF) + 1

theorem run_eq (blob : Bytes) (decSize maxOut : Nat) (state : State) :
    run blob decSize maxOut state =
      if state.out.length = decSize then .ok (some state.out)
      else if state.out.length > decSize ∨ state.out.length > maxOut then .ok none
      else step blob state >>= run blob decSize maxOut := by
  rw [run]
  split
  · rfl
  split
  · rfl
  split
  next fault failed => rw [failed]; rfl
  next next stepped => rw [stepped]; rfl

theorem spelled_eq (blob : Bytes) (decSize maxOut produced : Nat) (cursor : Cursor) :
    spelled blob decSize maxOut produced cursor =
      if produced = decSize then some []
      else if produced > decSize ∨ produced > maxOut then none
      else
        match nextToken blob cursor with
        | .error _ => none
        | .ok (token, next) =>
            (spelled blob decSize maxOut (produced + token.size) next).map (token :: ·) := by
  rw [spelled]
  split
  · rfl
  split
  · rfl
  split
  next fault failed => rw [failed]
  next token next read => rw [read]

theorem step_inv {blob : Bytes} {state next : State} (stepped : step blob state = .ok next) :
    ∃ token, nextToken blob state.cursor = .ok (token, next.cursor) ∧
      place token state.out = .ok next.out := by
  rw [step_eq] at stepped
  obtain ⟨⟨token, cursor⟩, read, rest⟩ := Outcome.bind_eq_ok stepped
  obtain ⟨out, placed, finish⟩ := Outcome.bind_eq_ok rest
  cases finish
  exact ⟨token, read, placed⟩

theorem step_of_place {blob : Bytes} {state : State} {token : Token} {cursor : Cursor}
    {out : Bytes} (read : nextToken blob state.cursor = .ok (token, cursor))
    (placed : place token state.out = .ok out) : step blob state = .ok (cursor.with out) := by
  rw [step_eq, read]
  show (place token state.out >>= _) = _
  rw [placed]
  rfl

/-- The token that a referring round takes. -/
theorem refersBack_iff {blob : Bytes} {state : State} {token : Token} {cursor : Cursor}
    (read : nextToken blob state.cursor = .ok (token, cursor)) (distance : Nat) :
    RefersBack blob state distance ↔ ∃ count, token = .copy distance count := by
  obtain ⟨filled, refilled, rest⟩ := Outcome.bind_eq_ok read
  obtain ⟨⟨found, behind⟩, taken, finish⟩ := Outcome.bind_eq_ok rest
  cases finish
  have stateRefilled : refill blob state = .ok (filled.with state.out) := by
    rw [refill_eq, refilled]
    rfl
  unfold Cursor.token at taken
  constructor
  · intro ⟨other, code, otherRefilled, sign, code16, far⟩
    rw [stateRefilled] at otherRefilled
    cases otherRefilled
    have cursorSign : ¬ filled.cur < 0 := sign
    have cursorCode : unpackU16 blob filled.linkPos = .ok code := code16
    rw [if_neg cursorSign, cursorCode] at taken
    obtain ⟨_, same, rest⟩ := Outcome.bind_eq_ok taken
    cases same
    obtain ⟨⟨count, chunkPos⟩, _, finish⟩ := Outcome.bind_eq_ok rest
    cases finish
    rw [far]
    exact ⟨count, rfl⟩
  · intro ⟨count, copies⟩
    split at taken
    · obtain ⟨byte, _, finish⟩ := Outcome.bind_eq_ok taken
      cases finish
      cases copies
    next sign =>
      obtain ⟨code, code16, rest⟩ := Outcome.bind_eq_ok taken
      obtain ⟨counted, _, finish⟩ := Outcome.bind_eq_ok rest
      cases finish
      cases copies
      exact ⟨filled.with state.out, code, stateRefilled, sign, code16, rfl⟩

/-! ## Accepted runs -/

section Accepted

variable {blob : Bytes} {decSize maxOut : Nat}

/-- An accepted run has gone through the tokens of the tables and found a byte at every
read. -/
theorem readable_of_run {state : State} {bytes : Bytes}
    (accepted : run blob decSize maxOut state = .ok (some bytes)) :
    bytes.length = decSize ∧ ∃ tokens,
      spelled blob decSize maxOut state.out.length state.cursor = some tokens ∧
        Throughout Readable state.out.length tokens := by
  induction remaining : maxOut + 1 - state.out.length using Nat.strongRecOn generalizing state with
  | ind remaining inductionHypothesis =>
      rw [run_eq] at accepted
      rw [spelled_eq]
      by_cases ended : state.out.length = decSize
      · rw [if_pos ended] at accepted
        cases accepted
        rw [if_pos ended]
        exact ⟨ended, [], rfl, trivial⟩
      rw [if_neg ended] at accepted ⊢
      by_cases beyond : state.out.length > decSize ∨ state.out.length > maxOut
      · rw [if_pos beyond] at accepted
        cases accepted
      rw [if_neg beyond] at accepted ⊢
      obtain ⟨next, stepped, rest⟩ := Outcome.bind_eq_ok accepted
      obtain ⟨token, read, placed⟩ := step_inv stepped
      have grown := length_place placed
      have proper := nextToken_proper read
      have positive := proper.size_pos
      obtain ⟨full, tokens, found, readable⟩ := inductionHypothesis _ (by omega) rest rfl
      rw [grown] at found readable
      rw [read]
      simp only [found]
      exact ⟨full, token :: tokens, rfl, readable_of_place proper placed, readable⟩

theorem spelled_nil {produced : Nat} {cursor : Cursor}
    (found : spelled blob decSize maxOut produced cursor = some []) : produced = decSize := by
  rw [spelled_eq] at found
  split at found
  next ended => exact ended
  split at found
  · cases found
  split at found
  · cases found
  · rw [Option.map_eq_some_iff] at found
    obtain ⟨rest, _, same⟩ := found
    cases same

theorem spelled_cons {produced : Nat} {cursor : Cursor} {token : Token} {rest : List Token}
    (found : spelled blob decSize maxOut produced cursor = some (token :: rest)) :
    produced ≠ decSize ∧ ¬ (produced > decSize ∨ produced > maxOut) ∧
      ∃ next, nextToken blob cursor = .ok (token, next) ∧
        spelled blob decSize maxOut (produced + token.size) next = some rest := by
  rw [spelled_eq] at found
  split at found
  · cases found
  next running =>
    split at found
    · cases found
    next within =>
      split at found
      · cases found
      next head next read =>
        rw [Option.map_eq_some_iff] at found
        obtain ⟨tail, behind, same⟩ := found
        cases same
        exact ⟨running, within, next, read, behind⟩

/-- Tables whose every read finds a byte are accepted. -/
theorem run_of_readable {state : State} {tokens : List Token}
    (found : spelled blob decSize maxOut state.out.length state.cursor = some tokens)
    (readable : Throughout Readable state.out.length tokens) :
    ∃ bytes, run blob decSize maxOut state = .ok (some bytes) := by
  induction tokens generalizing state with
  | nil =>
      rw [run_eq, if_pos (spelled_nil found)]
      exact ⟨state.out, rfl⟩
  | cons token rest inductionHypothesis =>
      obtain ⟨running, within, cursor, read, behind⟩ := spelled_cons found
      obtain ⟨first, others⟩ := readable
      obtain ⟨out, placed⟩ := place_ok (nextToken_proper read) first
      rw [← length_place placed] at behind others
      rw [run_eq, if_neg running, if_neg within, step_of_place read placed]
      exact @inductionHypothesis (cursor.with out) behind others

/-- In a run through the tokens, every executed back-reference is inside when they are. -/
theorem inside_of_executes {start state : State} {tokens : List Token}
    (found : spelled blob decSize maxOut start.out.length start.cursor = some tokens)
    (inside : Throughout Inside start.out.length tokens)
    (executes : Executes blob decSize maxOut start state) {distance : Nat}
    (refers : RefersBack blob state distance) : distance ≤ state.out.length := by
  induction executes generalizing tokens with
  | now continues =>
      cases tokens with
      | nil => exact absurd (spelled_nil found) continues.1
      | cons token rest =>
          obtain ⟨_, _, cursor, read, _⟩ := spelled_cons found
          obtain ⟨count, copies⟩ := (refersBack_iff read distance).mp refers
          rw [copies] at inside
          exact inside.1
  | later continues stepped executes inductionHypothesis =>
      cases tokens with
      | nil => exact absurd (spelled_nil found) continues.1
      | cons token rest =>
          obtain ⟨_, _, cursor, read, behind⟩ := spelled_cons found
          obtain ⟨_, sameRead, placed⟩ := step_inv stepped
          rw [read] at sameRead
          cases sameRead
          have others := inside.2
          rw [← length_place placed] at behind others
          exact inductionHypothesis behind others refers

/-- And they are inside when every executed back-reference is. -/
theorem throughout_of_executes {start : State} {tokens : List Token}
    (found : spelled blob decSize maxOut start.out.length start.cursor = some tokens)
    (readable : Throughout Readable start.out.length tokens)
    (inside : ∀ state, Executes blob decSize maxOut start state →
      ∀ distance, RefersBack blob state distance → distance ≤ state.out.length) :
    Throughout Inside start.out.length tokens := by
  induction tokens generalizing start with
  | nil => trivial
  | cons token rest inductionHypothesis =>
      obtain ⟨running, within, cursor, read, behind⟩ := spelled_cons found
      obtain ⟨first, others⟩ := readable
      obtain ⟨out, placed⟩ := place_ok (nextToken_proper read) first
      have stepped := step_of_place read placed
      have head : Inside start.out.length token := by
        cases token with
        | literal byte => trivial
        | copy distance count =>
            apply inside start (.now ⟨running, within⟩)
            exact (refersBack_iff read distance).mpr ⟨count, rfl⟩
      rw [← length_place placed] at behind others
      have tail := @inductionHypothesis (cursor.with out) behind others
        (fun state executes => inside state (.later ⟨running, within⟩ stepped executes))
      refine ⟨head, ?_⟩
      rw [← length_place placed]
      exact tail

end Accepted

/-! ## What the oracle accepts -/

/-- The state in front of the first round. -/
def startState (linkOff chunkOff : Nat) : State := ⟨[], 0x10, linkOff, chunkOff, 0, 0⟩

/-- The call executes a round at the state. -/
def Round (blob : Bytes) (maxOut : Nat) (state : State) : Prop :=
  ∃ decSize linkOff chunkOff, unpackU32 blob 4 = .ok decSize ∧
    unpackU32 blob 8 = .ok linkOff ∧ unpackU32 blob 0xC = .ok chunkOff ∧
    Executes blob decSize maxOut (startState linkOff chunkOff) state

/-- What the oracle promises for a blob: the size of the header, back-references inside the
output, and no bytes for a blob with one before its start. -/
structure Sound (blob : Bytes) (maxOut : Nat) : Prop where
  size : ∀ bytes, decompress blob maxOut = .ok (some bytes) → unpackU32 blob 4 = .ok bytes.length
  inside : ∀ bytes, decompress blob maxOut = .ok (some bytes) →
    ∀ state, Round blob maxOut state →
      ∀ distance, RefersBack blob state distance → distance ≤ state.out.length
  rejects : ∀ state, Round blob maxOut state →
    ∀ distance, RefersBack blob state distance → state.out.length < distance →
      ∀ bytes, decompress blob maxOut ≠ .ok (some bytes)

theorem decompress_eq_some {blob bytes : Bytes} {maxOut : Nat}
    (accepted : decompress blob maxOut = .ok (some bytes)) :
    ∃ decSize linkOff chunkOff, unpackU32 blob 4 = .ok decSize ∧
      unpackU32 blob 8 = .ok linkOff ∧ unpackU32 blob 0xC = .ok chunkOff ∧
      run blob decSize maxOut (startState linkOff chunkOff) = .ok (some bytes) := by
  obtain ⟨decSize, size, rest⟩ := Outcome.bind_eq_ok accepted
  obtain ⟨linkOff, link, rest⟩ := Outcome.bind_eq_ok rest
  obtain ⟨chunkOff, chunk, ran⟩ := Outcome.bind_eq_ok rest
  exact ⟨decSize, linkOff, chunkOff, size, link, chunk, ran⟩

theorem tokensOf_eq_some {blob : Bytes} {maxOut : Nat} {tokens : List Token}
    (spells : tokensOf blob maxOut = some tokens) :
    ∃ decSize linkOff chunkOff, unpackU32 blob 4 = .ok decSize ∧
      unpackU32 blob 8 = .ok linkOff ∧ unpackU32 blob 0xC = .ok chunkOff ∧
      spelled blob decSize maxOut 0 (startCursor linkOff chunkOff) = some tokens := by
  unfold tokensOf at spells
  split at spells
  next decSize linkOff chunkOff size link chunk =>
    exact ⟨decSize, linkOff, chunkOff, size, link, chunk, spells⟩
  next => cases spells

theorem decompress_eq {blob : Bytes} {decSize linkOff chunkOff : Nat} (maxOut : Nat)
    (size : unpackU32 blob 4 = .ok decSize) (link : unpackU32 blob 8 = .ok linkOff)
    (chunk : unpackU32 blob 0xC = .ok chunkOff) :
    decompress blob maxOut = run blob decSize maxOut (startState linkOff chunkOff) := by
  unfold decompress
  rw [size, link, chunk]
  rfl

/-- The rounds of a call start behind the header that was read. -/
theorem Round.executes {blob : Bytes} {decSize linkOff chunkOff maxOut : Nat} {state : State}
    (round : Round blob maxOut state) (size : unpackU32 blob 4 = .ok decSize)
    (link : unpackU32 blob 8 = .ok linkOff) (chunk : unpackU32 blob 0xC = .ok chunkOff) :
    Executes blob decSize maxOut (startState linkOff chunkOff) state := by
  obtain ⟨_, _, _, sameSize, sameLink, sameChunk, executes⟩ := round
  rw [size] at sameSize
  rw [link] at sameLink
  rw [chunk] at sameChunk
  cases sameSize
  cases sameLink
  cases sameChunk
  exact executes

/-- The oracle keeps its promise for a blob exactly when its tables do not spell a complete
stream that only wrapped reads carry to its end. -/
theorem sound_iff (blob : Bytes) (maxOut : Nat) :
    Sound blob maxOut ↔ ∀ tokens, tokensOf blob maxOut = some tokens →
      Throughout Readable 0 tokens → Throughout Inside 0 tokens := by
  constructor
  · intro sound tokens spells readable
    obtain ⟨decSize, linkOff, chunkOff, size, link, chunk, found⟩ := tokensOf_eq_some spells
    obtain ⟨bytes, ran⟩ := @run_of_readable blob decSize maxOut (startState linkOff chunkOff)
      tokens found readable
    have accepted : decompress blob maxOut = .ok (some bytes) := by
      rw [decompress_eq maxOut size link chunk, ran]
    apply @throughout_of_executes blob decSize maxOut (startState linkOff chunkOff) tokens found
      readable
    intro state executes
    apply sound.inside bytes accepted state
    exact ⟨decSize, linkOff, chunkOff, size, link, chunk, executes⟩
  · intro condition
    have inside : ∀ bytes, decompress blob maxOut = .ok (some bytes) →
        ∀ state, Round blob maxOut state →
          ∀ distance, RefersBack blob state distance → distance ≤ state.out.length := by
      intro bytes accepted state round distance refers
      obtain ⟨decSize, linkOff, chunkOff, size, link, chunk, ran⟩ := decompress_eq_some accepted
      obtain ⟨_, tokens, found, readable⟩ := readable_of_run ran
      have spells : tokensOf blob maxOut = some tokens := by
        unfold tokensOf
        rw [size, link, chunk]
        exact found
      apply inside_of_executes found (condition tokens spells readable)
        (round.executes size link chunk) refers
    refine ⟨?_, inside, ?_⟩
    · intro bytes accepted
      obtain ⟨decSize, _, _, size, _, _, ran⟩ := decompress_eq_some accepted
      rw [(readable_of_run ran).1, size]
    · intro state round distance refers before bytes accepted
      exact absurd (inside bytes accepted state round distance refers) (Nat.not_le.mpr before)

/-- One literal, then a copy from one byte before the start of the output. -/
def wrappingBlob : Bytes :=
  [0x59, 0x61, 0x79, 0x30, 0, 0, 0, 4, 0, 0, 0, 0x14, 0, 0, 0, 0x16,
    0x80, 0, 0, 0, 0x10, 0x01, 0x41]

/-- In front of that copy. -/
def wrappingState : State := ⟨[0x41], 0x14, 0x14, 0x17, 31, 0⟩

theorem step_wrappingBlob : step wrappingBlob (startState 0x14 0x16) = .ok wrappingState := by
  decide

/-- The oracle accepts it as four bytes, the first two of which it has read from the end. -/
theorem not_sound_wrappingBlob :
    decompress wrappingBlob defaultMaxOut = .ok (some [0x41, 0x41, 0x41, 0x41]) ∧
      ¬ Sound wrappingBlob defaultMaxOut := by
  have running : ∀ out : Bytes, out.length < 4 →
      ¬ out.length = 4 ∧ ¬ (out.length > 4 ∨ out.length > defaultMaxOut) := by
    intro out short
    unfold defaultMaxOut
    omega
  have size : unpackU32 wrappingBlob 4 = .ok 4 := rfl
  have link : unpackU32 wrappingBlob 8 = .ok 0x14 := rfl
  have chunk : unpackU32 wrappingBlob 0xC = .ok 0x16 := rfl
  have first := running (startState 0x14 0x16).out (by decide)
  have second := running wrappingState.out (by decide)
  have accepted : decompress wrappingBlob defaultMaxOut =
      .ok (some [0x41, 0x41, 0x41, 0x41]) := by
    rw [decompress_eq defaultMaxOut size link chunk, run_eq, if_neg first.1, if_neg first.2,
      step_wrappingBlob]
    show run wrappingBlob 4 defaultMaxOut wrappingState = _
    rw [run_eq, if_neg second.1, if_neg second.2]
    show run wrappingBlob 4 defaultMaxOut ⟨[0x41, 0x41, 0x41, 0x41], 0x14, 0x16, 0x17, 30, 0⟩ = _
    rw [run_eq]
    rfl
  have round : Round wrappingBlob defaultMaxOut wrappingState :=
    ⟨4, 0x14, 0x16, size, link, chunk, .later first step_wrappingBlob (.now second)⟩
  have refers : RefersBack wrappingBlob wrappingState 2 :=
    ⟨wrappingState, 0x1001, rfl, by decide, rfl, rfl⟩
  refine ⟨accepted, fun sound => ?_⟩
  exact sound.rejects wrappingState round 2 refers (by decide) _ accepted

end StadiumRecomp.Yay0
