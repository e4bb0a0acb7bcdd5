import StadiumRecomp.Lib.CString
import StadiumRecomp.Lib.Outcome

/-!
Contract: `decompress` of `tools/test_yay0_oracle.py`.

Owns: the reads with their exceptions, the state of the loop, one round of it, and the
loop itself.

Does not own: what it prints, and where the blob comes from.
-/

set_option autoImplicit false

namespace StadiumRecomp.Yay0

open StadiumRecomp.Lib

/-! ## Reads -/

/-- The exceptions a read raises. -/
inductive Fault where
  | structError
  | indexError
deriving DecidableEq, Repr

abbrev Run := Except Fault

/-- `struct.unpack_from(">I", blob, pos)[0]`. -/
def unpackU32 (blob : Bytes) (pos : Nat) : Run Nat :=
  match blob.drop pos with
  | first :: second :: third :: last :: _ =>
      .ok (first.toNat * 0x1000000 + second.toNat * 0x10000 + third.toNat * 0x100 + last.toNat)
  | _ => .error .structError

/-- `struct.unpack_from(">H", blob, pos)[0]`. -/
def unpackU16 (blob : Bytes) (pos : Nat) : Run Nat :=
  match blob.drop pos with
  | first :: last :: _ => .ok (first.toNat * 0x100 + last.toNat)
  | _ => .error .structError

/-- A 32-bit word read as a signed integer. -/
def signed32 (word : Int) : Int := if word ≥ 0x80000000 then word - 0x100000000 else word

/-- `struct.unpack_from(">i", blob, pos)[0]`. -/
def unpackI32 (blob : Bytes) (pos : Nat) : Run Int := do
  let word ← unpackU32 blob pos
  return signed32 word

/-- `bytes[index]`; a negative index counts from the end. -/
def byteAt (bytes : Bytes) (index : Int) : Run UInt8 :=
  let index := if index < 0 then index + bytes.length else index
  if index < 0 then .error .indexError
  else
    match bytes[index.toNat]? with
    | some byte => .ok byte
    | none => .error .indexError

/-! ## The loop -/

structure State where
  out : Bytes
  bitPos : Nat
  linkPos : Nat
  chunkPos : Nat
  bitsLeft : Nat
  cur : Int
deriving DecidableEq, Repr

/-- A new bit word when the last one is used up. -/
def refill (blob : Bytes) (state : State) : Run State :=
  if state.bitsLeft = 0 then do
    let cur ← unpackI32 blob state.bitPos
    return { state with cur := cur, bitPos := state.bitPos + 4, bitsLeft := 32 }
  else .ok state

def literal (blob : Bytes) (state : State) : Run State := do
  let byte ← byteAt blob state.chunkPos
  return { state with out := state.out ++ [byte], chunkPos := state.chunkPos + 1 }

/-- `for _ in range(count)`. -/
def copyLoop : Nat → Int → Bytes → Run Bytes
  | 0, _, out => .ok out
  | count + 1, src, out => do
      let byte ← byteAt out (src - 1)
      copyLoop count (src + 1) (out ++ [byte])

/-- The count of a back-reference, and the chunk position behind it. -/
def countOf (blob : Bytes) (code chunkPos : Nat) : Run (Nat × Nat) :=
  let count := code >>> 12
  if count = 0 then do
    let byte ← byteAt blob chunkPos
    return (byte.toNat + 0x12, chunkPos + 1)
  else .ok (count + 2, chunkPos)

def backref (blob : Bytes) (state : State) : Run State := do
  let code ← unpackU16 blob state.linkPos
  let dist := code &&& 0xFFF
  let (count, chunkPos) ← countOf blob code state.chunkPos
  let src : Int := state.out.length - dist
  let out ← copyLoop count src state.out
  return { state with out := out, linkPos := state.linkPos + 2, chunkPos := chunkPos }

/-- A literal when the bit in front is set, else a back-reference. -/
def takeToken (blob : Bytes) (state : State) : Run State :=
  if state.cur < 0 then literal blob state else backref blob state

/-- `cur` for the next round. -/
def shiftCur (cur : Int) : Int := signed32 (cur * 2 % 0x100000000)

/-- One round of the loop. -/
def step (blob : Bytes) (state : State) : Run State := do
  let state ← refill blob state
  let state ← takeToken blob state
  return { state with cur := shiftCur state.cur, bitsLeft := state.bitsLeft - 1 }

/-! ## Every round produces -/

theorem length_copyLoop {count : Nat} {src : Int} {out final : Bytes}
    (copied : copyLoop count src out = .ok final) : final.length = out.length + count := by
  induction count generalizing src out with
  | zero =>
      cases copied
      rfl
  | succ count inductionHypothesis =>
      obtain ⟨byte, _, rest⟩ := Outcome.bind_eq_ok copied
      rw [inductionHypothesis rest, List.length_append, List.length_singleton]
      omega

theorem countOf_pos {blob : Bytes} {code chunkPos count chunkPos' : Nat}
    (read : countOf blob code chunkPos = .ok (count, chunkPos')) : 0 < count := by
  unfold countOf at read
  simp only at read
  split at read
  · obtain ⟨byte, _, finish⟩ := Outcome.bind_eq_ok read
    cases finish
    exact Nat.succ_pos _
  · cases read
    exact Nat.succ_pos _

theorem refill_out {blob : Bytes} {state next : State}
    (refilled : refill blob state = .ok next) : next.out = state.out := by
  unfold refill at refilled
  split at refilled
  · obtain ⟨cur, _, finish⟩ := Outcome.bind_eq_ok refilled
    cases finish
    rfl
  · cases refilled
    rfl

theorem literal_grows {blob : Bytes} {state next : State}
    (drawn : literal blob state = .ok next) : state.out.length < next.out.length := by
  obtain ⟨byte, _, finish⟩ := Outcome.bind_eq_ok drawn
  cases finish
  show state.out.length < (state.out ++ [byte]).length
  rw [List.length_append, List.length_singleton]
  exact Nat.lt_succ_self _

theorem backref_grows {blob : Bytes} {state next : State}
    (copied : backref blob state = .ok next) : state.out.length < next.out.length := by
  obtain ⟨code, _, rest⟩ := Outcome.bind_eq_ok copied
  obtain ⟨⟨count, chunkPos⟩, counted, rest⟩ := Outcome.bind_eq_ok rest
  obtain ⟨out, looped, finish⟩ := Outcome.bind_eq_ok rest
  cases finish
  have positive := countOf_pos counted
  have longer := length_copyLoop looped
  show state.out.length < out.length
  omega

theorem step_grows {blob : Bytes} {state next : State}
    (stepped : step blob state = .ok next) : state.out.length < next.out.length := by
  obtain ⟨filled, refilled, rest⟩ := Outcome.bind_eq_ok stepped
  obtain ⟨produced, taken, finish⟩ := Outcome.bind_eq_ok rest
  cases finish
  rw [← refill_out refilled]
  show filled.out.length < produced.out.length
  unfold takeToken at taken
  split at taken
  · exact literal_grows taken
  · exact backref_grows taken

/-- `while len(out) != dec_size`; no bytes for an overshoot. -/
def run (blob : Bytes) (decSize maxOut : Nat) (state : State) : Run (Option Bytes) :=
  if state.out.length = decSize then .ok (some state.out)
  else if state.out.length > decSize ∨ state.out.length > maxOut then .ok none
  else
    match _stepped : step blob state with
    | .error fault => .error fault
    | .ok next => run blob decSize maxOut next
termination_by maxOut + 1 - state.out.length
decreasing_by
  have grows := step_grows _stepped
  omega

/-- The default of `max_out`. -/
def defaultMaxOut : Nat := 16 * 1024 * 1024

/-- `decompress`. -/
def decompress (blob : Bytes) (maxOut : Nat) : Run (Option Bytes) := do
  let decSize ← unpackU32 blob 4
  let linkOff ← unpackU32 blob 8
  let chunkOff ← unpackU32 blob 0xC
  run blob decSize maxOut ⟨[], 0x10, linkOff, chunkOff, 0, 0⟩

end StadiumRecomp.Yay0
