import StadiumRecomp.Translate.Scan

/-!
Contract: the integer fields of `translations.json` on a target whose `long` has 32 bits.

Owns: the accumulation of digits as it can overflow, the numbers a text has, the reads that
the loader makes of them, and the table these numbers make.

Does not own: what becomes of a number behind the table.
-/

set_option autoImplicit false

namespace StadiumRecomp.Translate

open StadiumRecomp.Lib

/-! ## One number -/

/-- The largest `int`, and the largest `long` of 32 bits. -/
def intMax : Nat := 2 ^ 31 - 1

/-- `v * 10 + (s[p] - '0')`; no result when a step leaves `long`. -/
def pushDigit (v : Nat) (digit : UInt8) : Option Nat :=
  if v * 10 ≤ intMax ∧ v * 10 + (digit.toNat - 0x30) ≤ intMax then
    some (v * 10 + (digit.toNat - 0x30))
  else none

/-- Whether the number at the front of a field has a sign, and its digits. -/
def signedDigits (field : Bytes) : Bool × Bytes :=
  match field.dropWhile isBlank with
  | 0x2D :: rest => (true, rest.takeWhile CString.isDigit)
  | rest => (false, rest.takeWhile CString.isDigit)

/-- What digits add up to behind the value so far. -/
def digitsValue (v : Nat) (digits : Bytes) : Nat :=
  digits.foldl (fun value digit => value * 10 + (digit.toNat - 0x30)) v

/-- A magnitude with its sign. -/
def signed (negative : Bool) (v : Nat) : Int := if negative then -(v : Int) else v

/-- The integer written at the front of a field, if any. -/
def writtenInt? (field : Bytes) : Option Int :=
  let (negative, digits) := signedDigits field
  if digits.isEmpty then none else some (signed negative (digitsValue 0 digits))

/-- The same integer as `json_read_int` computes it; no result when a step overflows. -/
def readLong (field : Bytes) : Option (Option Int) :=
  let (negative, digits) := signedDigits field
  if digits.isEmpty then some none
  else (digits.foldlM pushDigit 0).map fun v => some (toInt32 (signed negative v))

theorem readInt?_eq (field : Bytes) : readInt? field = (writtenInt? field).map toInt32 := by
  have digits : readInt? field = if (signedDigits field).2.isEmpty then none
      else some (toInt32 (signed (signedDigits field).1 (digitsValue 0 (signedDigits field).2))) :=
    rfl
  rw [digits]
  unfold writtenInt?
  simp only
  split <;> rfl

theorem le_digitsValue (v : Nat) (digits : Bytes) : v ≤ digitsValue v digits := by
  induction digits generalizing v with
  | nil => exact Nat.le_refl v
  | cons digit rest inductionHypothesis =>
      have later := inductionHypothesis (v * 10 + (digit.toNat - 0x30))
      exact Nat.le_trans (by omega) later

/-- The accumulation stays in `long` exactly when its result does. -/
theorem foldlM_pushDigit (v : Nat) (digits : Bytes) : digits.foldlM pushDigit v =
    if digits = [] ∨ digitsValue v digits ≤ intMax then some (digitsValue v digits) else none := by
  induction digits generalizing v with
  | nil => rfl
  | cons digit rest inductionHypothesis =>
      have grows := le_digitsValue (v * 10 + (digit.toNat - 0x30)) rest
      have value : digitsValue v (digit :: rest) =
          digitsValue (v * 10 + (digit.toNat - 0x30)) rest := rfl
      rw [List.foldlM_cons, value]
      unfold pushDigit
      by_cases fits : v * 10 ≤ intMax ∧ v * 10 + (digit.toNat - 0x30) ≤ intMax
      · rw [if_pos fits]
        show rest.foldlM pushDigit (v * 10 + (digit.toNat - 0x30)) = _
        rw [inductionHypothesis]
        apply if_congr _ rfl rfl
        constructor
        · rintro (rfl | small)
          · exact Or.inr fits.2
          · exact Or.inr small
        · intro either
          exact Or.inr (either.resolve_left (List.cons_ne_nil _ _))
      · rw [if_neg fits, if_neg]
        · rfl
        · rintro (impossible | small)
          · cases impossible
          · omega

theorem natAbs_signed (negative : Bool) (v : Nat) : (signed negative v).natAbs = v := by
  cases negative <;> simp [signed]

theorem toInt32_of_natAbs_le {value : Int} (small : value.natAbs ≤ intMax) :
    toInt32 value = value := by
  have bound : intMax = 2147483647 := rfl
  unfold toInt32
  rw [Int.bmod_eq_of_le] <;> omega

/-- `json_read_int` yields the number in the text, unless its magnitude exceeds `long`. -/
theorem readLong_eq (field : Bytes) : readLong field =
    if ((writtenInt? field).getD 0).natAbs ≤ intMax then some (writtenInt? field) else none := by
  unfold readLong writtenInt?
  simp only
  by_cases empty : (signedDigits field).2.isEmpty = true
  · rw [if_pos empty, if_pos empty]
    rfl
  · have some_digits : (signedDigits field).2 ≠ [] := fun nothing => empty (by rw [nothing]; rfl)
    rw [if_neg empty, if_neg empty, foldlM_pushDigit, Option.getD_some, natAbs_signed,
      if_congr (or_iff_right some_digits) rfl rfl]
    split
    next small =>
      rw [Option.map_some, toInt32_of_natAbs_le (by rw [natAbs_signed]; exact small)]
    next => rfl

/-! ## The reads of a load -/

/-- A call of `json_read_int`: what follows the source string, where the entry ends in it, and
the field. -/
structure IntRead where
  data : Bytes
  stop : Nat
  name : String
deriving DecidableEq, Repr

namespace IntRead

/-- What stands behind the colon of the field, if the entry has the field. -/
def field (read : IntRead) : Option Bytes :=
  let name := quotedName read.name
  match Search.indexOf? name read.data with
  | none => none
  | some position =>
      if read.stop ≤ position then none
      else
        match Search.indexOf? [0x3A] (read.data.drop (position + name.length)) with
        | none => none
        | some colon =>
            let colon := position + name.length + colon
            if read.stop ≤ colon then none else some ((read.data.take read.stop).drop (colon + 1))

/-- The integer that the text has for the field, or the default. -/
def written (read : IntRead) : Int := (read.field.bind writtenInt?).getD (-1)

/-- What `json_read_int` yields; no result when a step overflows. -/
def machine (read : IntRead) : Option Int :=
  match read.field with
  | none => some (-1)
  | some field => (readLong field).map fun value => value.getD (-1)

/-- What the loader's model stores for the field. -/
def stored (read : IntRead) : Int := jsonReadInt read.data read.name read.stop (-1)

theorem stored_eq (read : IntRead) :
    read.stored = (read.field.bind readInt?).getD (-1) := by
  unfold stored jsonReadInt field
  simp only
  cases Search.indexOf? (quotedName read.name) read.data with
  | none => rfl
  | some position =>
      simp only
      by_cases beyond : read.stop ≤ position
      · rw [if_pos beyond, if_pos beyond]
        rfl
      · rw [if_neg beyond, if_neg beyond]
        cases Search.indexOf? [0x3A]
            (read.data.drop (position + (quotedName read.name).length)) with
        | none => rfl
        | some colon =>
            simp only
            split <;> rfl

theorem machine_eq (read : IntRead) :
    read.machine = if read.written.natAbs ≤ intMax then some read.written else none := by
  unfold machine written
  cases read.field with
  | none => rfl
  | some field =>
      simp only [Option.bind_some]
      rw [readLong_eq]
      cases writtenInt? field with
      | none => rfl
      | some value =>
          simp only [Option.getD_some]
          split <;> rfl

/-- A number in the range of `long` is stored as it is written. -/
theorem stored_of_small {read : IntRead} (small : read.written.natAbs ≤ intMax) :
    read.stored = read.written := by
  rw [stored_eq]
  unfold written at small ⊢
  cases found : read.field with
  | none => rfl
  | some field =>
      rw [found, Option.bind_some] at small
      rw [Option.bind_some, Option.bind_some, readInt?_eq]
      cases number : writtenInt? field with
      | none => rfl
      | some value =>
          rw [number] at small
          exact toInt32_of_natAbs_le small

end IntRead

/-- The fields a pass reads: none when no string opens in the entry. -/
def passReads (data : Bytes) (stop : Nat) : List IntRead :=
  match Search.indexOf? [quote] data with
  | none => []
  | some opening =>
      if stop ≤ opening then []
      else
        let rest := (jsonReadString (data.drop opening)).2
        let stop := stop - (data.length - rest.length)
        [⟨rest, stop, "orig_w"⟩, ⟨rest, stop, "fit_w"⟩]

def intReadsWithin : Nat → Bytes → List IntRead
  | 0, _ => []
  | passes + 1, data =>
      match Search.indexOf? srcToken data with
      | none => []
      | some position =>
          let data := data.drop (position + srcToken.length)
          passReads data (entryEnd data) ++ intReadsWithin passes (data.drop (entryEnd data))

/-- The calls of `json_read_int` in a load, in order. -/
def intReads (data : Bytes) : List IntRead := intReadsWithin data.length data

/-! ## The table as written -/

/-- One pass of the loop, by what it takes a field for. -/
def loadEntryWith (readInt : IntRead → Int) (data : Bytes) (stop : Nat) :
    Option (UInt64 × XlateVal) :=
  match Search.indexOf? [quote] data with
  | none => none
  | some opening =>
      if stop ≤ opening then none
      else
        let (hex, rest) := jsonReadString (data.drop opening)
        let bytes := hexBytes hex
        let stop := stop - (data.length - rest.length)
        let target := readTarget rest stop
        let origW := readInt ⟨rest, stop, "orig_w"⟩
        let fitW := readInt ⟨rest, stop, "fit_w"⟩
        if bytes ≠ [] ∧ target ≠ [] then some (pmsFnv1a bytes, ⟨target, origW, fitW⟩) else none

def loadEntriesWith (readInt : IntRead → Int) : Nat → Bytes → List (UInt64 × XlateVal)
  | 0, _ => []
  | passes + 1, data =>
      match Search.indexOf? srcToken data with
      | none => []
      | some position =>
          let data := data.drop (position + srcToken.length)
          (loadEntryWith readInt data (entryEnd data)).toList ++
            loadEntriesWith readInt passes (data.drop (entryEnd data))

/-- The table with the numbers of the text, of whatever size they are. -/
def writtenTable (data : Bytes) : Table :=
  Dict.writes [] (loadEntriesWith IntRead.written data.length data)

theorem loadEntriesWith_stored (passes : Nat) (data : Bytes) :
    loadEntriesWith IntRead.stored passes data = loadEntriesWithin passes data := by
  induction passes generalizing data with
  | zero => rfl
  | succ passes inductionHypothesis =>
      rw [loadEntriesWith, loadEntriesWithin]
      cases Search.indexOf? srcToken data with
      | none => rfl
      | some position =>
          simp only
          rw [inductionHypothesis]
          rfl

/-- A pass uses what its reads yield, and nothing else of them. -/
theorem loadEntryWith_congr {left right : IntRead → Int} {data : Bytes} {stop : Nat}
    (same : ∀ read ∈ passReads data stop, left read = right read) :
    loadEntryWith left data stop = loadEntryWith right data stop := by
  unfold passReads at same
  unfold loadEntryWith
  cases opens : Search.indexOf? [quote] data with
  | none => rfl
  | some opening =>
      rw [opens] at same
      simp only at same ⊢
      by_cases beyond : stop ≤ opening
      · rw [if_pos beyond, if_pos beyond]
      · rw [if_neg beyond] at same
        rw [if_neg beyond, if_neg beyond,
          same _ List.mem_cons_self, same _ (List.mem_cons_of_mem _ List.mem_cons_self)]

theorem loadEntriesWith_congr {left right : IntRead → Int} {passes : Nat} {data : Bytes}
    (same : ∀ read ∈ intReadsWithin passes data, left read = right read) :
    loadEntriesWith left passes data = loadEntriesWith right passes data := by
  induction passes generalizing data with
  | zero => rfl
  | succ passes inductionHypothesis =>
      rw [intReadsWithin] at same
      rw [loadEntriesWith, loadEntriesWith]
      cases found : Search.indexOf? srcToken data with
      | none => rfl
      | some position =>
          rw [found] at same
          simp only at same ⊢
          rw [loadEntryWith_congr fun read member => same read (List.mem_append_left _ member),
            inductionHypothesis fun read member => same read (List.mem_append_right _ member)]

/-- A text with small numbers only is loaded as it is written. -/
theorem loadTranslations_of_small {data : Bytes}
    (small : ∀ read ∈ intReads data, read.written.natAbs ≤ intMax) :
    loadTranslations data = writtenTable data := by
  unfold loadTranslations loadEntries writtenTable
  rw [← loadEntriesWith_stored,
    loadEntriesWith_congr fun read member => IntRead.stored_of_small (small read member)]

end StadiumRecomp.Translate
