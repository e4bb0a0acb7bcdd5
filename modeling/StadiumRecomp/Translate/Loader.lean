import Mathlib.Algebra.Group.Nat.Defs
import StadiumRecomp.Lib.CString
import StadiumRecomp.Lib.Dict
import StadiumRecomp.Lib.Search

/-!
Contract: how the runtime reads `translations.json`.

Owns: the content hash, the hexadecimal source bytes, the string and integer
scanners and the table `load_translations_locked` builds.

Does not own: file access, hot reload and the registration of text routines.
-/

set_option autoImplicit false

namespace StadiumRecomp.Translate

open StadiumRecomp.Lib

/-! ## Keys -/

/-- FNV-1a 64 over raw source bytes. -/
def pmsFnv1a (source : Bytes) : UInt64 :=
  source.foldl (fun hash byte => (hash ^^^ byte.toUInt64) * 1099511628211) 1469598103934665603

/-- One hexadecimal digit, `none` for -1. -/
def hexval (digit : UInt8) : Option UInt8 :=
  if 0x30 ≤ digit ∧ digit ≤ 0x39 then some (digit - 0x30)
  else if 0x61 ≤ digit ∧ digit ≤ 0x66 then some (digit - 0x61 + 10)
  else if 0x41 ≤ digit ∧ digit ≤ 0x46 then some (digit - 0x41 + 10)
  else none

/-- Pairs of digits; a last single digit is not read, a wrong digit fails. -/
def hexPairs : Bytes → Option Bytes
  | high :: low :: rest => do
      let high ← hexval high
      let low ← hexval low
      let tail ← hexPairs rest
      return (high <<< 4 ||| low) :: tail
  | _ => some []

/-- The source bytes of an entry, none at all when a digit is wrong. -/
def hexBytes (hex : Bytes) : Bytes := (hexPairs hex).getD []

/-! ## Scanners -/

def quote : UInt8 := 0x22
def backslash : UInt8 := 0x5C

/-- The byte an escape stands for. -/
def unescape (escaped : UInt8) : UInt8 :=
  if escaped = 0x6E then 0x0A else if escaped = 0x74 then 0x09 else escaped

/-- The content of a string up to its closing quote, and what follows that. -/
def readQuoted : Bytes → Bytes × Bytes
  | [] => ([], [])
  | byte :: rest =>
      if byte = quote then ([], rest)
      else if byte = backslash then
        match rest with
        | [] => ([byte], [])
        | escaped :: rest =>
            let (content, after) := readQuoted rest
            (unescape escaped :: content, after)
      else
        let (content, after) := readQuoted rest
        (byte :: content, after)

@[simp] theorem readQuoted_quote (rest : Bytes) : readQuoted (quote :: rest) = ([], rest) := by
  rw [readQuoted.eq_def]
  simp

@[simp] theorem readQuoted_escape (escaped : UInt8) (rest : Bytes) :
    readQuoted (backslash :: escaped :: rest) =
      (unescape escaped :: (readQuoted rest).1, (readQuoted rest).2) := by
  rw [readQuoted.eq_def]
  simp [show backslash ≠ quote by decide]

theorem readQuoted_byte {byte : UInt8} (notQuote : byte ≠ quote)
    (notBackslash : byte ≠ backslash) (rest : Bytes) :
    readQuoted (byte :: rest) = (byte :: (readQuoted rest).1, (readQuoted rest).2) := by
  rw [readQuoted.eq_def]
  simp [notQuote, notBackslash]

/-- `json_read_string` at the front of `data`: the string and what follows it. -/
def jsonReadString (data : Bytes) : Bytes × Bytes :=
  match data with
  | byte :: rest => if byte = quote then readQuoted rest else ([], data)
  | [] => ([], [])

def isBlank (byte : UInt8) : Bool := byte == 0x20 || byte == 0x09

/-- `(int)v` for a 32-bit `int`. -/
def toInt32 (value : Int) : Int := value.bmod (2 ^ 32)

/-- The integer at the front of `field`, if any. Digits add up without bound; the
`long` they are kept in overflows only beyond its range. -/
def readInt? (field : Bytes) : Option Int :=
  let field := field.dropWhile isBlank
  let (negative, digits) := match field with
    | 0x2D :: rest => (true, rest.takeWhile CString.isDigit)
    | rest => (false, rest.takeWhile CString.isDigit)
  if digits.isEmpty then none
  else
    let value : Nat :=
      digits.foldl (fun value digit => value * 10 + (digit.toNat - 0x30)) 0
    some (toInt32 (if negative then -(value : Int) else value))

/-- A name between quotes. -/
def quotedName (name : String) : Bytes := quote :: CString.bytesOf name ++ [quote]

/-- `json_read_int`, with positions counted from the front of `data`. -/
def jsonReadInt (data : Bytes) (key : String) (stop : Nat) (default : Int) : Int :=
  let name := quotedName key
  match Search.indexOf? name data with
  | none => default
  | some position =>
      if stop ≤ position then default
      else
        match Search.indexOf? [0x3A] (data.drop (position + name.length)) with
        | none => default
        | some colon =>
            let colon := position + name.length + colon
            if stop ≤ colon then default
            else (readInt? ((data.take stop).drop (colon + 1))).getD default

/-! ## The table -/

/-- `XlateVal`. -/
structure XlateVal where
  en : Bytes
  origW : Int
  fitW : Int
deriving DecidableEq, Repr

/-- `g_xlate`. -/
abbrev Table := Dict UInt64 XlateVal

def srcToken : Bytes := quotedName "src_hex"
def targetToken : Bytes := quotedName "target"

/-- The English of an entry, read from what follows its source string. `stop` is
where the entry ends. -/
def readTarget (data : Bytes) (stop : Nat) : Bytes :=
  match Search.indexOf? targetToken data with
  | none => []
  | some position =>
      if stop ≤ position then []
      else
        let behind := data.drop (position + targetToken.length)
        match Search.indexOf? [quote] behind with
        | none => []
        | some opening => (jsonReadString (behind.drop opening)).1

/-- One pass of the loop, over what follows a `"src_hex"`; `stop` is `entry_end`. -/
def loadEntry (data : Bytes) (stop : Nat) : Option (UInt64 × XlateVal) :=
  match Search.indexOf? [quote] data with
  | none => none
  | some opening =>
      if stop ≤ opening then none
      else
        let (hex, rest) := jsonReadString (data.drop opening)
        let bytes := hexBytes hex
        let stop := stop - (data.length - rest.length)
        let target := readTarget rest stop
        let origW := jsonReadInt rest "orig_w" stop (-1)
        let fitW := jsonReadInt rest "fit_w" stop (-1)
        if bytes ≠ [] ∧ target ≠ [] then some (pmsFnv1a bytes, ⟨target, origW, fitW⟩) else none

/-- Where the entry ends whose `"src_hex"` stands in front of `data`. -/
def entryEnd (data : Bytes) : Nat := (Search.indexOf? srcToken data).getD data.length

/-- The assignments of the loop, in order. Every pass consumes a `"src_hex"`, so
`data.length` passes are enough. -/
def loadEntriesWithin : Nat → Bytes → List (UInt64 × XlateVal)
  | 0, _ => []
  | passes + 1, data =>
      match Search.indexOf? srcToken data with
      | none => []
      | some position =>
          let data := data.drop (position + srcToken.length)
          (loadEntry data (entryEnd data)).toList ++
            loadEntriesWithin passes (data.drop (entryEnd data))

def loadEntries (data : Bytes) : List (UInt64 × XlateVal) := loadEntriesWithin data.length data

/-- `load_translations_locked`: `g_xlate` after reading the file. -/
def loadTranslations (data : Bytes) : Table := Dict.writes [] (loadEntries data)

end StadiumRecomp.Translate
