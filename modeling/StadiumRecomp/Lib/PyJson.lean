import StadiumRecomp.Lib.Dict
import StadiumRecomp.Lib.PyInt

/-!
Contract: what `json.loads` accepts and returns.

Owns: JSON values as Python holds them, and the strict reader: control characters
end a string in error, `NaN` and the infinities are numbers, a later duplicate of a
key replaces the earlier one.

Does not own: number values, the nesting depth and digit limits of one Python
build, and decoding of the file.
-/

set_option autoImplicit false

namespace StadiumRecomp.Lib.PyJson

open StadiumRecomp.Lib
open StadiumRecomp.Lib.PyInt

/-- A Python string; `none` for one with an unpaired surrogate, which no encoder
writes. -/
abbrev PyString := Option Text

/-- A value. Numbers keep their literal, objects the order of their keys. -/
inductive Json where
  | null
  | bool (value : Bool)
  | number (literal : Text)
  | str (text : PyString)
  | arr (items : List Json)
  | obj (members : List (PyString × Json))

/-! ## Strings -/

/-- The code point of a `\u` escape, and of the escapes of one letter. -/
def hex4 (digits : List Char) : Option Nat :=
  digits.foldlM (fun value digit => (digitVal 16 digit).map (value * 16 + ·)) 0

def simpleEscape : Char → Option Nat
  | '"' => some 0x22
  | '\\' => some 0x5C
  | '/' => some 0x2F
  | 'b' => some 0x08
  | 'f' => some 0x0C
  | 'n' => some 0x0A
  | 'r' => some 0x0D
  | 't' => some 0x09
  | _ => none

/-- The code points of a string up to its closing quote, surrogates as they stand. -/
def codePoints : Text → Option (List Nat × Text)
  | [] => none
  | '"' :: rest => some ([], rest)
  | '\\' :: 'u' :: a :: b :: c :: d :: rest => do
      let point ← hex4 [a, b, c, d]
      let (points, after) ← codePoints rest
      return (point :: points, after)
  | '\\' :: escaped :: rest => do
      let point ← simpleEscape escaped
      let (points, after) ← codePoints rest
      return (point :: points, after)
  | symbol :: rest =>
      if symbol.toNat < 0x20 ∨ symbol = '\\' then none
      else do
        let (points, after) ← codePoints rest
        return (symbol.toNat :: points, after)

def isHigh (point : Nat) : Bool := 0xD800 ≤ point && point < 0xDC00
def isLow (point : Nat) : Bool := 0xDC00 ≤ point && point < 0xE000

/-- The text of code points whose surrogates all stand in pairs. -/
def joinSurrogates : List Nat → PyString
  | [] => some []
  | [point] => if isHigh point || isLow point then none else some [Char.ofNat point]
  | point :: next :: rest =>
      if isHigh point && isLow next then
        (joinSurrogates rest).map
          (Char.ofNat (0x10000 + (point - 0xD800) * 0x400 + (next - 0xDC00)) :: ·)
      else if isHigh point || isLow point then none
      else (joinSurrogates (next :: rest)).map (Char.ofNat point :: ·)

/-- A string behind its opening quote. -/
def string (text : Text) : Option (PyString × Text) :=
  (codePoints text).map (fun found => (joinSurrogates found.1, found.2))

/-! ## Values -/

def isSpace (symbol : Char) : Bool :=
  symbol == ' ' || symbol == '\t' || symbol == '\n' || symbol == '\r'

def skipSpace (text : Text) : Text := text.dropWhile isSpace

def isDigit (symbol : Char) : Bool := (digitVal 10 symbol).isSome

/-- A run of at least one digit. -/
def digits (text : Text) : Option (Text × Text) :=
  let run := text.takeWhile isDigit
  if run.isEmpty then none else some (run, text.dropWhile isDigit)

/-- An optional part of a number. -/
def orEmpty (part : Option (Text × Text)) (text : Text) : Text × Text := part.getD ([], text)

def integerPart : Text → Option (Text × Text)
  | '0' :: rest => some (['0'], rest)
  | text => digits text

def fraction : Text → Option (Text × Text)
  | '.' :: rest => (digits rest).map (fun found => ('.' :: found.1, found.2))
  | _ => none

def exponent : Text → Option (Text × Text)
  | mark :: rest =>
      if mark = 'e' ∨ mark = 'E' then
        match rest with
        | '+' :: rest => (digits rest).map (fun found => (mark :: '+' :: found.1, found.2))
        | '-' :: rest => (digits rest).map (fun found => (mark :: '-' :: found.1, found.2))
        | rest => (digits rest).map (fun found => (mark :: found.1, found.2))
      else none
  | [] => none

/-- A number at the front of the text. -/
def number (text : Text) : Option (Json × Text) := do
  let (sign, unsigned) : Text × Text := match text with
    | '-' :: rest => (['-'], rest)
    | rest => ([], rest)
  let (whole, rest) ← integerPart unsigned
  let (part, rest) := orEmpty (fraction rest) rest
  let (power, rest) := orEmpty (exponent rest) rest
  return (.number (sign ++ whole ++ part ++ power), rest)

mutual

/-- A value at the front of the text. Every nested value is behind a bracket, so
the length of the text is depth enough. -/
def value : Nat → Text → Option (Json × Text)
  | 0, _ => none
  | depth + 1, text =>
      match text with
      | '"' :: rest => (string rest).map (fun found => (.str found.1, found.2))
      | '{' :: rest =>
          match skipSpace rest with
          | '}' :: after => some (.obj [], after)
          | inside => members depth inside []
      | '[' :: rest =>
          match skipSpace rest with
          | ']' :: after => some (.arr [], after)
          | inside => elements depth inside []
      | 'n' :: 'u' :: 'l' :: 'l' :: after => some (.null, after)
      | 't' :: 'r' :: 'u' :: 'e' :: after => some (.bool true, after)
      | 'f' :: 'a' :: 'l' :: 's' :: 'e' :: after => some (.bool false, after)
      | 'N' :: 'a' :: 'N' :: after => some (.number ['N', 'a', 'N'], after)
      | 'I' :: 'n' :: 'f' :: 'i' :: 'n' :: 'i' :: 't' :: 'y' :: after =>
          some (.number (Text.ascii "Infinity"), after)
      | '-' :: 'I' :: 'n' :: 'f' :: 'i' :: 'n' :: 'i' :: 't' :: 'y' :: after =>
          some (.number (Text.ascii "-Infinity"), after)
      | text => number text

/-- The members of an object from its first key on. -/
def members : Nat → Text → List (PyString × Json) → Option (Json × Text)
  | 0, _, _ => none
  | depth + 1, text, found => do
      let '"' :: rest := text | none
      let (key, after) ← string rest
      let ':' :: rest := skipSpace after | none
      let (item, after) ← value depth (skipSpace rest)
      let found := Dict.set found key item
      match skipSpace after with
      | ',' :: rest => members depth (skipSpace rest) found
      | '}' :: rest => some (.obj found, rest)
      | _ => none

/-- The elements of an array from its first one on. -/
def elements : Nat → Text → List Json → Option (Json × Text)
  | 0, _, _ => none
  | depth + 1, text, found => do
      let (item, after) ← value depth text
      match skipSpace after with
      | ',' :: rest => elements depth (skipSpace rest) (found ++ [item])
      | ']' :: rest => some (.arr (found ++ [item]), rest)
      | _ => none

end

/-- `json.loads`, `none` where it raises `ValueError`. -/
def loads (text : Text) : Option Json := do
  let (item, after) ← value (text.length + 1) (skipSpace text)
  if (skipSpace after).isEmpty then some item else none

/-- `members.get(key)` for a key of ASCII letters. -/
def get? (members : List (PyString × Json)) (key : String) : Option Json :=
  Dict.get? members (some (Text.ascii key))

end StadiumRecomp.Lib.PyJson
