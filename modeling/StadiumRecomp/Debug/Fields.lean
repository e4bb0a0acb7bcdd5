import StadiumRecomp.Lib.CString
import StadiumRecomp.Lib.Search

/-!
Contract: how `src/main/debug_server.cpp` reads a command line.

Owns: `trim`, the getters of fields, and `get_cmd`.

Does not own: `get_float`, and the commands.
-/

set_option autoImplicit false

namespace StadiumRecomp.Debug

open StadiumRecomp.Lib
open StadiumRecomp.Lib.Search

/-- `trim`. -/
def trim (s : Bytes) : Bytes := Text.strip CString.isSpace s

def isQuote (byte : UInt8) : Bool := byte == 0x22
def isColon (byte : UInt8) : Bool := byte == 0x3A

/-- The key between quotes. -/
def needle (key : Bytes) : Bytes := 0x22 :: (key ++ [0x22])

/-- What stands behind the first colon behind the first quoted key, where the getters read
their value; none where one of the two is missing. -/
def behindColon (body key : Bytes) : Option Bytes := do
  let p ← indexOf? (needle key) body
  let (_, rest) ← Text.splitFirst isColon (body.drop (p + (needle key).length))
  return rest

/-- `get_str`. -/
def getStr (body key : Bytes) : Bytes :=
  match behindColon body key with
  | none => []
  | some rest =>
      match Text.splitFirst isQuote rest with
      | none => []
      | some (_, text) =>
          match Text.splitFirst isQuote text with
          | none => []
          | some (value, _) => value

/-- `strtol` to base 10, where `long` has 32 bits. -/
def strtol (text : Bytes) : Int := max (-0x80000000) (min 0x7FFFFFFF (CString.atoi text))

/-- `get_int`. -/
def getInt (body key : Bytes) (dflt : Int) : Int :=
  match behindColon body key with
  | none => dflt
  | some rest => strtol rest

/-- `_strnicmp(v, word, strlen(word)) == 0` for a word in lower case. -/
def startsWithWord (v word : Bytes) : Bool := (v.take word.length).map CString.toLower == word

/-- `true`. -/
def trueWord : Bytes := [0x74, 0x72, 0x75, 0x65]

/-- `false`. -/
def falseWord : Bytes := [0x66, 0x61, 0x6C, 0x73, 0x65]

/-- `get_bool`. -/
def getBool (body key : Bytes) (dflt : Bool) : Bool :=
  match behindColon body key with
  | none => dflt
  | some rest =>
      let v := rest.dropWhile CString.isSpace
      if startsWithWord v trueWord || v.head? == some 0x31 then true
      else if startsWithWord v falseWord || v.head? == some 0x30 then false
      else dflt

/-- The characters that end a command word. -/
def isBreak (byte : UInt8) : Bool := byte == 0x20 || byte == 0x09 || byte == 0x0D || byte == 0x0A

/-- `cmd`. -/
def cmdKey : Bytes := [0x63, 0x6D, 0x64]

/-- `get_cmd`. -/
def getCmd (line : Bytes) : Bytes :=
  if line.head? = some 0x7B then getStr line cmdKey else line.takeWhile fun byte => !isBreak byte

end StadiumRecomp.Debug
