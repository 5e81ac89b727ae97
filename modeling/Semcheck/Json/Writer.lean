/-
  Writing JSON text, without blanks.

  Quotes, backslashes and control characters are escaped; all other characters
  stand for themselves.
-/
import Semcheck.Json.Basic
import Semcheck.Text

namespace Semcheck

namespace Json

/-- The lower-case hexadecimal digit of a number below 16. -/
def hexDigit (n : Nat) : Char :=
  Char.ofNat (if n < 10 then '0'.toNat + n else 'a'.toNat + (n - 10))

/-- A character inside a string. -/
def writeChar (c : Char) : List Char :=
  if c = '"' then ['\\', '"']
  else if c = '\\' then ['\\', '\\']
  else if c.toNat < 0x20 then
    ['\\', 'u', '0', '0', hexDigit (c.toNat / 16), hexDigit (c.toNat % 16)]
  else [c]

/-- A text between quotes. -/
def writeText (text : String) : String :=
  "\"" ++ String.ofList (text.toList.flatMap writeChar) ++ "\""

/-- A string; one without a text is written as half of a surrogate pair. -/
def writeString : Option String → String
  | some text => writeText text
  | none => "\"\\ud800\""

mutual

/-- The text of a value. -/
def write : Json → String
  | .null => "null"
  | .bool true => "true"
  | .bool false => "false"
  | .int value => toString value
  | .decimal literal => literal
  | .str text => writeString text
  | .arr items => "[" ++ joinWith "," (writeItems items) ++ "]"
  | .obj members => "\x7b" ++ joinWith "," (writeMembers members) ++ "\x7d"

def writeItems : List Json → List String
  | [] => []
  | item :: rest => item.write :: writeItems rest

def writeMembers : List (Option String × Json) → List String
  | [] => []
  | (key, value) :: rest => (writeString key ++ ":" ++ value.write) :: writeMembers rest

end

end Json

end Semcheck
