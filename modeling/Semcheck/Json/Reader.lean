/-
  Reading JSON text.

  The grammar is strict: no comments, no trailing commas, no byte order mark,
  no leading zeros or plus signs, no control characters inside strings, and
  nothing but blanks around the value.

  Every reader takes the remaining characters and returns what it read with the
  characters behind it.  Readers of nested values have a budget, which the
  length of the text provides: each use of the budget goes with a character.
-/
import Semcheck.Json.Basic

namespace Semcheck

namespace Json

/-- A reader of some part of a text. -/
abbrev Reader (α : Type) := List Char → Option (α × List Char)

def isBlank (c : Char) : Bool :=
  c = ' ' || c = '\n' || c = '\t' || c = '\r'

def skipBlanks (cs : List Char) : List Char :=
  cs.dropWhile isBlank

/-- The characters behind the given word. -/
def readWord : List Char → List Char → Option (List Char)
  | [], cs => some cs
  | w :: word, c :: cs => if w = c then readWord word cs else none
  | _ :: _, [] => none

/-! ## Strings -/

def hexValue (c : Char) : Option Nat :=
  if '0' ≤ c ∧ c ≤ '9' then some (c.toNat - '0'.toNat)
  else if 'a' ≤ c ∧ c ≤ 'f' then some (c.toNat - 'a'.toNat + 10)
  else if 'A' ≤ c ∧ c ≤ 'F' then some (c.toNat - 'A'.toNat + 10)
  else none

/-- The number written by four hexadecimal digits. -/
def hexValue4 (a b c d : Char) : Option Nat := do
  return 4096 * (← hexValue a) + 256 * (← hexValue b) + 16 * (← hexValue c) + (← hexValue d)

/-- What a one-letter escape stands for. -/
def escapeValue : Char → Option Nat
  | '"' => some 0x22
  | '\\' => some 0x5C
  | '/' => some 0x2F
  | 'b' => some 0x08
  | 'f' => some 0x0C
  | 'n' => some 0x0A
  | 'r' => some 0x0D
  | 't' => some 0x09
  | _ => none

/-- The code points of a string up to its closing quote.  An escape may stand
    for half of a surrogate pair. -/
def readCodes : Reader (List Nat)
  | '"' :: cs => some ([], cs)
  | '\\' :: 'u' :: a :: b :: c :: d :: cs => do
    let code ← hexValue4 a b c d
    let (codes, rest) ← readCodes cs
    return (code :: codes, rest)
  | '\\' :: e :: cs => do
    let code ← escapeValue e
    let (codes, rest) ← readCodes cs
    return (code :: codes, rest)
  | c :: cs =>
    if c.toNat < 0x20 ∨ c = '\\' then none
    else do
      let (codes, rest) ← readCodes cs
      return (c.toNat :: codes, rest)
  | [] => none

/-- The text with the given code points, in which surrogates are paired. -/
def decodeCodes : List Nat → Option (List Char)
  | [] => some []
  | code :: codes =>
    if 0xD800 ≤ code ∧ code < 0xDC00 then
      match codes with
      | low :: rest =>
        if 0xDC00 ≤ low ∧ low < 0xE000 then
          (decodeCodes rest).map (Char.ofNat (0x10000 + (code - 0xD800) * 0x400 + (low - 0xDC00)) :: ·)
        else none
      | [] => none
    else if 0xDC00 ≤ code ∧ code < 0xE000 then none
    else (decodeCodes codes).map (Char.ofNat code :: ·)

/-- The text of a string behind its opening quote. -/
def readString : Reader (Option String) := fun cs => do
  let (codes, rest) ← readCodes cs
  return ((decodeCodes codes).map String.ofList, rest)

/-! ## Numbers -/

/-- At least one digit. -/
def readDigits : Reader (List Char) := fun cs =>
  match cs.takeWhile Char.isDigit with
  | [] => none
  | digits => some (digits, cs.dropWhile Char.isDigit)

/-- The digits of an integer: one zero, or digits that start with another one. -/
def readInteger : Reader (List Char)
  | '0' :: cs => some (['0'], cs)
  | cs => readDigits cs

/-- A fraction, if there is one: its literal, empty if there is none. -/
def readFraction : Reader (List Char)
  | '.' :: cs => do
    let (digits, rest) ← readDigits cs
    return ('.' :: digits, rest)
  | cs => some ([], cs)

/-- An exponent, if there is one: its literal, empty if there is none. -/
def readExponent : Reader (List Char)
  | c :: cs =>
    if c = 'e' ∨ c = 'E' then
      match cs with
      | '+' :: cs => (readDigits cs).map fun (digits, rest) => (c :: '+' :: digits, rest)
      | '-' :: cs => (readDigits cs).map fun (digits, rest) => (c :: '-' :: digits, rest)
      | cs => (readDigits cs).map fun (digits, rest) => (c :: digits, rest)
    else some ([], c :: cs)
  | [] => some ([], [])

/-- The number written by decimal digits. -/
def digitsValue (digits : List Char) : Nat :=
  digits.foldl (fun n c => 10 * n + (c.toNat - '0'.toNat)) 0

/-- A number without its sign. -/
def readMagnitude (negative : Bool) : Reader Json := fun cs => do
  let (digits, cs) ← readInteger cs
  let (fraction, cs) ← readFraction cs
  let (exponent, cs) ← readExponent cs
  let n := digitsValue digits
  if fraction.isEmpty && exponent.isEmpty && !(negative && n = 0) then
    return (.int (if negative then -(n : Int) else n), cs)
  let literal := (if negative then ['-'] else []) ++ digits ++ fraction ++ exponent
  return (.decimal (String.ofList literal), cs)

/-! ## Values -/

/-- A value that is neither an array nor an object. -/
def readScalar : Reader Json
  | 'n' :: cs => (readWord ['u', 'l', 'l'] cs).map fun rest => (.null, rest)
  | 't' :: cs => (readWord ['r', 'u', 'e'] cs).map fun rest => (.bool true, rest)
  | 'f' :: cs => (readWord ['a', 'l', 's', 'e'] cs).map fun rest => (.bool false, rest)
  | '"' :: cs => (readString cs).map fun (text, rest) => (.str text, rest)
  | '-' :: cs => readMagnitude true cs
  | cs => readMagnitude false cs

mutual

/-- A value with blanks before it. -/
def readValue : Nat → Reader Json
  | 0, _ => none
  | budget + 1, cs =>
    match skipBlanks cs with
    | '[' :: cs =>
      match skipBlanks cs with
      | ']' :: rest => some (.arr [], rest)
      | cs => (readItems budget cs).map fun (items, rest) => (.arr items, rest)
    | '{' :: cs =>
      match skipBlanks cs with
      | '}' :: rest => some (.obj [], rest)
      | cs => (readMembers budget cs).map fun (members, rest) => (.obj members, rest)
    | cs => readScalar cs

/-- The items of an array that has some, and its closing bracket. -/
def readItems : Nat → Reader (List Json)
  | 0, _ => none
  | budget + 1, cs => do
    let (item, cs) ← readValue budget cs
    match skipBlanks cs with
    | ']' :: rest => return ([item], rest)
    | ',' :: cs =>
      let (items, rest) ← readItems budget cs
      return (item :: items, rest)
    | _ => none

/-- The members of an object that has some, and its closing brace. -/
def readMembers : Nat → Reader (List (Option String × Json))
  | 0, _ => none
  | budget + 1, cs =>
    match skipBlanks cs with
    | '"' :: cs => do
      let (key, cs) ← readString cs
      match skipBlanks cs with
      | ':' :: cs =>
        let (value, cs) ← readValue budget cs
        match skipBlanks cs with
        | '}' :: rest => return ([(key, value)], rest)
        | ',' :: cs =>
          let (members, rest) ← readMembers budget cs
          return ((key, value) :: members, rest)
        | _ => none
      | _ => none
    | _ => none

end

/-- The value a text consists of. -/
def parse (text : String) : Option Json :=
  let cs := text.toList
  match readValue (2 * cs.length + 2) cs with
  | some (value, rest) => if (skipBlanks rest).isEmpty then some value else none
  | none => none

end Json

end Semcheck
