/-
  Settings files in TOML.

  A settings file has one setting in a line, `key = value`, where the value is
  a flag or an integer; nothing else of TOML can be a setting.  Blank lines and
  comments are allowed.  `Config.ofToml?` gives no configuration for a text
  that is not of this form.
-/
import Semcheck.Config.Basic

namespace Semcheck

namespace Toml

/-! ## Characters -/

def isBlank (c : Char) : Bool := c = ' ' || c = '\t'

def skipBlanks (cs : List Char) : List Char := cs.dropWhile isBlank

/-- A character that a comment may hold: no control character except a tab. -/
def isComment (c : Char) : Bool := c = '\t' || (0x20 ≤ c.toNat && c.toNat ≠ 0x7F)

/-- The value of a digit in a base up to sixteen. -/
def digit? (base : Nat) (c : Char) : Option Nat :=
  let value :=
    if '0' ≤ c && c ≤ '9' then some (c.toNat - '0'.toNat)
    else if 'a' ≤ c && c ≤ 'f' then some (c.toNat - 'a'.toNat + 10)
    else if 'A' ≤ c && c ≤ 'F' then some (c.toNat - 'A'.toNat + 10)
    else none
  value.filter fun d => d < base

/-! ## Keys -/

/-- A character of a key that is not quoted. -/
def isBareKey (c : Char) : Bool := c.isAlphanum || c = '_' || c = '-'

/-- The character with the code point that the hexadecimal digits give. -/
def charOfHex? (digits : List Char) : Option Char := do
  let values ← digits.mapM (digit? 16)
  let code := values.foldl (fun n d => 16 * n + d) 0
  if code.isValidChar then some (Char.ofNat code) else none

/-- The text up to the closing double quote and what follows.  An escape may
    give a character by its code point; the other escapes are for characters
    that no key has. -/
def quotedKey : List Char → Option (List Char × List Char)
  | [] => none
  | '\x22' :: rest => some ([], rest)
  | '\\' :: 'u' :: a :: b :: c :: d :: rest => do
    let char ← charOfHex? [a, b, c, d]
    let (text, rest) ← quotedKey rest
    return (char :: text, rest)
  | '\\' :: 'U' :: a :: b :: c :: d :: e :: f :: g :: h :: rest => do
    let char ← charOfHex? [a, b, c, d, e, f, g, h]
    let (text, rest) ← quotedKey rest
    return (char :: text, rest)
  | c :: rest => do
    if c = '\\' || !isComment c then none
    let (text, rest) ← quotedKey rest
    return (c :: text, rest)

/-- The key at the front and what follows. -/
def key? (cs : List Char) : Option (String × List Char) :=
  match cs with
  | '\x22' :: rest => do
    let (text, rest) ← quotedKey rest
    return (String.ofList text, rest)
  | '\x27' :: rest =>
    match rest.span fun c => c ≠ '\x27' && isComment c with
    | (text, '\x27' :: rest) => some (String.ofList text, rest)
    | _ => none
  | cs =>
    match cs.span isBareKey with
    | ([], _) => none
    | (text, rest) => some (String.ofList text, rest)

/-! ## Values -/

/-- The number that digits give; a single underscore may stand between two
    digits. -/
def digits? (base : Nat) : List Char → Option Nat
  | [] => none
  | c :: rest => do more (← digit? base c) rest
where
  more (n : Nat) : List Char → Option Nat
    | [] => some n
    | '_' :: c :: rest => do more (base * n + (← digit? base c)) rest
    | c :: rest => do more (base * n + (← digit? base c)) rest

/-- A decimal number; zero is the only one that starts with a zero. -/
def decimal? : List Char → Option Nat
  | ['0'] => some 0
  | '0' :: _ => none
  | cs => digits? 10 cs

/-- An integer, before the range is checked. -/
def integer? : List Char → Option Int
  | '0' :: 'x' :: cs => (digits? 16 cs).map Int.ofNat
  | '0' :: 'o' :: cs => (digits? 8 cs).map Int.ofNat
  | '0' :: 'b' :: cs => (digits? 2 cs).map Int.ofNat
  | '+' :: cs => (decimal? cs).map Int.ofNat
  | '-' :: cs => (decimal? cs).map fun n => -Int.ofNat n
  | cs => (decimal? cs).map Int.ofNat

/-- A flag, or an integer of 64 bits. -/
def value? (cs : List Char) : Option Config.Setting :=
  if cs = "true".toList then some (.flag true)
  else if cs = "false".toList then some (.flag false)
  else do
    let n ← integer? cs
    if Int64.minValue.toInt ≤ n ∧ n ≤ Int64.maxValue.toInt then some (.number n) else none

/-! ## Lines -/

/-- Nothing follows but blanks and a comment. -/
def isEnd (cs : List Char) : Bool :=
  match skipBlanks cs with
  | [] => true
  | '#' :: comment => comment.all isComment
  | _ => false

/-- Split at the first blank or comment. -/
def word (cs : List Char) : List Char × List Char :=
  cs.span fun c => !isBlank c && c ≠ '#'

/-- The setting in a line; a line may have none. -/
def line? (line : List Char) : Option (Option (String × Config.Setting)) :=
  if isEnd line then some none
  else do
    let (key, rest) ← key? (skipBlanks line)
    match skipBlanks rest with
    | '=' :: rest =>
      let (text, rest) := word (skipBlanks rest)
      let value ← value? text
      if isEnd rest then some (some (key, value)) else none
    | _ => none

/-- A line that ends with a line feed may have a carriage return before it. -/
def dropReturn (line : List Char) : List Char :=
  if line.getLast? = some '\r' then line.dropLast else line

/-- The first line of a text, and the other lines. -/
def splitLines : List Char → List Char × List (List Char)
  | [] => ([], [])
  | c :: cs =>
    let (first, others) := splitLines cs
    if c = '\n' then ([], first :: others) else (c :: first, others)

/-- Drop the line ends; the last line has none. -/
def dropReturns : List (List Char) → List (List Char)
  | [] => []
  | [last] => [last]
  | line :: rest => dropReturn line :: dropReturns rest

/-- The lines of a text, without line ends. -/
def lines (cs : List Char) : List (List Char) :=
  let (first, others) := splitLines cs
  dropReturns (first :: others)

/-- The text without a byte order mark. -/
def dropMark : List Char → List Char
  | c :: rest => if c.toNat = 0xFEFF then rest else c :: rest
  | [] => []

def settings? (text : String) : Option (List (String × Config.Setting)) := do
  let entries ← (lines (dropMark text.toList)).mapM line?
  return entries.filterMap fun entry => entry

end Toml

/-- The configuration that a settings file gives. -/
def Config.ofToml? (text : String) : Option Config := do
  Config.ofSettings? (← Toml.settings? text)

end Semcheck
