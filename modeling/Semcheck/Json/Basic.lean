/-
  JSON values.

  Members of an object keep their order, and a key may occur more than once.
  The text of a string is missing if its escapes denote no text, that is, if
  they leave half of a surrogate pair unpaired.  A number is an integer if it
  is written as one: `1.0`, `1e2` and `-0` are not.

  `Json.record` and `Json.variant` read the two shapes that records and
  alternatives have: a record is an object with its fields by name, or a list of
  its fields in order; an alternative is an object with one member.
-/
namespace Semcheck

inductive Json where
  | null
  | bool (value : Bool)
  | int (value : Int)
  /-- A number that is not written as an integer, as it is written. -/
  | decimal (literal : String)
  | str (text : Option String)
  | arr (items : List Json)
  | obj (members : List (Option String × Json))

namespace Json

def text (s : String) : Json := .str (some s)

def object (members : List (String × Json)) : Json :=
  .obj (members.map fun m => (some m.1, m.2))

def nat (n : Nat) : Json := .int n

/-- The value of an option, or `null`. -/
def ofOption {α : Type} (encode : α → Json) : Option α → Json
  | none => .null
  | some a => encode a

/-! ## Depth -/

mutual

/-- How deep arrays and objects are nested. -/
def depth : Json → Nat
  | .arr items => 1 + depthOfItems items
  | .obj members => 1 + depthOfMembers members
  | _ => 0

def depthOfItems : List Json → Nat
  | [] => 0
  | item :: rest => max item.depth (depthOfItems rest)

def depthOfMembers : List (Option String × Json) → Nat
  | [] => 0
  | (_, value) :: rest => max value.depth (depthOfMembers rest)

end

/-! ## Equality -/

mutual

def isSame : Json → Json → Bool
  | .null, .null => true
  | .bool a, .bool b => a = b
  | .int a, .int b => a = b
  | .decimal a, .decimal b => a = b
  | .str a, .str b => a = b
  | .arr xs, .arr ys => sameItems xs ys
  | .obj xs, .obj ys => sameMembers xs ys
  | _, _ => false

def sameItems : List Json → List Json → Bool
  | [], [] => true
  | x :: xs, y :: ys => x.isSame y && sameItems xs ys
  | _, _ => false

def sameMembers : List (Option String × Json) → List (Option String × Json) → Bool
  | [], [] => true
  | (k, x) :: xs, (l, y) :: ys => k = l && x.isSame y && sameMembers xs ys
  | _, _ => false

end

/-! ## Reading parts -/

def bool? : Json → Option Bool
  | .bool b => some b
  | _ => none

/-- An integer in the range of 32-bit words. -/
def word? : Json → Option UInt32
  | .int i => if 0 ≤ i ∧ i.toNat < UInt32.size then some (UInt32.ofNat i.toNat) else none
  | _ => none

/-- An integer in the range of signed 64-bit words. -/
def int64? : Json → Option Int64
  | .int i => 
    if Int64.minValue.toInt ≤ i ∧ i ≤ Int64.maxValue.toInt then some (Int64.ofInt i) else none
  | _ => none

/-- An integer in the range of unsigned 64-bit words. -/
def nat64? : Json → Option Nat
  | .int i => if 0 ≤ i ∧ i.toNat < UInt64.size then some i.toNat else none
  | _ => none

def text? : Json → Option String
  | .str text => text
  | _ => none

def items? : Json → Option (List Json)
  | .arr items => some items
  | _ => none

/-- The value of the member with the given key, if there is one; the key may
    occur only once. -/
def member? (key : String) (members : List (Option String × Json)) : Option (Option Json) :=
  match members.filter fun m => m.1 = some key with
  | [] => some none
  | [m] => some (some m.2)
  | _ => none

/-- The values of the given fields, where a field may be missing: by name from
    an object, of which other members are ignored, or in order from a list that
    is not longer.  Every key of the object must have a text. -/
def record (keys : List String) : Json → Option (List (Option Json))
  | .obj members =>
    if members.all fun m => m.1.isSome then keys.mapM fun key => member? key members else none
  | .arr items =>
    if items.length ≤ keys.length then
      some (items.map some ++ List.replicate (keys.length - items.length) none)
    else none
  | _ => none

/-- A record that has to be an object. -/
def objectRecord (keys : List String) : Json → Option (List (Option Json))
  | .obj members => record keys (.obj members)
  | _ => none

/-- The key and the value of an object with one member. -/
def variant? : Json → Option (String × Json)
  | .obj [(some key, value)] => some (key, value)
  | _ => none

/-- Read an option: `null` and a missing value are no value. -/
def option? {α : Type} (decode : Json → Option α) : Option Json → Option (Option α)
  | none | some .null => some none
  | some json => (decode json).map some

/-- Read a flag that is off unless it is given. -/
def flag? : Option Json → Option Bool
  | none => some false
  | some json => json.bool?

end Json

end Semcheck
