/-
  Places: what can be read, assigned to, or have its address taken.

  A place is a local, a field of a place, or what a pointer points to.  The
  steps here take the place of the part that comes first (the record of a
  field, the pointer) and give the place of the whole.
-/
import Semcheck.Lower.Body

namespace Semcheck

/-- A location that holds a value. -/
structure Place where
  access : Access
  type : Ty
  mutable : Bool
  /-- The location was made for a value that had none. -/
  temporary : Bool
  /-- The index of the local, if the place is a whole local. -/
  localIndex : Option Nat

/-- What a place is wanted for. -/
inductive Purpose where
  | read
  | assign
  | address
deriving DecidableEq

/-- The index that a field name such as `0` stands for in a tuple: decimal
    digits, after an optional plus sign. -/
def tupleIndex? (field : String) : Option Nat :=
  match field.toList with
  | '+' :: digits => digitsIndex? digits
  | digits => digitsIndex? digits
where
  digitsIndex? (digits : List Char) : Option Nat :=
    if digits.isEmpty || !digits.all Char.isDigit then none
    else some (digits.foldl (fun n c => 10 * n + (c.toNat - '0'.toNat)) 0)

namespace Lower

/-! ## Locals -/

/-- The last of the locals with the given name, and its index. -/
def findLocal (name : String) (locals : List Local) : Option (Nat × Local) :=
  (locals.zipIdx.reverse.find? fun entry => entry.1.name = name).map fun entry => (entry.2, entry.1)

/-- The local that a path names: a single segment without a leading `::`. -/
def lookupLocal (path : Path) : Lower (Option (Nat × Local)) := do
  match path.single? with
  | none => return none
  | some name => return findLocal name.text (← get).locals

/-- The place of a local.  The first assignment gives an immutable local its
    value, unless a loop may repeat it. -/
def localPlace (index : Nat) (l : Local) (purpose : Purpose) (span : Location) : Lower Place := do
  if !l.assigned.definite && purpose ≠ .assign then
    fail .uninitializedLocal (ticked l.name ++ " is used before it is assigned") span
  let depth := (← get).loopDepth
  return {
    access := .register l.register
    type := ← registerType l.register
    mutable := l.mutable || (!l.assigned.possible && l.loopDepth == depth)
    temporary := false
    localIndex := some index
  }

/-- The place that a path names, if it names a local. -/
def namedPlace (path : Path) (purpose : Purpose) (span : Location) : Lower (Option Place) := do
  match ← lookupLocal path with
  | none => return none
  | some (index, l) => return some (← localPlace index l purpose span)

/-! ## Parts of places -/

/-- A place for a value: the place that the expression denotes, or else a
    temporary into which the value is lowered. -/
def placeOrTemp (cx : Context) (span : Location) (place : Lower (Option Place))
    (value : Access → Lower Unit) : Lower Place := do
  match ← place with
  | some p => return p
  | none =>
    let temp ← newTemp span
    settling cx (.register temp) value
    return {
      access := .register temp
      type := ← registerType temp
      mutable := true
      temporary := true
      localIndex := none
    }

/-- The index and the type of the field of a type, if it has one of that name.
    The fields of a type that is not known yet cannot be told. -/
def findMember (cx : Context) (type : Ty) (field : String) (baseSpan : Location) :
    Lower (Option (Nat × Ty)) := do
  match type with
  | .struct id =>
    let fields ← orFault (cx.table.fields id)
    return (findField field fields).map fun found => (found.1, found.2.type)
  | .tuple elements =>
    return (tupleIndex? field).bind fun index => elements[index]?.map fun type => (index, type)
  | .slot _ =>
    fail .inferenceImpossible
      "type annotations needed: the type of this value must be known to access its fields" baseSpan
  | .error => giveUp
  | _ => return none

def fieldPlace (cx : Context) (base : Place) (baseSpan : Location) (field : Ident) :
    Lower Place := do
  let type ← shallow base.type
  match ← findMember cx type field.text baseSpan with
  | some (index, member) =>
    return { base with access := base.access.field index, type := member, localIndex := none }
  | none =>
    let type ← typeName cx type
    fail .undeclared ("no field " ++ ticked field.text ++ " on type " ++ ticked type) field.span

/-- The register that holds a pointer; it is copied if it is not in a register
    of its own. -/
def pointerRegister (pointer : Place) (type : Ty) (span : Location) : Lower RegisterId := do
  match pointer.access.plain? with
  | some register => return register
  | none =>
    let temp ← newRegister type span
    push (.move pointer.access (.register temp))
    return temp

/-- The place that a pointer points to. -/
def targetPlace (cx : Context) (pointer : Place) (span : Location) : Lower Place := do
  let type ← shallow pointer.type
  match type with
  | .pointer mutable pointee =>
    let register ← pointerRegister pointer type span
    return {
      access := .place register [] true
      type := pointee
      mutable := mutable
      temporary := false
      localIndex := none
    }
  | .slot _ =>
    fail .inferenceImpossible
      "type annotations needed: the type of this value must be known to dereference it" span
  | .error => giveUp
  | type =>
    let type ← typeName cx type
    fail .cannotDereference ("type " ++ ticked type ++ " cannot be dereferenced") span

/-! ## Uses of places -/

def copyPlace (cx : Context) (place : Place) (dest : Access) (span : Location) : Lower Unit := do
  if !dest.isDiscard then push (.move place.access dest)
  assign cx dest place.type span

/-- Take the address of a place; the address of what a pointer points to is
    the pointer. -/
def takeAddress (cx : Context) (mutable : Bool) (place : Option Place) (dest : Access)
    (operandSpan span : Location) : Lower Unit := do
  match place with
  | none => fail .cannotAddress "cannot take the address of a temporary value" operandSpan
  | some place =>
    if place.temporary then
      fail .cannotAddress "cannot take the address of a temporary value" operandSpan
    if mutable && !place.mutable then
      fail .cannotAddress "cannot take a mutable address of an immutable place" operandSpan
    match place.access with
    | .place register [] true => push (.move (.register register) dest)
    | source => push (.address source mutable dest)
    assign cx dest (.pointer mutable place.type) span

/-- Why an immutable place cannot be assigned to. -/
def immutableText (place : Place) : Lower String := do
  match place.localIndex with
  | none => return "cannot assign to an immutable place"
  | some index =>
    match (← get).locals[index]? with
    | none => abort (.fault (.localVariable index))
    | some l =>
      if l.assigned.possible then
        return "cannot assign twice to immutable local " ++ ticked l.name
      else
        return "cannot assign to immutable local " ++ ticked l.name ++ " inside a loop"

/-- The place on the left of an assignment. -/
def assignedPlace (place : Option Place) (span : Location) : Lower Place := do
  match place with
  | none => fail .cannotAssign "invalid left-hand side of assignment" span
  | some place =>
    if place.temporary then
      fail .cannotAssign "invalid left-hand side of assignment" span
    if !place.mutable then
      let message ← immutableText place
      fail .cannotAssign message span
    return place

end Lower

end Semcheck
