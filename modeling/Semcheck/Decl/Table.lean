/-
  The declaration table.

  A `Table` holds the structs and functions of a program, each with its fully
  scoped name, and an index from names to declarations.  A name is declared at
  most once; structs and functions share one namespace.  The scalars `int` and
  `bool` are structs that are there from the start.

  A name in a program is looked up as it is written and, unless it is absolute,
  under every `use` directive in scope (`Table.lookup`); it means a declaration
  if that is the only one found (`Table.resolve`).
-/
import Semcheck.Decl.Error
import Semcheck.Defect
import Semcheck.Ir.Text
import Semcheck.Name.Basic
import Semcheck.Name.Suggest

namespace Semcheck

/-! ## Declarations -/

/-- A declaration, by its kind and number. -/
inductive Decl where
  | struct (id : StructId)
  | funct (id : FunctId)
deriving DecidableEq

namespace Decl

/-- The word for the kind of a declaration. -/
def kind : Decl → String
  | .struct _ => "struct"
  | .funct _ => "function"

def struct? : Decl → Option StructId
  | .struct id => some id
  | .funct _ => none

def funct? : Decl → Option FunctId
  | .struct _ => none
  | .funct id => some id

/-- The declaration by its number. -/
def text : Decl → String
  | .struct id => id.text
  | .funct id => id.text

end Decl

structure StructEntry where
  name : Name
  fields : List Field
  span : Location
deriving DecidableEq

structure FunctEntry where
  name : Name
  funct : Function
deriving DecidableEq

/-- All declarations of a program. -/
structure Table where
  /-- Where each declared name leads, in the order of declaration. -/
  index : List (Name × Decl)
  structs : List StructEntry
  functs : List FunctEntry
deriving DecidableEq

/-- The builtin integers. -/
def StructId.int : StructId := ⟨0⟩

/-- The builtin truth values. -/
def StructId.bool : StructId := ⟨1⟩

namespace Table

/-- The table with the builtins only. -/
def builtin : Table where
  index := [(⟨["int"]⟩, .struct .int), (⟨["bool"]⟩, .struct .bool)]
  structs := [⟨⟨["int"]⟩, [], .nowhere⟩, ⟨⟨["bool"]⟩, [], .nowhere⟩]
  functs := []

/-- The number of builtin structs, which come first. -/
def builtinCount : Nat := 2

/-- The declaration with exactly this name. -/
def get? (t : Table) (name : Name) : Option Decl :=
  (t.index.find? fun entry => entry.1 = name).map Prod.snd

def struct? (t : Table) (id : StructId) : Option StructEntry :=
  t.structs[id.index]?

def funct? (t : Table) (id : FunctId) : Option Function :=
  t.functs[id.index]?.map FunctEntry.funct

/-- The fully scoped name of a declaration. -/
def name? (t : Table) : Decl → Option Name
  | .struct id => (t.structs[id.index]?).map StructEntry.name
  | .funct id => (t.functs[id.index]?).map FunctEntry.name

/-- The fault of looking up a declaration that does not exist. -/
def missing : Decl → Fault
  | .struct id => .struct id.index
  | .funct id => .funct id.index

/-- The name of a declaration as it is written. -/
def displayName (t : Table) (d : Decl) : Except Fault String :=
  match t.name? d with
  | some name => .ok name.text
  | none => .error (missing d)

/-- Where a declaration stands; builtins stand nowhere. -/
def span (t : Table) : Decl → Except Fault (Option Location)
  | .struct id =>
    if id.index < builtinCount then .ok none
    else match t.structs[id.index]? with
      | some entry => .ok (some entry.span)
      | none => .error (.struct id.index)
  | .funct id =>
    match t.functs[id.index]? with
    | some entry => .ok (some entry.funct.span)
    | none => .error (.funct id.index)

/-! ## Declaring -/

/-- The error of declaring a name that is already taken by `d`. -/
def duplicate (t : Table) (name : Name) (d : Decl) (span : Location) : LookupError :=
  match t.span d with
  | .ok first => .duplicate name.text first span
  | .error _ => .duplicate name.text none span

/-- Declare a struct without fields. -/
def addStruct (t : Table) (name : Name) (span : Location) :
    Except LookupError (StructId × Table) :=
  match t.get? name with
  | some d => .error (t.duplicate name d span)
  | none =>
    let id : StructId := ⟨t.structs.length⟩
    .ok (id, { t with
      index := t.index ++ [(name, .struct id)]
      structs := t.structs ++ [⟨name, [], span⟩] })

/-- Declare a function without a signature. -/
def addFunct (t : Table) (name : Name) (span : Location) : Except LookupError (FunctId × Table) :=
  match t.get? name with
  | some d => .error (t.duplicate name d span)
  | none =>
    let id : FunctId := ⟨t.functs.length⟩
    .ok (id, { t with
      index := t.index ++ [(name, .funct id)]
      functs := t.functs ++ [⟨name, .declared span⟩] })

def addField (t : Table) (id : StructId) (field : Field) : Except Fault Table :=
  if id.index < t.structs.length then
    .ok { t with
      structs := t.structs.modify id.index fun entry =>
        { entry with fields := entry.fields ++ [field] } }
  else .error (.struct id.index)

/-- Replace what is known about a function. -/
def setFunct (t : Table) (id : FunctId) (f : Function) : Except Fault Table :=
  if id.index < t.functs.length then
    .ok { t with functs := t.functs.modify id.index fun entry => { entry with funct := f } }
  else .error (.funct id.index)

def fields (t : Table) (id : StructId) : Except Fault (List Field) :=
  match t.struct? id with
  | some entry => .ok entry.fields
  | none => .error (.struct id.index)

def funct (t : Table) (id : FunctId) : Except Fault Function :=
  match t.funct? id with
  | some f => .ok f
  | none => .error (.funct id.index)

/-! ## Lookup -/

/-- The names a written name may stand for: the name under each directive, the
    innermost first, and the name as written.  An absolute name only stands for
    itself. -/
def readings (name : Name) (absolute : Bool) (scope : UseScope) : List Name :=
  if absolute then [name] else scope.directives.map (·.join name) ++ [name]

/-- The declarations a written name may mean, without repetition. -/
def lookup (t : Table) (name : Name) (absolute : Bool) (scope : UseScope) : List Decl :=
  ((readings name absolute scope).filterMap t.get?).eraseDups

/-- Declared names similar to the last segment of a name. -/
def suggestions (t : Table) (name : Name) : List String :=
  match name.last? with
  | none => []
  | some last => suggest last (t.index.filterMap fun entry => entry.1.last?)

/-- The written forms of declarations. -/
def displayNames (t : Table) : List Decl → Except Fault (List String)
  | [] => .ok []
  | d :: rest => do
    let name ← t.displayName d
    return name :: (← t.displayNames rest)

/-- The only one of the candidates. -/
def onlyDecl (t : Table) (candidates : List Decl) (name : Name) (span : Location) :
    Except Fault (Except LookupError Decl) :=
  match candidates with
  | [only] => .ok (.ok only)
  | [] => .ok (.error (.undeclared name.text span (t.suggestions name)))
  | candidates => do
    return .error (.ambiguous name.text (← t.displayNames candidates) span)

/-- The struct a declaration is, if it is one. -/
def asType (d : Decl) (name : Name) (span : Location) : Except LookupError StructId :=
  match d with
  | .struct id => .ok id
  | .funct _ => .error (.wrongKind name.text "type" d.kind span)

/-- The declaration a written name means. -/
def resolve (t : Table) (name : Name) (absolute : Bool) (scope : UseScope) (span : Location) :
    Except Fault (Except LookupError Decl) :=
  t.onlyDecl (t.lookup name absolute scope) name span

/-- The struct a name written as a type means. -/
def resolveType (t : Table) (name : Name) (absolute : Bool) (scope : UseScope) (span : Location) :
    Except Fault (Except LookupError StructId) := do
  match ← t.resolve name absolute scope span with
  | .error e => return .error e
  | .ok d => return asType d name span

/-! ## Names for printing -/

def names (t : Table) : Names where
  struct := fun id => ((t.name? (.struct id)).map Name.text).getD id.text
  funct := fun id => ((t.name? (.funct id)).map Name.text).getD id.text

/-- The first of the structs that is not declared. -/
def checkStructs (t : Table) (ids : List StructId) : Except Fault Unit :=
  ids.forM fun id => do
    let _ ← t.displayName (.struct id)

/-- The text of a type; all structs in it have to be declared. -/
def typeText (t : Table) (type : Ty) : Except Fault String := do
  t.checkStructs type.structs
  return type.text t.names.struct

end Table

end Semcheck
