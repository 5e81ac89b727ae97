/-
  Declarations under pooled names.

  In a session names are compared by the symbols a pool has for their texts, and the
  pool is shared by all compilations of the session.  A `Naming` is a kind of pool.

  A `Pooled.Table` is a declaration table in which every name is a list of symbols.
  With a pool at hand it can be spelled out (`Pooled.Table.spell`), which is what
  messages and printed programs show.
-/
import Semcheck.Decl.Table
import Semcheck.Interner

namespace Semcheck

/-! ## Pools -/

/-- A kind of pool, with symbols for the texts in it. -/
class Naming (σ : outParam Type) (π : Type) where
  /-- The pool without texts. -/
  empty : π
  /-- The symbol of a text, which is added to the pool if it is new. -/
  intern : π → String → σ × π
  /-- The symbol of a text that is already in the pool. -/
  get? : π → String → Option σ
  text : π → σ → String

instance : Naming Symbol Interner where
  empty := .empty
  intern := Interner.intern
  get? := Interner.get?
  text pool symbol := (pool.resolve? symbol).getD ""

namespace Naming

variable {σ π : Type} [Naming σ π]

/-- The symbols of texts, which are added one after the other. -/
def internAll (pool : π) : List String → List σ × π
  | [] => ([], pool)
  | text :: rest =>
    let (symbol, pool) := intern pool text
    let (symbols, pool) := internAll pool rest
    (symbol :: symbols, pool)

/-- The name that symbols spell. -/
def name (pool : π) (symbols : List σ) : Name :=
  ⟨symbols.map (text pool)⟩

/-- The directives that lists of symbols spell. -/
def scope (pool : π) (directives : List (List σ)) : UseScope :=
  ⟨directives.map (name pool)⟩

/-- The bindings under the names that symbols spell. -/
def bindings (pool : π) (symbols : List σ) (bindings : List Binding) : List Binding :=
  (symbols.map (text pool)).zipWith (fun name b => { b with name := name }) bindings

end Naming

namespace Pooled

/-! ## Tables -/

structure Field (σ : Type) where
  name : σ
  type : Ty
  span : Location

structure StructEntry (σ : Type) where
  name : List σ
  fields : List (Field σ)
  span : Location

structure FunctEntry (σ : Type) where
  name : List σ
  /-- The names of the bindings; those in the function itself do not count. -/
  bindings : List σ
  funct : Function

structure Table (σ : Type) where
  index : List (List σ × Decl)
  structs : List (StructEntry σ)
  functs : List (FunctEntry σ)

section Spelling

variable {σ π : Type} [Naming σ π] (pool : π)

def Field.spell (f : Field σ) : Semcheck.Field :=
  ⟨Naming.text pool f.name, f.type, f.span⟩

def StructEntry.spell (s : StructEntry σ) : Semcheck.StructEntry :=
  ⟨Naming.name pool s.name, s.fields.map (Field.spell pool), s.span⟩

/-- The function with its bindings spelled out. -/
def FunctEntry.function (f : FunctEntry σ) : Function :=
  { f.funct with bindings := Naming.bindings pool f.bindings f.funct.bindings }

def FunctEntry.spell (f : FunctEntry σ) : Semcheck.FunctEntry :=
  ⟨Naming.name pool f.name, f.function pool⟩

/-- The table with the texts of its symbols. -/
def Table.spell (t : Table σ) : Semcheck.Table where
  index := t.index.map fun entry => (Naming.name pool entry.1, entry.2)
  structs := t.structs.map (StructEntry.spell pool)
  functs := t.functs.map (FunctEntry.spell pool)

end Spelling

def findField {σ : Type} [DecidableEq σ] (name : σ) (fields : List (Field σ)) :
    Option (Nat × Field σ) :=
  (fields.zipIdx.find? fun entry => entry.1.name = name).map fun entry => (entry.2, entry.1)

namespace Table

variable {σ π : Type} [DecidableEq σ] [Naming σ π]

/-- The table with the builtins only, under these names. -/
def builtin (int bool : σ) : Table σ where
  index := [([int], .struct .int), ([bool], .struct .bool)]
  structs := [⟨[int], [], .nowhere⟩, ⟨[bool], [], .nowhere⟩]
  functs := []

def get? (t : Table σ) (name : List σ) : Option Decl :=
  (t.index.find? fun entry => entry.1 = name).map Prod.snd

def addStruct (t : Table σ) (name : List σ) (span : Location) : StructId × Table σ :=
  let id : StructId := ⟨t.structs.length⟩
  (id, { t with
    index := t.index ++ [(name, .struct id)]
    structs := t.structs ++ [⟨name, [], span⟩] })

def addFunct (t : Table σ) (name : List σ) (span : Location) : FunctId × Table σ :=
  let id : FunctId := ⟨t.functs.length⟩
  (id, { t with
    index := t.index ++ [(name, .funct id)]
    functs := t.functs ++ [⟨name, [], .declared span⟩] })

def addField (t : Table σ) (id : StructId) (field : Field σ) : Except Fault (Table σ) :=
  if id.index < t.structs.length then
    .ok { t with
      structs := t.structs.modify id.index fun entry =>
        { entry with fields := entry.fields ++ [field] } }
  else .error (.struct id.index)

def setFunct (t : Table σ) (id : FunctId) (bindings : List σ) (f : Function) :
    Except Fault (Table σ) :=
  if id.index < t.functs.length then
    .ok { t with
      functs := t.functs.modify id.index fun entry =>
        { entry with bindings := bindings, funct := f } }
  else .error (.funct id.index)

def fields (t : Table σ) (id : StructId) : Except Fault (List (Field σ)) :=
  match t.structs[id.index]? with
  | some entry => .ok entry.fields
  | none => .error (.struct id.index)

def funct (t : Table σ) (id : FunctId) : Except Fault (FunctEntry σ) :=
  match t.functs[id.index]? with
  | some entry => .ok entry
  | none => .error (.funct id.index)

/-- The names a written name may stand for. -/
def readings (name : List σ) (absolute : Bool) (scope : List (List σ)) : List (List σ) :=
  if absolute then [name] else scope.map (· ++ name) ++ [name]

def lookup (t : Table σ) (name : List σ) (absolute : Bool) (scope : List (List σ)) : List Decl :=
  ((readings name absolute scope).filterMap t.get?).eraseDups

def resolve (t : Table σ) (pool : π) (name : List σ) (absolute : Bool) (scope : List (List σ))
    (span : Location) : Except Fault (Except LookupError Decl) :=
  (t.spell pool).onlyDecl (t.lookup name absolute scope) (Naming.name pool name) span

def resolveType (t : Table σ) (pool : π) (name : List σ) (absolute : Bool)
    (scope : List (List σ)) (span : Location) : Except Fault (Except LookupError StructId) := do
  match ← t.resolve pool name absolute scope span with
  | .error e => return .error e
  | .ok d => return Semcheck.Table.asType d (Naming.name pool name) span

end Table

end Pooled

end Semcheck
