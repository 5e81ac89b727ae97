/-
  The passes before the bodies, under pooled names.

  `Outline` declares the names of a program and `lowerSignatures` resolves the fields
  and signatures.  Every text that a declaration or a path brings is put into the
  pool, where the passes meet it.
-/
import Semcheck.Lower.Signature
import Semcheck.Pooled.Table

namespace Semcheck

namespace Pooled

/-! ## Outlines -/

structure PendingStruct (σ : Type) where
  id : StructId
  decl : StructDecl
  scope : List (List σ)

structure PendingFunct (σ : Type) where
  id : FunctId
  decl : FunctDecl
  scope : List (List σ)

structure Outline (σ π : Type) where
  pool : π
  table : Table σ
  report : Report
  structs : List (PendingStruct σ)
  functs : List (PendingFunct σ)

variable {σ π : Type} [DecidableEq σ] [Naming σ π]

namespace Outline

/-- Only the builtins are declared. -/
def start (pool : π) : Outline σ π :=
  let (int, pool) := Naming.intern pool "int"
  let (bool, pool) := Naming.intern pool "bool"
  { pool := pool, table := .builtin int bool, report := .empty, structs := [], functs := [] }

def internPath (o : Outline σ π) (path : Path) : List σ × Outline σ π :=
  let (symbols, pool) := Naming.internAll o.pool path.texts
  (symbols, { o with pool := pool })

/-- The full name of something declared in `space`. -/
def internName (o : Outline σ π) (space : List σ) (name : Ident) : List σ × Outline σ π :=
  let (symbol, pool) := Naming.intern o.pool name.text
  (space ++ [symbol], { o with pool := pool })

/-- Report that a name is already taken by `d`. -/
def duplicate (o : Outline σ π) (name : List σ) (d : Decl) (span : Location) : Outline σ π :=
  let error := (o.table.spell o.pool).duplicate (Naming.name o.pool name) d span
  { o with report := o.report.push error.toDiagnostic }

def addStruct (o : Outline σ π) (space : List σ) (scope : List (List σ)) (decl : StructDecl) :
    Outline σ π :=
  let (name, o) := o.internName space decl.name
  match o.table.get? name with
  | some d => o.duplicate name d decl.span
  | none =>
    let (id, table) := o.table.addStruct name decl.span
    { o with table := table, structs := o.structs ++ [⟨id, decl, scope⟩] }

def addFunct (o : Outline σ π) (space : List σ) (scope : List (List σ)) (decl : FunctDecl) :
    Outline σ π :=
  let (name, o) := o.internName space decl.name
  match o.table.get? name with
  | some d => o.duplicate name d decl.span
  | none =>
    let (id, table) := o.table.addFunct name decl.span
    { o with table := table, functs := o.functs ++ [⟨id, decl, scope⟩] }

def innerSpace (space : List σ) (path : Path) (symbols : List σ) : List σ :=
  if path.absolute then symbols else space ++ symbols

mutual

def addItem (o : Outline σ π) (space : List σ) (scope : List (List σ)) : Item → Outline σ π
  | .space path items _ =>
    let (symbols, o) := o.internPath path
    addItems o (innerSpace space path symbols) (innerSpace space path symbols :: scope) items
  | .use _ _ => o
  | .useBlock path items _ =>
    let (symbols, o) := o.internPath path
    addItems o space (symbols :: scope) items
  | .struct decl => o.addStruct space scope decl
  | .funct decl => o.addFunct space scope decl

def addItems (o : Outline σ π) (space : List σ) (scope : List (List σ)) :
    List Item → Outline σ π
  | [] => o
  | .use path _ :: rest =>
    let (symbols, o) := o.internPath path
    addItems o space (symbols :: scope) rest
  | item :: rest => addItems (addItem o space scope item) space scope rest

end

def ofFiles (pool : π) (files : List SourceFile) : Outline σ π :=
  files.foldl (fun o file => o.addItems [] [] file.items) (start pool)

end Outline

/-! ## Types -/

/-- A step that may add to the pool and to the report. -/
abbrev ReportM (π : Type) := StateT π Semcheck.ReportM

/-- The struct that a path names, whose segments are put into the pool. -/
def resolvePath (table : Table σ) (scope : List (List σ)) (path : Path) :
    ReportM π (Except LookupError StructId) := do
  let name ← modifyGet fun pool => Naming.internAll pool path.texts
  table.resolveType (← get) name path.absolute scope path.span

mutual

def lowerType (table : Table σ) (scope : List (List σ)) : TypeExpr → ReportM π Ty
  | .path path _ => do
    match ← resolvePath table scope path with
    | .ok id => return .struct id
    | .error e =>
      modifyThe Report fun report => report.push e.toDiagnostic
      return .error
  | .pointer mutable _ pointee _ => do
    return .pointer mutable (← lowerType table scope pointee)
  | .tuple elements _ => do
    return .tuple (← lowerTypes table scope elements)
  | .funct params none _ => do
    return .funct (← lowerTypes table scope params) .unit
  | .funct params (some returns) _ => do
    let params ← lowerTypes table scope params
    return .funct params (← lowerType table scope returns)

def lowerTypes (table : Table σ) (scope : List (List σ)) : List TypeExpr → ReportM π (List Ty)
  | [] => return []
  | type :: rest => do
    let type ← lowerType table scope type
    return type :: (← lowerTypes table scope rest)

end

def lowerReturns (table : Table σ) (scope : List (List σ)) : Option TypeExpr → ReportM π Ty
  | none => return .unit
  | some type => lowerType table scope type

/-! ## Declarations -/

/-- The declarations of a program, the report on them and the pool. -/
structure Program (σ π : Type) where
  pool : π
  table : Table σ
  report : Report
  gaveUp : Bool

def Program.spell (p : Program σ π) : Semcheck.Program :=
  ⟨p.table.spell p.pool, p.report, p.gaveUp⟩

/-- A step that may change the declarations, and add to the report and to the pool. -/
abbrev ProgramM (σ π : Type) := StateT (Program σ π) (Except Abort)

namespace ProgramM

def orFault {α : Type} : Except Fault α → ProgramM σ π α
  | .ok a => return a
  | .error fault => throw (.fault fault)

def orDefect {α : Type} : Except Defect α → ProgramM σ π α
  | .ok a => return a
  | .error defect => throw (.defect defect)

def intern (text : String) : ProgramM σ π σ :=
  modifyGet fun p => ((Naming.intern p.pool text).1, { p with pool := (Naming.intern p.pool text).2 })

/-- A step that reads the declarations, and may add to the report and to the pool. -/
def reporting {α : Type} (step : Table σ → ReportM π α) : ProgramM σ π α := do
  let p ← get
  let ((a, pool), report) ← orFault (((step p.table).run p.pool).run p.report)
  set { p with pool := pool, report := report }
  return a

def updating (change : Table σ → Except Fault (Table σ)) : ProgramM σ π Unit := do
  let p ← get
  set { p with table := ← orFault (change p.table) }

end ProgramM

open Semcheck.Pooled.ProgramM

def lowerField (id : StructId) (scope : List (List σ)) (field : FieldDecl) :
    ProgramM σ π Unit := do
  let type ← reporting fun table => lowerType table scope field.type
  let name ← intern field.name.text
  let fields ← orFault ((← get).table.fields id)
  match findField name fields with
  | some (_, first) =>
    let message := "field " ++ ticked field.name.text ++ " is declared more than once"
    let diagnostic := (Diagnostic.error .duplicateDeclaration message field.span).withNote
      "first declared here" first.span
    modify fun p => { p with report := p.report.push diagnostic }
  | none => updating fun table => table.addField id ⟨name, type, field.span⟩

def lowerStruct (pending : PendingStruct σ) : ProgramM σ π Unit :=
  pending.decl.fields.forM (lowerField pending.id pending.scope)

/-- Add the parameters to a draft, and their names to a list. -/
def lowerParams (scope : List (List σ)) :
    List ParamDecl → List σ → Draft → ProgramM σ π (List σ × Draft)
  | [], names, draft => return (names, draft)
  | param :: rest, names, draft => do
    let type ← reporting fun table => lowerType table scope param.type
    let name ← intern param.name.text
    let (_, draft) ← orDefect (draft.addParam param.name.text type param.mutable param.span)
    lowerParams scope rest (names ++ [name]) draft

def lowerSignature (pending : PendingFunct σ) : ProgramM σ π Unit := do
  let decl := pending.decl
  let (names, draft) ← lowerParams pending.scope decl.params [] (.new pending.id.index)
  let returns ← reporting fun table => lowerReturns table pending.scope decl.returns
  let signature := { draft.toSignature returns decl.span with external := decl.body.isNone }
  updating fun table => table.setFunct pending.id names signature

def lowerSignatures (outline : Outline σ π) : ProgramM σ π Unit := do
  outline.structs.forM lowerStruct
  outline.functs.forM lowerSignature

end Pooled

end Semcheck
