/-
  The second pass over a program: the fields of structs and the parameters and
  results of functions.

  Type syntax that cannot be resolved is reported and becomes the erroneous
  type.  A field whose name was used before in the same struct is reported and
  left out.
-/
import Semcheck.Ir.Draft
import Semcheck.Lower.Outline

namespace Semcheck

/-- A step that may add to the report. -/
abbrev ReportM := StateT Report (Except Fault)

mutual

/-- The type that type syntax stands for. -/
def lowerType (table : Table) (scope : UseScope) : TypeExpr → ReportM Ty
  | .path path _ => do
    match ← table.resolveType path.toName path.absolute scope path.span with
    | .ok id => return .struct id
    | .error e =>
      modify fun report => report.push e.toDiagnostic
      return .error
  | .pointer mutable _ pointee _ => do
    return .pointer mutable (← lowerType table scope pointee)
  | .tuple elements _ => do
    return .tuple (← lowerTypes table scope elements)
  | .funct params none _ => do
    return .funct (← lowerTypes table scope params) .unit
  | .funct params (some returns) _ => do
    let params ← lowerTypes table scope params
    return .funct params (← lowerType table scope returns)

def lowerTypes (table : Table) (scope : UseScope) : List TypeExpr → ReportM (List Ty)
  | [] => return []
  | type :: rest => do
    let type ← lowerType table scope type
    return type :: (← lowerTypes table scope rest)

end

/-- The result type of a function; without type syntax it is `()`. -/
def lowerReturns (table : Table) (scope : UseScope) : Option TypeExpr → ReportM Ty
  | none => return .unit
  | some type => lowerType table scope type

/-! ## Declarations -/

/-- The declarations of a program and the report on them. -/
structure Program where
  table : Table
  report : Report
  /-- A part of a function body was left out. -/
  gaveUp : Bool

/-- A step that may change the declarations and add to the report. -/
abbrev ProgramM := StateT Program (Except Abort)

namespace ProgramM

/-- Take the outcome of a step that may meet a fault. -/
def orFault {α : Type} : Except Fault α → ProgramM α
  | .ok a => return a
  | .error fault => throw (.fault fault)

def orDefect {α : Type} : Except Defect α → ProgramM α
  | .ok a => return a
  | .error defect => throw (.defect defect)

/-- A step that reads the declarations and may add to the report. -/
def reporting {α : Type} (step : Table → ReportM α) : ProgramM α := do
  let p ← get
  let (a, report) ← orFault ((step p.table).run p.report)
  set { p with report := report }
  return a

def updating (change : Table → Except Fault Table) : ProgramM Unit := do
  let p ← get
  set { p with table := ← orFault (change p.table) }

end ProgramM

open ProgramM

/-- Add a field to a struct, unless the struct has a field of that name. -/
def lowerField (id : StructId) (scope : UseScope) (field : FieldDecl) : ProgramM Unit := do
  let type ← reporting fun table => lowerType table scope field.type
  let fields ← orFault ((← get).table.fields id)
  match findField field.name.text fields with
  | some (_, first) =>
    let message := "field " ++ ticked field.name.text ++ " is declared more than once"
    let diagnostic := (Diagnostic.error .duplicateDeclaration message field.span).withNote
      "first declared here" first.span
    modify fun p => { p with report := p.report.push diagnostic }
  | none => updating fun table => table.addField id ⟨field.name.text, type, field.span⟩

/-- Resolve the fields of a struct. -/
def lowerStruct (pending : PendingStruct) : ProgramM Unit :=
  pending.decl.fields.forM (lowerField pending.id pending.scope)

def lowerParams (scope : UseScope) : List ParamDecl → Draft → ProgramM Draft
  | [], draft => return draft
  | param :: rest, draft => do
    let type ← reporting fun table => lowerType table scope param.type
    let (_, draft) ← orDefect (draft.addParam param.name.text type param.mutable param.span)
    lowerParams scope rest draft

/-- Resolve the signature of a function. -/
def lowerSignature (pending : PendingFunct) : ProgramM Unit := do
  let decl := pending.decl
  let draft ← lowerParams pending.scope decl.params (.new pending.id.index)
  let returns ← reporting fun table => lowerReturns table pending.scope decl.returns
  let signature := { draft.toSignature returns decl.span with external := decl.body.isNone }
  updating fun table => table.setFunct pending.id signature

/-- Resolve the fields of all structs, and then all signatures. -/
def lowerSignatures (outline : Outline) : ProgramM Unit := do
  outline.structs.forM lowerStruct
  outline.functs.forM lowerSignature

end Semcheck
