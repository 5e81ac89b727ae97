/-
  Function bodies under pooled names.

  The state of lowering a body has its names as symbols, and the pool.  A step that
  looks at no name is one of `Semcheck.Lower`: it is lifted, and runs on the body as
  its symbols spell it.  The steps here are the others.  They put the texts of paths
  and of new locals into the pool; the name of a local or a field that is looked up
  is not put into it, since a text that is not there names none.
-/
import Semcheck.Lower.Program
import Semcheck.Pooled.Signature

namespace Semcheck

namespace Pooled

/-! ## State -/

structure Context (σ : Type) where
  table : Table σ
  result : Access
  returnType : Ty

structure Body (σ π : Type) where
  pool : π
  scope : List (List σ)
  /-- The names of the locals. -/
  locals : List σ
  /-- The names of the bindings. -/
  bindings : List σ
  /-- All but the names; those in it do not count. -/
  rest : Semcheck.Body

variable {σ π : Type} [DecidableEq σ] [Naming σ π]

def Context.spell (pool : π) (cx : Context σ) : Semcheck.Context :=
  ⟨cx.table.spell pool, cx.result, cx.returnType⟩

/-- The locals under the names that symbols spell. -/
def spellLocals (pool : π) (symbols : List σ) (locals : List Local) : List Local :=
  (symbols.map (Naming.text pool)).zipWith (fun name l => { l with name := name }) locals

/-- The body with the texts of its symbols. -/
def Body.spell (b : Body σ π) : Semcheck.Body :=
  { b.rest with
    scope := Naming.scope b.pool b.scope
    locals := spellLocals b.pool b.locals b.rest.locals
    draft := { b.rest.draft with
      bindings := Naming.bindings b.pool b.bindings b.rest.draft.bindings } }

abbrev Lower (σ π : Type) := OptionT (StateT (Body σ π) (Except Abort))

namespace Lower

/-- A step that looks at no name. -/
def step {α : Type} (x : Semcheck.Lower α) : Lower σ π α :=
  OptionT.mk fun b => do
    let (a, rest) ← x.run b.spell
    return (a, { b with rest := rest })

/-- A step that looks at no name but those in the context, which it may print. -/
def stepIn {α : Type} (cx : Context σ) (x : Semcheck.Context → Semcheck.Lower α) : Lower σ π α := do
  step (x (cx.spell (← get).pool))

/-- Put the segments of a path into the pool. -/
def internPath (path : Path) : Lower σ π (List σ) :=
  modifyGet fun b =>
    let (symbols, pool) := Naming.internAll b.pool path.texts
    (symbols, { b with pool := pool })

def intern (text : String) : Lower σ π σ :=
  modifyGet fun b =>
    let (symbol, pool) := Naming.intern b.pool text
    (symbol, { b with pool := pool })

def giveUp {α : Type} : Lower σ π α :=
  failure

def orFault {α : Type} : Except Fault α → Lower σ π α
  | .ok a => pure a
  | .error fault => OptionT.mk fun _ => .error (.fault fault)

def recover (x : Lower σ π Unit) : Lower σ π Bool :=
  OptionT.mk do
    match ← x.run with
    | some () => return some true
    | none =>
      modify fun b => { b with rest := { b.rest with gaveUp := true } }
      return some false

def attempt (x : Lower σ π Unit) : Lower σ π Unit := do
  let _ ← recover x

/-- Run a step that may add to the report and to the pool. -/
def reporting {α : Type} (x : ReportM π α) : Lower σ π α := do
  let b ← get
  let ((a, pool), report) ← orFault ((x.run b.pool).run b.rest.report)
  set { b with pool := pool, rest := { b.rest with report := report } }
  return a

def settling (cx : Context σ) (dest : Access) (value : Access → Lower σ π Unit) :
    Lower σ π Unit := do
  if ← recover (value dest) then return
  match ← stepIn cx fun cx => Lower.openSlot? cx dest with
  | none => giveUp
  | some slot =>
    let _ ← step (Lower.onEngine (inferType slot .error).run)
    giveUp

def inLoop (x : Lower σ π Unit) : Lower σ π Unit := do
  modify fun b => { b with rest := { b.rest with loopDepth := b.rest.loopDepth + 1 } }
  attempt x
  modify fun b => { b with rest := { b.rest with loopDepth := b.rest.loopDepth - 1 } }

/-! ## Places -/

def findLocal (name : σ) (symbols : List σ) (locals : List Local) : Option (Nat × Local) :=
  ((symbols.zip locals).zipIdx.reverse.find? fun entry => entry.1.1 = name).map fun entry =>
    (entry.2, entry.1.2)

def lookupLocal (path : Path) : Lower σ π (Option (Nat × Local)) := do
  match path.single? with
  | none => return none
  | some name =>
    let b ← get
    return (Naming.get? b.pool name.text).bind fun symbol =>
      findLocal symbol b.locals b.spell.locals

def namedPlace (path : Path) (purpose : Purpose) (span : Location) :
    Lower σ π (Option Place) := do
  match ← lookupLocal path with
  | none => return none
  | some (index, l) => return some (← step (Lower.localPlace index l purpose span))

def placeOrTemp (cx : Context σ) (span : Location) (place : Lower σ π (Option Place))
    (value : Access → Lower σ π Unit) : Lower σ π Place := do
  match ← place with
  | some p => return p
  | none =>
    let temp ← step (Lower.newTemp span)
    settling cx (.register temp) value
    return {
      access := .register temp
      type := ← step (Lower.registerType temp)
      mutable := true
      temporary := true
      localIndex := none
    }

/-- The field that has the given name, and its index. -/
def lookupField (fields : List (Field σ)) (name : String) : Lower σ π (Option (Nat × Field σ)) := do
  return (Naming.get? (← get).pool name).bind fun symbol => findField symbol fields

/-- The index and the type of the field of a type, if it has one of that name. -/
def findMember (cx : Context σ) (type : Ty) (field : String) (baseSpan : Location) :
    Lower σ π (Option (Nat × Ty)) := do
  match type with
  | .struct id =>
    let fields ← orFault (cx.table.fields id)
    return (← lookupField fields field).map fun found => (found.1, found.2.type)
  | type => stepIn cx fun cx => Semcheck.Lower.findMember cx type field baseSpan

def fieldPlace (cx : Context σ) (base : Place) (baseSpan : Location) (field : Ident) :
    Lower σ π Place := do
  let type ← step (Lower.shallow base.type)
  match ← findMember cx type field.text baseSpan with
  | some (index, member) =>
    return { base with access := base.access.field index, type := member, localIndex := none }
  | none =>
    let type ← stepIn cx fun cx => Lower.typeName cx type
    step (Lower.fail .undeclared
      ("no field " ++ ticked field.text ++ " on type " ++ ticked type) field.span)

/-! ## Values -/

/-- The declaration that a path names. -/
def lookupDecl (cx : Context σ) (path : Path) : Lower σ π Decl := do
  let name ← internPath path
  let b ← get
  step (Lower.orReport (cx.table.resolve b.pool name path.absolute b.scope path.span))

/-- The struct that a path names. -/
def lookupStruct (cx : Context σ) (path : Path) : Lower σ π StructId := do
  let name ← internPath path
  let b ← get
  step (Lower.orReport (cx.table.resolveType b.pool name path.absolute b.scope path.span))

def lowerDeclValue (cx : Context σ) (path : Path) (dest : Access) (span : Location) :
    Lower σ π Unit := do
  let decl ← lookupDecl cx path
  stepIn cx fun cx => do
    match decl.funct? with
    | some id =>
      let f ← Semcheck.Lower.orFault (cx.table.funct id)
      Lower.moveLiteral cx (.funct id) f.signature dest span
    | none =>
      let found ← Semcheck.Lower.orFault (cx.table.displayName decl)
      Lower.fail .wrongDeclarationKind ("expected value, found struct " ++ ticked found) span

def lowerOperand (cx : Context σ) (span : Location) (value : Access → Lower σ π Unit) :
    Lower σ π Lower.Operand := do
  let temp ← step (Lower.newTemp span)
  settling cx (.register temp) value
  return ⟨.register temp, ← step (Lower.registerType temp), span⟩

structure Fields (σ : Type) where
  name : String
  fields : List (Field σ)
  values : List (Option Access)
  failed : Bool

def Fields.unwritten (name : String) (fields : List (Field σ)) : Fields σ :=
  ⟨name, fields, fields.map fun _ => none, false⟩

def Fields.spell (pool : π) (f : Fields σ) : Semcheck.Lower.Fields :=
  ⟨f.name, f.fields.map (Field.spell pool), f.values, f.failed⟩

def lowerInit (cx : Context σ) (f : Fields σ) (name : Ident) (span valueSpan : Location)
    (value : Access → Lower σ π Unit) : Lower σ π (Fields σ) := do
  match ← lookupField f.fields name.text with
  | none =>
    step (Lower.complain .undeclared
      ("struct " ++ ticked f.name ++ " has no field named " ++ ticked name.text) name.span)
    return { f with failed := true }
  | some (index, field) =>
    if (f.values[index]?.bind id).isSome then
      step (Lower.complain .incompatibleTypes
        ("field " ++ ticked name.text ++ " is initialized more than once") span)
      return { f with failed := true }
    let temp ← step (Lower.newRegister field.type valueSpan)
    let done ← recover (settling cx (.register temp) value)
    return { f with
      values := f.values.set index (some (.register temp))
      failed := f.failed || !done }

def makeStruct (cx : Context σ) (id : StructId) (f : Fields σ) (dest : Access)
    (span : Location) : Lower σ π Unit := do
  let pool := (← get).pool
  step (Semcheck.Lower.makeStruct (cx.spell pool) id (f.spell pool) dest span)

/-! ## Control flow -/

def makeWhen (cx : Context σ) (condition : Access) (thenSpan : Location)
    (thenValue : Access → Lower σ π Unit) (dest : Access) (span : Location) :
    Lower σ π Unit := do
  let branch ← step Lower.newSegment
  let before ← step Lower.assignments
  let join ← step Lower.newSegment
  step (Lower.terminate (.branch condition branch join))
  step (Lower.switchTo branch)
  let temp ← step (Lower.newTemp thenSpan)
  attempt (settling cx (.register temp) thenValue)
  step (Lower.terminate (.goto join))
  step (Lower.switchTo join)
  step (Lower.joinAssignments before)
  stepIn cx fun cx => Lower.moveUnit cx dest span

def makeIfElse (cx : Context σ) (condition : Access)
    (thenValue elseValue : Access → Lower σ π Unit) (dest : Access) : Lower σ π Unit := do
  let thenStart ← step Lower.newSegment
  let before ← step Lower.assignments
  let elseStart ← step Lower.newSegment
  step (Lower.terminate (.branch condition thenStart elseStart))
  step (Lower.switchTo thenStart)
  attempt (settling cx dest thenValue)
  let thenEnd ← step Lower.currentSegment
  let afterThen ← step Lower.assignments
  step (Lower.restoreAssignments before)
  step (Lower.switchTo elseStart)
  attempt (settling cx dest elseValue)
  let elseEnd ← step Lower.currentSegment
  step (Lower.joinAssignments afterThen)
  let join ← step Lower.newSegment
  step (Lower.switchTo thenEnd)
  step (Lower.terminate (.goto join))
  step (Lower.switchTo elseEnd)
  step (Lower.terminate (.goto join))
  step (Lower.switchTo join)

/-- A loop is `()`. -/
def makeLoop (cx : Context σ) (conditionSpan bodySpan : Location)
    (condition body : Access → Lower σ π Unit) (dest : Access) (span : Location) :
    Lower σ π Unit := do
  let head ← step Lower.newSegment
  step (Lower.terminate (.goto head))
  step (Lower.switchTo head)
  let test ← step (Lower.conditionRegister conditionSpan)
  inLoop (settling cx test condition)
  let before ← step Lower.assignments
  let start ← step Lower.newSegment
  let after ← step Lower.newSegment
  step (Lower.terminate (.branch test start after))
  step (Lower.switchTo start)
  let temp ← step (Lower.newTemp bodySpan)
  inLoop (settling cx (.register temp) body)
  step (Lower.terminate (.goto head))
  step (Lower.joinAssignments before)
  step (Lower.switchTo after)
  stepIn cx fun cx => Lower.moveUnit cx dest span

/-! ## Blocks -/

def inBlock (x : Lower σ π Unit) : Lower σ π Unit := do
  let outer ← get
  x
  modify fun b => { b with
    scope := outer.scope
    locals := b.locals.take outer.locals.length
    rest := { b.rest with locals := b.rest.locals.take outer.locals.length } }

/-- A `use` directive, up to the end of the block. -/
def addDirective (path : Path) : Lower σ π Unit := do
  let name ← internPath path
  modify fun b => { b with scope := name :: b.scope }

def letType (cx : Context σ) (name : Ident) : Option TypeExpr → Lower σ π Ty
  | some type => do
    let scope := (← get).scope
    reporting (lowerType cx.table scope type)
  | none => do
    return .slot (← step (Lower.newSlot name.span))

/-- Bring a local into scope under the given name. -/
def declare (name : σ) (text : String) (register : RegisterId) (mutable : Bool)
    (state : Assigned) : Lower σ π Unit :=
  modify fun b => { b with
    locals := b.locals ++ [name]
    bindings := b.bindings ++ [name]
    rest := { b.rest with
      draft := b.rest.draft.bind text register mutable
      locals := b.rest.locals ++ [⟨text, register, mutable, state, b.rest.loopDepth⟩] } }

def makeLet (cx : Context σ) (name : Ident) (mutable : Bool) (type : Option TypeExpr)
    (init : Option (Access → Lower σ π Unit)) : Lower σ π Unit := do
  let type ← letType cx name type
  let register ← step (Lower.newRegister type name.span)
  let symbol ← intern name.text
  let done ← match init with
    | some value => recover (settling cx (.register register) value)
    | none => pure true
  declare symbol name.text register mutable (if init.isSome then .assigned else .unassigned)
  if !done then giveUp

def makeLetStmt (cx : Context σ) (x : Lower σ π Unit) (dest : Option Access) (span : Location) :
    Lower σ π Unit := do
  let done ← recover x
  stepIn cx fun cx => Lower.statementUnit cx dest span
  if !done then giveUp

def makeExprStmt (cx : Context σ) (value : Access → Lower σ π Unit) (dest : Option Access)
    (span : Location) : Lower σ π Unit := do
  match dest with
  | some dest => settling cx dest value
  | none =>
    let temp ← step (Lower.newTemp span)
    settling cx (.register temp) value

/-! ## Expressions -/

mutual

def lowerExpr (cx : Context σ) : Expr → Access → Lower σ π Unit
  | .block stmts span, dest => inBlock (lowerStmts cx span stmts dest)
  | .int value span, dest => do
    stepIn cx fun cx => Lower.moveLiteral cx (.int value) (.struct .int) dest span
  | .bool value span, dest => do
    stepIn cx fun cx => Lower.moveLiteral cx (.bool value) (.struct .bool) dest span
  | .tuple elements span, dest => do
    let elements ← lowerOperands cx elements
    stepIn cx fun cx => Lower.makeTuple cx elements dest span
  | .structLit path inits span, dest => do
    let id ← lookupStruct cx path
    let fields ← orFault (cx.table.fields id)
    let name ← stepIn cx fun cx => Semcheck.Lower.orFault (cx.table.displayName (.struct id))
    let written ← lowerInits cx inits (.unwritten name fields)
    makeStruct cx id written dest span
  | .name path span, dest => do
    match ← namedPlace path .read span with
    | some place => stepIn cx fun cx => Lower.copyPlace cx place dest span
    | none => lowerDeclValue cx path dest span
  | .field base field span, dest => do
    let record ← placeOrTemp cx base.span (lowerPlace cx base .read) (lowerExpr cx base)
    let place ← fieldPlace cx record base.span field
    stepIn cx fun cx => Lower.copyPlace cx place dest span
  | .addressOf mutable operand span, dest => do
    let place ← lowerPlace cx operand .address
    stepIn cx fun cx => Lower.takeAddress cx mutable place dest operand.span span
  | .deref operand span, dest => do
    let pointer ← placeOrTemp cx operand.span (lowerPlace cx operand .read) (lowerExpr cx operand)
    let place ← stepIn cx fun cx => Lower.targetPlace cx pointer operand.span
    stepIn cx fun cx => Lower.copyPlace cx place dest span
  | .call callee args span, dest => do
    let place ← placeOrTemp cx callee.span (lowerPlace cx callee .read) (lowerExpr cx callee)
    let args ← lowerOperands cx args
    stepIn cx fun cx => Lower.makeCall cx place args dest callee.span span
  | .ifElse condition thenBranch none span, dest => do
    let test ← step (Lower.conditionRegister condition.span)
    settling cx test (lowerExpr cx condition)
    makeWhen cx test thenBranch.span (lowerExpr cx thenBranch) dest span
  | .ifElse condition thenBranch (some elseBranch) _, dest => do
    let test ← step (Lower.conditionRegister condition.span)
    settling cx test (lowerExpr cx condition)
    makeIfElse cx test (lowerExpr cx thenBranch) (lowerExpr cx elseBranch) dest
  | .loop condition body span, dest =>
    makeLoop cx condition.span body.span (lowerExpr cx condition) (lowerExpr cx body) dest span
  | .assign target value span, dest => do
    let place ← lowerPlace cx target .assign
    let place ← step (Lower.assignedPlace place target.span)
    settling cx place.access (lowerExpr cx value)
    match place.localIndex with
    | some index => step (Lower.markAssigned index)
    | none => pure ()
    stepIn cx fun cx => Lower.moveUnit cx dest span
  | .ret (some value) _, dest => do
    let target ← stepIn cx fun cx => Lower.returnTarget cx value.span
    settling cx target (lowerExpr cx value)
    stepIn cx fun cx => Lower.leave cx dest
  | .ret none span, dest => do
    stepIn cx fun cx => Lower.checkBareReturn cx span
    stepIn cx fun cx => Lower.leave cx dest
termination_by structural e => e

def lowerPlace (cx : Context σ) : Expr → Purpose → Lower σ π (Option Place)
  | .name path span, purpose => namedPlace path purpose span
  | .field base field _, _ => do
    let record ← placeOrTemp cx base.span (lowerPlace cx base .read) (lowerExpr cx base)
    return some (← fieldPlace cx record base.span field)
  | .deref operand _, _ => do
    let pointer ← placeOrTemp cx operand.span (lowerPlace cx operand .read) (lowerExpr cx operand)
    return some (← stepIn cx fun cx => Lower.targetPlace cx pointer operand.span)
  | _, _ => return none
termination_by structural e => e

def lowerOperands (cx : Context σ) : List Expr → Lower σ π (List Lower.Operand)
  | [] => return []
  | e :: rest => do
    let first ← lowerOperand cx e.span (lowerExpr cx e)
    return first :: (← lowerOperands cx rest)
termination_by structural es => es

def lowerInits (cx : Context σ) : List FieldInit → Fields σ → Lower σ π (Fields σ)
  | [], f => return f
  | ⟨name, value, span⟩ :: rest, f => do
    let f ← lowerInit cx f name span value.span (lowerExpr cx value)
    lowerInits cx rest f
termination_by structural inits => inits

def lowerStmt (cx : Context σ) : Stmt → Option Access → Lower σ π Unit
  | .expr e _, dest => makeExprStmt cx (lowerExpr cx e) dest e.span
  | .binding name mutable type none span, dest =>
    makeLetStmt cx (makeLet cx name mutable type none) dest span
  | .binding name mutable type (some init) span, dest =>
    makeLetStmt cx (makeLet cx name mutable type (some (lowerExpr cx init))) dest span
  | .use path span, dest => do
    addDirective path
    stepIn cx fun cx => Lower.statementUnit cx dest span
termination_by structural s => s

def lowerStmts (cx : Context σ) (span : Location) : List Stmt → Access → Lower σ π Unit
  | [], dest => do stepIn cx fun cx => Lower.moveUnit cx dest span
  | [stmt], dest => attempt (lowerStmt cx stmt (some dest))
  | stmt :: rest, dest => do
    attempt (lowerStmt cx stmt none)
    lowerStmts cx span rest dest
termination_by structural stmts => stmts

end

def lowerRoot (cx : Context σ) (body : Expr) : Lower σ π Unit := do
  attempt (settling cx cx.result (lowerExpr cx body))
  let done ← step do Semcheck.Lower.orFault (← get).draft.isTerminated
  if !done then stepIn cx fun cx => Lower.terminate cx.exit

def lowerFunction (cx : Context σ) (body : Expr) (span : Location) : Lower σ π Function := do
  lowerRoot cx body
  stepIn cx Lower.closeTypes
  stepIn cx fun cx => Lower.sealFunction cx span

end Lower

end Pooled

end Semcheck
