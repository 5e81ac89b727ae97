/-
  Expressions and statements of a function body.

  `lowerExpr` writes the value of an expression into a destination, and
  `lowerPlace` gives the place an expression denotes, if it denotes one.  Both
  follow the syntax.  Steps that do not look into the syntax again stand before
  them, and take the lowered parts as arguments.
-/
import Semcheck.Lower.Place

namespace Semcheck

namespace Lower

/-! ## Values -/

/-- A path that names no local has to name a function. -/
def lowerDeclValue (cx : Context) (path : Path) (dest : Access) (span : Location) : Lower Unit := do
  let scope := (← get).scope
  let decl ← orReport (cx.table.resolve path.toName path.absolute scope path.span)
  match decl.funct? with
  | some id =>
    let f ← orFault (cx.table.funct id)
    moveLiteral cx (.funct id) f.signature dest span
  | none =>
    let found ← orFault (cx.table.displayName decl)
    fail .wrongDeclarationKind ("expected value, found struct " ++ ticked found) span

/-- An operand of a tuple or a call: a temporary, its type, and where it is
    written. -/
structure Operand where
  access : Access
  type : Ty
  span : Location

/-- Lower a value into a temporary. -/
def lowerOperand (cx : Context) (span : Location) (value : Access → Lower Unit) :
    Lower Operand := do
  let temp ← newTemp span
  settling cx (.register temp) value
  return ⟨.register temp, ← registerType temp, span⟩

def makeTuple (cx : Context) (elements : List Operand) (dest : Access) (span : Location) :
    Lower Unit :=
  moveLiteral cx (.tuple (elements.map Operand.access)) (.tuple (elements.map Operand.type))
    dest span

/-- Make the arguments agree with the parameters. -/
def unifyOperands (cx : Context) : List Ty → List Operand → Lower Unit
  | param :: params, arg :: args => do
    unifyAt cx param arg.type arg.span
    unifyOperands cx params args
  | _, _ => return

/-- The type of the result of a call.  A call of a value of unknown type is
    left to inference. -/
def callType (cx : Context) (callee : Ty) (args : List Operand) (calleeSpan span : Location) :
    Lower Ty := do
  match ← shallow callee with
  | .funct params returns =>
    if params.length ≠ args.length then
      fail .wrongArgumentNumber (argumentCountText params.length args.length) span
    unifyOperands cx params args
    return returns
  | .functAny returns => return returns
  | .slot slot =>
    let result ← newSlot span
    onEngine (modify fun e => e.addRule (.call slot (args.map Operand.type) result span))
    return .slot result
  | .error => giveUp
  | type =>
    let type ← typeName cx type
    fail .incompatibleTypes ("type " ++ ticked type ++ " is not callable") calleeSpan

def makeCall (cx : Context) (callee : Place) (args : List Operand) (dest : Access)
    (calleeSpan span : Location) : Lower Unit := do
  let returns ← callType cx callee.type args calleeSpan span
  push (.call callee.access (args.map Operand.access) dest)
  assign cx dest returns span

/-! ## Struct values -/

/-- The fields of a struct value as far as they are written. -/
structure Fields where
  name : String
  fields : List Field
  /-- The values in the order of the fields. -/
  values : List (Option Access)
  failed : Bool

/-- No field is written yet. -/
def Fields.unwritten (name : String) (fields : List Field) : Fields :=
  ⟨name, fields, fields.map fun _ => none, false⟩

/-- Write one field.  A field that the struct lacks, and one that was written
    before, is reported and left out. -/
def lowerInit (cx : Context) (f : Fields) (name : Ident) (span valueSpan : Location)
    (value : Access → Lower Unit) : Lower Fields := do
  match findField name.text f.fields with
  | none =>
    complain .undeclared
      ("struct " ++ ticked f.name ++ " has no field named " ++ ticked name.text) name.span
    return { f with failed := true }
  | some (index, field) =>
    if (f.values[index]?.bind id).isSome then
      complain .incompatibleTypes
        ("field " ++ ticked name.text ++ " is initialized more than once") span
      return { f with failed := true }
    let temp ← newRegister field.type valueSpan
    let done ← recover (settling cx (.register temp) value)
    return { f with
      values := f.values.set index (some (.register temp))
      failed := f.failed || !done }

/-- The names of the fields that are not written. -/
def Fields.missing (f : Fields) : List String :=
  ((f.fields.zip f.values).filter fun entry => entry.2.isNone).map fun entry => entry.1.name

/-- Build a struct value; every field has to be written. -/
def makeStruct (cx : Context) (id : StructId) (f : Fields) (dest : Access) (span : Location) :
    Lower Unit := do
  let missing := f.missing
  if !missing.isEmpty then
    let plural := if missing.length = 1 then "" else "s"
    fail .incompatibleTypes
      ("missing field" ++ plural ++ " " ++ joinWith ", " (missing.map ticked) ++
        " in initializer of " ++ ticked f.name) span
  if f.failed then giveUp
  moveLiteral cx (.struct id (f.values.filterMap fun value => value)) (.struct id) dest span

/-! ## Control flow -/

/-- A condition in a register of its own. -/
def conditionRegister (span : Location) : Lower Access := do
  return .register (← newRegister (.struct .bool) span)

/-- A conditional without `else` is `()`. -/
def makeWhen (cx : Context) (condition : Access) (thenSpan : Location)
    (thenValue : Access → Lower Unit) (dest : Access) (span : Location) : Lower Unit := do
  let branch ← newSegment
  let before ← assignments
  let join ← newSegment
  terminate (.branch condition branch join)
  switchTo branch
  let temp ← newTemp thenSpan
  attempt (settling cx (.register temp) thenValue)
  terminate (.goto join)
  switchTo join
  joinAssignments before
  moveUnit cx dest span

/-- A conditional with `else`: both branches write to the destination. -/
def makeIfElse (cx : Context) (condition : Access) (thenValue elseValue : Access → Lower Unit)
    (dest : Access) : Lower Unit := do
  let thenStart ← newSegment
  let before ← assignments
  let elseStart ← newSegment
  terminate (.branch condition thenStart elseStart)
  switchTo thenStart
  attempt (settling cx dest thenValue)
  let thenEnd ← currentSegment
  let afterThen ← assignments
  restoreAssignments before
  switchTo elseStart
  attempt (settling cx dest elseValue)
  let elseEnd ← currentSegment
  joinAssignments afterThen
  let join ← newSegment
  switchTo thenEnd
  terminate (.goto join)
  switchTo elseEnd
  terminate (.goto join)
  switchTo join

/-- A loop is `()`.  The condition is part of the loop: it runs once more than
    the body. -/
def makeLoop (cx : Context) (conditionSpan bodySpan : Location)
    (condition body : Access → Lower Unit) (dest : Access) (span : Location) : Lower Unit := do
  let head ← newSegment
  terminate (.goto head)
  switchTo head
  let test ← conditionRegister conditionSpan
  inLoop (settling cx test condition)
  let before ← assignments
  let start ← newSegment
  let after ← newSegment
  terminate (.branch test start after)
  switchTo start
  let temp ← newTemp bodySpan
  inLoop (settling cx (.register temp) body)
  terminate (.goto head)
  joinAssignments before
  switchTo after
  moveUnit cx dest span

/-- Where a returned value goes. -/
def returnTarget (cx : Context) (span : Location) : Lower Access := do
  if cx.result.isDiscard then
    return .register (← newRegister .unit span)
  else
    return cx.result

/-- A function that returns no value may leave out `()`. -/
def checkBareReturn (cx : Context) (span : Location) : Lower Unit := do
  if !cx.returnType.isUnit && !cx.returnType.containsError then
    let expected ← typeName cx cx.returnType
    fail .incompatibleTypes
      ("\x60return\x60 without a value in a function returning " ++ ticked expected) span

/-- Leave the function.  What follows is not reachable, and a destination of
    unknown type gets no value. -/
def leave (cx : Context) (dest : Access) : Lower Unit := do
  terminate cx.exit
  let dead ← newSegment
  switchTo dead
  markUnreachable
  match ← openSlot? cx dest with
  | none => return
  | some slot => onEngine do
    set (← EngineM.ask fun e => e.markDiverging slot)

/-! ## Blocks -/

/-- Locals and `use` directives end with the block. -/
def inBlock (step : Lower Unit) : Lower Unit := do
  let outer ← get
  step
  modify fun b => { b with locals := b.locals.take outer.locals.length, scope := outer.scope }

/-- The type of a local: as written, or unknown. -/
def letType (cx : Context) (name : Ident) : Option TypeExpr → Lower Ty
  | some type => do
    let scope := (← get).scope
    reporting (lowerType cx.table scope type)
  | none => do
    return .slot (← newSlot name.span)

/-- Bring a local into scope.  It is not visible in its own initializer, and it
    is in scope after an initializer that gave up. -/
def makeLet (cx : Context) (name : Ident) (mutable : Bool) (type : Option TypeExpr)
    (init : Option (Access → Lower Unit)) : Lower Unit := do
  let type ← letType cx name type
  let register ← newRegister type name.span
  let done ← match init with
    | some value => recover (settling cx (.register register) value)
    | none => pure true
  let state : Assigned := if init.isSome then .assigned else .unassigned
  modify fun b => { b with
    draft := b.draft.bind name.text register mutable
    locals := b.locals ++ [⟨name.text, register, mutable, state, b.loopDepth⟩] }
  if !done then giveUp

/-- The value of a statement that has none of its own. -/
def statementUnit (cx : Context) (dest : Option Access) (span : Location) : Lower Unit :=
  match dest with
  | some dest => moveUnit cx dest span
  | none => return

def makeLetStmt (cx : Context) (step : Lower Unit) (dest : Option Access) (span : Location) :
    Lower Unit := do
  let done ← recover step
  statementUnit cx dest span
  if !done then giveUp

/-- An expression as a statement: its value goes to a temporary, unless it is
    the value of the block. -/
def makeExprStmt (cx : Context) (value : Access → Lower Unit) (dest : Option Access)
    (span : Location) : Lower Unit := do
  match dest with
  | some dest => settling cx dest value
  | none =>
    let temp ← newTemp span
    settling cx (.register temp) value

/-! ## Expressions -/

mutual

/-- Write the value of an expression into a destination. -/
def lowerExpr (cx : Context) : Expr → Access → Lower Unit
  | .block stmts span, dest => inBlock (lowerStmts cx span stmts dest)
  | .int value span, dest => moveLiteral cx (.int value) (.struct .int) dest span
  | .bool value span, dest => moveLiteral cx (.bool value) (.struct .bool) dest span
  | .tuple elements span, dest => do
    let elements ← lowerOperands cx elements
    makeTuple cx elements dest span
  | .structLit path inits span, dest => do
    let scope := (← get).scope
    let id ← orReport (cx.table.resolveType path.toName path.absolute scope path.span)
    let fields ← orFault (cx.table.fields id)
    let name ← orFault (cx.table.displayName (.struct id))
    let written ← lowerInits cx inits (.unwritten name fields)
    makeStruct cx id written dest span
  | .name path span, dest => do
    match ← namedPlace path .read span with
    | some place => copyPlace cx place dest span
    | none => lowerDeclValue cx path dest span
  | .field base field span, dest => do
    let record ← placeOrTemp cx base.span (lowerPlace cx base .read) (lowerExpr cx base)
    let place ← fieldPlace cx record base.span field
    copyPlace cx place dest span
  | .addressOf mutable operand span, dest => do
    let place ← lowerPlace cx operand .address
    takeAddress cx mutable place dest operand.span span
  | .deref operand span, dest => do
    let pointer ← placeOrTemp cx operand.span (lowerPlace cx operand .read) (lowerExpr cx operand)
    let place ← targetPlace cx pointer operand.span
    copyPlace cx place dest span
  | .call callee args span, dest => do
    let place ← placeOrTemp cx callee.span (lowerPlace cx callee .read) (lowerExpr cx callee)
    let args ← lowerOperands cx args
    makeCall cx place args dest callee.span span
  | .ifElse condition thenBranch none span, dest => do
    let test ← conditionRegister condition.span
    settling cx test (lowerExpr cx condition)
    makeWhen cx test thenBranch.span (lowerExpr cx thenBranch) dest span
  | .ifElse condition thenBranch (some elseBranch) _, dest => do
    let test ← conditionRegister condition.span
    settling cx test (lowerExpr cx condition)
    makeIfElse cx test (lowerExpr cx thenBranch) (lowerExpr cx elseBranch) dest
  | .loop condition body span, dest =>
    makeLoop cx condition.span body.span (lowerExpr cx condition) (lowerExpr cx body) dest span
  | .assign target value span, dest => do
    let place ← lowerPlace cx target .assign
    let place ← assignedPlace place target.span
    settling cx place.access (lowerExpr cx value)
    match place.localIndex with
    | some index => markAssigned index
    | none => pure ()
    moveUnit cx dest span
  | .ret (some value) _, dest => do
    let target ← returnTarget cx value.span
    settling cx target (lowerExpr cx value)
    leave cx dest
  | .ret none span, dest => do
    checkBareReturn cx span
    leave cx dest
termination_by structural e => e

/-- The place that an expression denotes, if it denotes one. -/
def lowerPlace (cx : Context) : Expr → Purpose → Lower (Option Place)
  | .name path span, purpose => namedPlace path purpose span
  | .field base field _, _ => do
    let record ← placeOrTemp cx base.span (lowerPlace cx base .read) (lowerExpr cx base)
    return some (← fieldPlace cx record base.span field)
  | .deref operand _, _ => do
    let pointer ← placeOrTemp cx operand.span (lowerPlace cx operand .read) (lowerExpr cx operand)
    return some (← targetPlace cx pointer operand.span)
  | _, _ => return none
termination_by structural e => e

/-- Lower the values of a list of expressions into temporaries. -/
def lowerOperands (cx : Context) : List Expr → Lower (List Operand)
  | [] => return []
  | e :: rest => do
    let first ← lowerOperand cx e.span (lowerExpr cx e)
    return first :: (← lowerOperands cx rest)
termination_by structural es => es

def lowerInits (cx : Context) : List FieldInit → Fields → Lower Fields
  | [], f => return f
  | ⟨name, value, span⟩ :: rest, f => do
    let f ← lowerInit cx f name span value.span (lowerExpr cx value)
    lowerInits cx rest f
termination_by structural inits => inits

/-- Lower a statement.  The last statement of a block has a destination. -/
def lowerStmt (cx : Context) : Stmt → Option Access → Lower Unit
  | .expr e _, dest => makeExprStmt cx (lowerExpr cx e) dest e.span
  | .binding name mutable type none span, dest =>
    makeLetStmt cx (makeLet cx name mutable type none) dest span
  | .binding name mutable type (some init) span, dest =>
    makeLetStmt cx (makeLet cx name mutable type (some (lowerExpr cx init))) dest span
  | .use path span, dest => do
    modify fun b => { b with scope := b.scope.extend path.toName }
    statementUnit cx dest span
termination_by structural s => s

/-- Lower the statements of a block.  Each is lowered, whether those before it
    went through or not; the last gives the value of the block. -/
def lowerStmts (cx : Context) (span : Location) : List Stmt → Access → Lower Unit
  | [], dest => moveUnit cx dest span
  | [stmt], dest => attempt (lowerStmt cx stmt (some dest))
  | stmt :: rest, dest => do
    attempt (lowerStmt cx stmt none)
    lowerStmts cx span rest dest
termination_by structural stmts => stmts

end

end Lower

end Semcheck
