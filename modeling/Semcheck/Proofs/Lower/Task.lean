/-
  The moments of lowering.

  A `Task` is a call of one of the functions that follow the syntax, or of the
  one that asks about a local.  `Task.Calls` says which tasks a task calls and in
  which bodies: some of its steps were run, and the call comes next.  There is
  one case for every place where one of the functions calls another; a name, a field
  or what a pointer points to is found as a place first, also if it is read as a value.

  `Task.Reaches` are the calls at all depths.  What is said of all tasks that the
  body of a function reaches is said of every moment of its lowering.
-/
import Semcheck.Proofs.Lower.Control

namespace Semcheck

open Lower

/-! ## What comes before a call -/

namespace Lower

/-- The struct that a path names, with none of its fields written. -/
def resolveFields (cx : Context) (path : Path) : Lower (StructId × Fields) := do
  let scope := (← get).scope
  let id ← orReport (cx.table.resolveType path.toName path.absolute scope path.span)
  let fields ← orFault (cx.table.fields id)
  let name ← orFault (cx.table.displayName (.struct id))
  return (id, .unwritten name fields)

/-- The place that an expression denotes, or else a temporary that holds its value. -/
def lowerHolder (cx : Context) (e : Expr) : Lower Place :=
  placeOrTemp cx e.span (lowerPlace cx e .read) (lowerExpr cx e)

def lowerCondition (cx : Context) (condition : Expr) : Lower Access := do
  let test ← conditionRegister condition.span
  settling cx test (lowerExpr cx condition)
  return test

/-- Go on where the test succeeds.  Gives the segment where it does not. -/
def branchOn (test : Access) : Lower SegmentId := do
  let first ← newSegment
  let second ← newSegment
  terminate (.branch test first second)
  switchTo first
  return second

/-- Go on in the other branch, with what was known before the first one. -/
def goElse (before : List Assigned) (start : SegmentId) : Lower Unit := do
  restoreAssignments before
  switchTo start

/-- Go on at the head of a loop.  Gives the register of its condition. -/
def startLoop (conditionSpan : Location) : Lower Access := do
  let head ← newSegment
  terminate (.goto head)
  switchTo head
  conditionRegister conditionSpan

def lowerTarget (cx : Context) (target : Expr) : Lower Place := do
  let place ← lowerPlace cx target .assign
  assignedPlace place target.span

/-- The register of a local that is about to be declared. -/
def declareRegister (cx : Context) (name : Ident) (type : Option TypeExpr) : Lower RegisterId := do
  let type ← letType cx name type
  newRegister type name.span

/-- A local comes into scope. -/
def introduce (name : Ident) (register : RegisterId) (mutable : Bool) (state : Assigned) :
    Lower Unit :=
  modify fun b => { b with
    draft := b.draft.bind name.text register mutable
    locals := b.locals ++ [⟨name.text, register, mutable, state, b.loopDepth⟩] }

section Equations

variable (cx : Context) (dest : Access) (span : Location)

theorem lowerExpr_structLit (path : Path) (inits : List FieldInit) :
    lowerExpr cx (.structLit path inits span) dest = (do
      let found ← resolveFields cx path
      let written ← lowerInits cx inits found.2
      makeStruct cx found.1 written dest span) := by
  simp only [lowerExpr, resolveFields, bind_assoc, pure_bind]

theorem lowerExpr_field (base : Expr) (field : Ident) :
    lowerExpr cx (.field base field span) dest = (do
      let place ← lowerHolder cx (.field base field span)
      copyPlace cx place dest span) := by
  simp only [lowerExpr, lowerHolder, placeOrTemp, lowerPlace, bind_assoc, pure_bind]

theorem lowerExpr_deref (operand : Expr) :
    lowerExpr cx (.deref operand span) dest = (do
      let place ← lowerHolder cx (.deref operand span)
      copyPlace cx place dest span) := by
  simp only [lowerExpr, lowerHolder, placeOrTemp, lowerPlace, bind_assoc, pure_bind]

theorem lowerExpr_assign (target value : Expr) :
    lowerExpr cx (.assign target value span) dest = (do
      let place ← lowerTarget cx target
      settling cx place.access (lowerExpr cx value)
      match place.localIndex with
      | some index => markAssigned index
      | none => pure ()
      moveUnit cx dest span) :=
  (bind_assoc _ _ _).symm

theorem makeLet_none (name : Ident) (mutable : Bool) (type : Option TypeExpr) :
    makeLet cx name mutable type none = (do
      let register ← declareRegister cx name type
      introduce name register mutable .unassigned) := by
  simp only [makeLet, declareRegister, bind_assoc, pure_bind]
  rfl

theorem makeLet_some (name : Ident) (mutable : Bool) (type : Option TypeExpr)
    (value : Access → Lower Unit) :
    makeLet cx name mutable type (some value) = (do
      let register ← declareRegister cx name type
      let done ← recover (settling cx (.register register) value)
      introduce name register mutable .assigned
      if !done then giveUp) := by
  simp only [makeLet, declareRegister, bind_assoc]
  rfl

end Equations

end Lower

namespace Body

def nextRegister (b : Body) : RegisterId :=
  ⟨b.draft.registers.length⟩

def withRegister (b : Body) (type : Ty) (span : Location) : Body :=
  { b with draft := (b.draft.addRegister type span).2 }

def withTemp (b : Body) (span : Location) : Body :=
  { b with
    engine := (b.engine.addSlot span).2
    draft := (b.draft.addRegister (.slot (b.engine.addSlot span).1) span).2 }

/-- The body at the head of a loop, with a register for the condition. -/
def atHead (b : Body) (conditionSpan : Location) : Body :=
  (b.withGraph (b.draft.graph.add.jump ⟨b.draft.graph.size⟩ ⟨b.draft.graph.size⟩)).withRegister
    (.struct .bool) conditionSpan

/-- The body with what was known at another point. -/
def restored (b : Body) (before : List Assigned) : Body :=
  { b with locals := updateAssignments.update (fun _ other => other) b.locals before }

abbrev taken (b : Body) (test : Access) : Body :=
  b.withGraph (b.draft.graph.branch test)

/-- The body where the test fails, behind the first branch `b1`. -/
abbrev otherwise (b b₁ : Body) : Body :=
  (b₁.restored (b.locals.map Local.assigned)).withGraph
    (b₁.draft.graph.goTo ⟨b.draft.graph.size + 1⟩)

end Body

namespace Lower

variable {b : Body}

theorem newTemp_eq (span : Location) :
    (newTemp span).run b = .ok (some b.nextRegister, b.withTemp span) :=
  rfl

theorem branchOn_run (h : b.draft.graph.Open) (test : Access) :
    (branchOn test).run b = .ok (some ⟨b.draft.graph.size + 1⟩,
      b.withGraph (b.draft.graph.branch test)) :=
  branch_run h test fun _ _ second => pure second

theorem goElse_run (before : List Assigned) (start : SegmentId) :
    (goElse before start).run b = .ok (some (), (b.restored before).withGraph
      (b.draft.graph.goTo start)) :=
  rfl

theorem startLoop_run (h : b.draft.graph.Open) (span : Location) :
    (startLoop span).run b = .ok (some (.register b.nextRegister), b.atHead span) :=
  loopHead_run h fun _ => conditionRegister span

theorem lowerCondition_run {cx : Context} {condition : Expr} {test : Access} {b b1 b2 : Body}
    (hregister : (conditionRegister condition.span).run b = .ok (some test, b1))
    (hvalue : (settling cx test (lowerExpr cx condition)).run b1 = .ok (some (), b2)) :
    (lowerCondition cx condition).run b = .ok (some test, b2) :=
  (run_bind_some hregister).trans ((run_bind_some hvalue).trans rfl)

end Lower

/-! ## Tasks -/

/-- A call of one of the functions that lower a body. -/
inductive Task where
  /-- `lowerExpr` -/
  | expr (e : Expr) (dest : Access)
  /-- `lowerPlace` -/
  | place (e : Expr) (purpose : Purpose)
  /-- `lowerHolder` -/
  | holder (e : Expr)
  /-- `lowerOperands` -/
  | operands (es : List Expr)
  /-- `lowerInits` -/
  | inits (inits : List FieldInit) (f : Fields)
  /-- `lowerStmt` -/
  | stmt (s : Stmt) (dest : Option Access)
  /-- `lowerStmts` -/
  | stmts (span : Location) (stmts : List Stmt) (dest : Access)
  /-- `localPlace` -/
  | consult (index : Nat) (l : Local) (purpose : Purpose) (span : Location)

namespace Task

/-- The type of the result. -/
abbrev Result : Task → Type
  | .expr _ _ | .stmt _ _ | .stmts _ _ _ => Unit
  | .place _ _ => Option Place
  | .holder _ | .consult _ _ _ _ => Place
  | .operands _ => List Operand
  | .inits _ _ => Fields

/-- The call itself. -/
def lower (cx : Context) : (t : Task) → Lower t.Result
  | .expr e dest => lowerExpr cx e dest
  | .place e purpose => lowerPlace cx e purpose
  | .holder e => lowerHolder cx e
  | .operands es => lowerOperands cx es
  | .inits rest f => lowerInits cx rest f
  | .stmt s dest => lowerStmt cx s dest
  | .stmts span rest dest => lowerStmts cx span rest dest
  | .consult index l purpose span => localPlace index l purpose span

/-- The first task, begun with the first body, calls the second task with the second body. -/
inductive Calls (cx : Context) : Task → Body → Task → Body → Prop
  | block {stmts span dest b} :
    Calls cx (.expr (.block stmts span) dest) b (.stmts span stmts dest) b
  | elements {es span dest b} : Calls cx (.expr (.tuple es span) dest) b (.operands es) b
  | fields {path inits span dest b id f c}
    (hfields : (Lower.resolveFields cx path).run b = .ok (some (id, f), c)) :
    Calls cx (.expr (.structLit path inits span) dest) b (.inits inits f) c
  | name {path span dest b} :
    Calls cx (.expr (.name path span) dest) b (.place (.name path span) .read) b
  | field {base field span dest b} :
    Calls cx (.expr (.field base field span) dest) b (.holder (.field base field span)) b
  | addressed {mutable operand span dest b} :
    Calls cx (.expr (.addressOf mutable operand span) dest) b (.place operand .address) b
  | deref {operand span dest b} :
    Calls cx (.expr (.deref operand span) dest) b (.holder (.deref operand span)) b
  | callee {callee args span dest b} :
    Calls cx (.expr (.call callee args span) dest) b (.holder callee) b
  | args {callee args span dest b p c} (hcallee : (lowerHolder cx callee).run b = .ok (some p, c)) :
    Calls cx (.expr (.call callee args span) dest) b (.operands args) c
  | condition {condition thenBranch elseBranch span dest b test c}
    (htest : (conditionRegister condition.span).run b = .ok (some test, c)) :
    Calls cx (.expr (.ifElse condition thenBranch elseBranch span) dest) b (.expr condition test) c
  | whenBranch {condition thenBranch span dest b test b₁ second b₂ temp c}
    (htest : (lowerCondition cx condition).run b = .ok (some test, b₁))
    (hbranch : (branchOn test).run b₁ = .ok (some second, b₂))
    (htemp : (newTemp thenBranch.span).run b₂ = .ok (some temp, c)) :
    Calls cx (.expr (.ifElse condition thenBranch none span) dest) b
      (.expr thenBranch (.register temp)) c
  | thenBranch {condition thenBranch elseBranch span dest b test b₁ second c}
    (htest : (lowerCondition cx condition).run b = .ok (some test, b₁))
    (hbranch : (branchOn test).run b₁ = .ok (some second, c)) :
    Calls cx (.expr (.ifElse condition thenBranch (some elseBranch) span) dest) b
      (.expr thenBranch dest) c
  | elseBranch {condition thenBranch elseBranch span dest b test b₁ second b₂ b₃ c}
    (htest : (lowerCondition cx condition).run b = .ok (some test, b₁))
    (hbranch : (branchOn test).run b₁ = .ok (some second, b₂))
    (hthen : (attempt (settling cx dest (lowerExpr cx thenBranch))).run b₂ = .ok (some (), b₃))
    (helse : (goElse (b₁.locals.map Local.assigned) second).run b₃ = .ok (some (), c)) :
    Calls cx (.expr (.ifElse condition thenBranch (some elseBranch) span) dest) b
      (.expr elseBranch dest) c
  | loopCondition {condition body span dest b test b₁}
    (hstart : (startLoop condition.span).run b = .ok (some test, b₁)) :
    Calls cx (.expr (.loop condition body span) dest) b (.expr condition test)
      (b₁.atDepth (b₁.loopDepth + 1))
  | loopBody {condition body span dest b test b₁ b₂ after b₃ temp b₄}
    (hstart : (startLoop condition.span).run b = .ok (some test, b₁))
    (htest : (inLoop (settling cx test (lowerExpr cx condition))).run b₁ = .ok (some (), b₂))
    (hbranch : (branchOn test).run b₂ = .ok (some after, b₃))
    (htemp : (newTemp body.span).run b₃ = .ok (some temp, b₄)) :
    Calls cx (.expr (.loop condition body span) dest) b (.expr body (.register temp))
      (b₄.atDepth (b₄.loopDepth + 1))
  | target {target value span dest b} :
    Calls cx (.expr (.assign target value span) dest) b (.place target .assign) b
  | value {target value span dest b p c} (htarget : (lowerTarget cx target).run b = .ok (some p, c)) :
    Calls cx (.expr (.assign target value span) dest) b (.expr value p.access) c
  | returned {value span dest b target c}
    (htarget : (returnTarget cx value.span).run b = .ok (some target, c)) :
    Calls cx (.expr (.ret (some value) span) dest) b (.expr value target) c
  | placeName {path span purpose b index l c}
    (hlocal : (lookupLocal path).run b = .ok (some (some (index, l)), c)) :
    Calls cx (.place (.name path span) purpose) b (.consult index l purpose span) c
  | placeRecord {base field span purpose b} :
    Calls cx (.place (.field base field span) purpose) b (.holder base) b
  | placePointer {operand span purpose b} :
    Calls cx (.place (.deref operand span) purpose) b (.holder operand) b
  | held {e b} : Calls cx (.holder e) b (.place e .read) b
  | spilled {e b b₁ temp c} (hplace : (lowerPlace cx e .read).run b = .ok (some none, b₁))
    (htemp : (newTemp e.span).run b₁ = .ok (some temp, c)) :
    Calls cx (.holder e) b (.expr e (.register temp)) c
  | operand {e rest b temp c} (htemp : (newTemp e.span).run b = .ok (some temp, c)) :
    Calls cx (.operands (e :: rest)) b (.expr e (.register temp)) c
  | otherOperands {e rest b o c}
    (hfirst : (lowerOperand cx e.span (lowerExpr cx e)).run b = .ok (some o, c)) :
    Calls cx (.operands (e :: rest)) b (.operands rest) c
  | init {name value span rest f b index field r c}
    (hfield : findField name.text f.fields = some (index, field))
    (hunwritten : (f.values[index]?.bind id).isSome = false)
    (hregister : (newRegister field.type value.span).run b = .ok (some r, c)) :
    Calls cx (.inits (⟨name, value, span⟩ :: rest) f) b (.expr value (.register r)) c
  | otherInits {name value span rest f b f' c}
    (hfirst : (lowerInit cx f name span value.span (lowerExpr cx value)).run b = .ok (some f', c)) :
    Calls cx (.inits (⟨name, value, span⟩ :: rest) f) b (.inits rest f') c
  | result {e span dest b} : Calls cx (.stmt (.expr e span) (some dest)) b (.expr e dest) b
  | ignored {e span b temp c} (htemp : (newTemp e.span).run b = .ok (some temp, c)) :
    Calls cx (.stmt (.expr e span) none) b (.expr e (.register temp)) c
  | initializer {name mutable type init span dest b r c}
    (hregister : (declareRegister cx name type).run b = .ok (some r, c)) :
    Calls cx (.stmt (.binding name mutable type (some init) span) dest) b (.expr init (.register r)) c
  | lastStmt {span s dest b} : Calls cx (.stmts span [s] dest) b (.stmt s (some dest)) b
  | firstStmt {span s next rest dest b} :
    Calls cx (.stmts span (s :: next :: rest) dest) b (.stmt s none) b
  | otherStmts {span s next rest dest b c}
    (hfirst : (attempt (lowerStmt cx s none)).run b = .ok (some (), c)) :
    Calls cx (.stmts span (s :: next :: rest) dest) b (.stmts span (next :: rest) dest) c

/-- The first task comes to the second one, after any number of calls. -/
inductive Reaches (cx : Context) : Task → Body → Task → Body → Prop
  | here {t b} : Reaches cx t b t b
  | there {t b t₁ b₁ t' b'} (hcall : Calls cx t b t₁ b₁) (hrest : Reaches cx t₁ b₁ t' b') :
    Reaches cx t b t' b'

theorem Calls.reaches {cx : Context} {t t' : Task} {b b' : Body} (h : Calls cx t b t' b') :
    Reaches cx t b t' b' :=
  .there h .here

theorem Reaches.trans {cx : Context} {t t1 t' : Task} {b b1 b' : Body}
    (h1 : Reaches cx t b t1 b1) (h2 : Reaches cx t1 b1 t' b') : Reaches cx t b t' b' := by
  induction h1 with
  | here => exact h2
  | there hcall _ ih => exact .there hcall (ih h2)

end Task

end Semcheck
