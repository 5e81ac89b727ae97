/-
  The state in which a function body is lowered, and the primitive steps.

  A step of `Lower` may give up: a diagnostic was reported, and the rest of the
  statement is left out.  What was done before it gave up stays.  `recover`
  goes on after a step that gave up, and the body remembers that one did.

  A value is lowered into a destination.  The primitive steps add to the draft
  of the function and make the type of the destination agree with the type of
  the value.
-/
import Semcheck.Infer.Solve
import Semcheck.Lower.Signature

namespace Semcheck

/-! ## Locals -/

/-- What is known about the assignments to a local at one point of a body. -/
structure Assigned where
  /-- Every path to this point assigns the local. -/
  definite : Bool
  /-- Some path to this point assigns the local. -/
  possible : Bool
deriving DecidableEq

namespace Assigned

def unassigned : Assigned := ⟨false, false⟩

def assigned : Assigned := ⟨true, true⟩

/-- No path leads to this point. -/
def unreachable : Assigned := ⟨true, false⟩

/-- What is known where two paths meet. -/
def join (a b : Assigned) : Assigned :=
  ⟨a.definite && b.definite, a.possible || b.possible⟩

end Assigned

/-- A local variable or a parameter in scope. -/
structure Local where
  name : String
  register : RegisterId
  mutable : Bool
  assigned : Assigned
  /-- The number of loops around the declaration. -/
  loopDepth : Nat

/-- A parameter is a local that has its value. -/
def Local.ofParam (b : Binding) : Local :=
  ⟨b.name, b.register, b.mutable, .assigned, 0⟩

/-! ## State -/

/-- What does not change while a body is lowered. -/
structure Context where
  table : Table
  /-- Where the value of the function goes. -/
  result : Access
  returnType : Ty

/-- How the function is left. -/
def Context.exit (cx : Context) : Terminator :=
  match cx.result with
  | .discard => .finish
  | result => .ret result

/-- A body as far as it is lowered. -/
structure Body where
  report : Report
  engine : Engine
  draft : Draft
  scope : UseScope
  locals : List Local
  /-- The number of loops around the current point. -/
  loopDepth : Nat
  /-- Some step gave up. -/
  gaveUp : Bool

/-- A step of lowering a body; `none` if it gave up. -/
abbrev Lower := OptionT (StateT Body (Except Abort))

namespace Lower

/-- Give up; a diagnostic was reported before. -/
def giveUp {α : Type} : Lower α :=
  failure

/-- Stop the whole compilation. -/
def abort {α : Type} (reason : Abort) : Lower α :=
  OptionT.mk fun _ => .error reason

def orAbort {α : Type} : Except Abort α → Lower α
  | .ok a => pure a
  | .error reason => abort reason

def orFault {α : Type} : Except Fault α → Lower α
  | .ok a => pure a
  | .error fault => abort (.fault fault)

/-- Run a step and tell whether it went through. -/
def recover (step : Lower Unit) : Lower Bool :=
  OptionT.mk do
    match ← step.run with
    | some () => return some true
    | none =>
      modify fun b => { b with gaveUp := true }
      return some false

/-- Run a step and go on, whether it went through or not. -/
def attempt (step : Lower Unit) : Lower Unit := do
  let _ ← recover step

/-! ## Reports -/

def report (d : Diagnostic) : Lower Unit :=
  modify fun b => { b with report := b.report.push d }

/-- Report an error and go on. -/
def complain (code : Code) (message : String) (span : Location) : Lower Unit :=
  report (.error code message span)

/-- Report an error and give up. -/
def fail {α : Type} (code : Code) (message : String) (span : Location) : Lower α := do
  complain code message span
  giveUp

/-- Take what a name refers to; otherwise report the reason and give up. -/
def orReport {α : Type} (found : Except Fault (Except LookupError α)) : Lower α := do
  match ← orFault found with
  | .ok a => return a
  | .error e =>
    report e.toDiagnostic
    giveUp

/-- Run a step that may add to the report. -/
def reporting {α : Type} (step : ReportM α) : Lower α := do
  let b ← get
  let (a, report) ← orFault (step.run b.report)
  set { b with report := report }
  return a

/-! ## Types -/

def onEngine {α : Type} (step : EngineM α) : Lower α := do
  let b ← get
  let (a, engine) ← orFault (step.run b.engine)
  set { b with engine := engine }
  return a

/-- Follow the bindings of the outermost slot of a type. -/
def shallow (t : Ty) : Lower Ty :=
  onEngine (EngineM.ask fun e => e.shallow t)

def newSlot (origin : Location) : Lower Slot :=
  onEngine (modifyGet fun e => e.addSlot origin)

/-- The text of a type as far as it is known. -/
def typeName (cx : Context) (t : Ty) : Lower String := do
  let t ← onEngine (EngineM.ask fun e => e.resolve t)
  orFault (cx.table.typeText t)

/-- The complaint about a call with the wrong number of arguments. -/
def argumentCountText (expected found : Nat) : String :=
  "function takes " ++ toString expected ++ " arguments but " ++ toString found ++ " were supplied"

/-- Report an error of inference.  A mismatch with an erroneous type follows
    from an error that was reported before. -/
def reportInfer (cx : Context) (e : InferError) (span : Location) : Lower Unit :=
  match e with
  | .mismatch expected found => do
    if expected.containsError || found.containsError then return
    let expected ← typeName cx expected
    let found ← typeName cx found
    complain .incompatibleTypes
      ("mismatched types: expected " ++ ticked expected ++ ", found " ++ ticked found) span
  | .notFunct found => do
    let found ← typeName cx found
    complain .incompatibleTypes ("type " ++ ticked found ++ " is not callable") span
  | .argumentCount expected found =>
    complain .wrongArgumentNumber (argumentCountText expected found) span
  | .recursive _ type => do
    let type ← typeName cx type
    complain .incompatibleTypes ("cannot build the recursive type " ++ ticked type) span

def unifyAt (cx : Context) (expected found : Ty) (span : Location) : Lower Unit := do
  match ← onEngine (unify expected found).run with
  | .ok () => return
  | .error e =>
    reportInfer cx e span
    giveUp

/-! ## Draft -/

def onDraft {α : Type} (step : Draft → α × Draft) : Lower α :=
  modifyGet fun b => ((step b.draft).1, { b with draft := (step b.draft).2 })

def newRegister (type : Ty) (span : Location) : Lower RegisterId :=
  onDraft fun d => d.addRegister type span

/-- Allocate a register for a temporary value of unknown type. -/
def newTemp (span : Location) : Lower RegisterId := do
  let slot ← newSlot span
  newRegister (.slot slot) span

def registerType (r : RegisterId) : Lower Ty := do
  orFault ((← get).draft.registerType r)

def newSegment : Lower SegmentId :=
  onDraft fun d => d.newSegment

def switchTo (s : SegmentId) : Lower Unit :=
  onDraft fun d => ((), d.switchTo s)

def currentSegment : Lower SegmentId := do
  return (← get).draft.current

def push (i : Instruction) : Lower Unit := do
  let b ← get
  set { b with draft := ← orFault (b.draft.push i) }

def terminate (t : Terminator) : Lower Unit := do
  let b ← get
  set { b with draft := ← orAbort (b.draft.terminate t) }

/-! ## Destinations -/

/-- The type of a part of a value of type `t`. -/
def fieldsType (cx : Context) : List Nat → Ty → Lower Ty
  | [], t => return t
  | index :: rest, t => do
    match ← shallow t with
    | .struct id =>
      let fields ← orFault (cx.table.fields id)
      fieldsType cx rest ((fields[index]?.map Field.type).getD .error)
    | .tuple elements => fieldsType cx rest (elements[index]?.getD .error)
    | _ => fieldsType cx rest .error

/-- The type of what an access reaches; a discarded value has none. -/
def accessType (cx : Context) : Access → Lower (Option Ty)
  | .discard => return none
  | .place register fields deref => do
    let type ← registerType register
    if deref then
      match ← shallow type with
      | .pointer _ pointee => return some (← fieldsType cx fields pointee)
      | _ => return some (← fieldsType cx fields .error)
    else
      return some (← fieldsType cx fields type)

/-- The slot that the type of a destination still is. -/
def openSlot? (cx : Context) (dest : Access) : Lower (Option Slot) := do
  match ← accessType cx dest with
  | none => return none
  | some type => return (← shallow type).slot?

/-- A value of type `found` goes to the destination. -/
def assign (cx : Context) (dest : Access) (found : Ty) (span : Location) : Lower Unit := do
  match ← accessType cx dest with
  | none => return
  | some expected => unifyAt cx expected found span

/-- Lower into a destination; if that gives up, a destination of unknown type
    gets the erroneous type. -/
def settling (cx : Context) (dest : Access) (step : Access → Lower Unit) : Lower Unit := do
  if ← recover (step dest) then return
  match ← openSlot? cx dest with
  | none => giveUp
  | some slot =>
    let _ ← onEngine (inferType slot .error).run
    giveUp

/-- Write a literal of the given type. -/
def moveLiteral (cx : Context) (value : Literal) (type : Ty) (dest : Access) (span : Location) :
    Lower Unit := do
  push (.literal value dest)
  assign cx dest type span

/-- Write `()`. -/
def moveUnit (cx : Context) (dest : Access) (span : Location) : Lower Unit :=
  moveLiteral cx .unit .unit dest span

/-! ## Assignments to locals -/

/-- What is known about the locals here. -/
def assignments : Lower (List Assigned) := do
  return (← get).locals.map Local.assigned

/-- Change what is known about the locals. -/
def updateAssignments (change : Assigned → Assigned → Assigned) (others : List Assigned) :
    Lower Unit :=
  modify fun b => { b with locals := update b.locals others }
where
  update : List Local → List Assigned → List Local
    | l :: locals, other :: others =>
      { l with assigned := change l.assigned other } :: update locals others
    | locals, _ => locals

/-- Go back to what was known at another point. -/
def restoreAssignments (before : List Assigned) : Lower Unit :=
  updateAssignments (fun _ other => other) before

/-- Another path meets the current one. -/
def joinAssignments (other : List Assigned) : Lower Unit :=
  updateAssignments Assigned.join other

/-- Nothing leads to what follows. -/
def markUnreachable : Lower Unit :=
  modify fun b => { b with locals := b.locals.map fun l => { l with assigned := .unreachable } }

/-- The local with the given index has its value. -/
def markAssigned (index : Nat) : Lower Unit :=
  modify fun b =>
    { b with locals := b.locals.modify index fun l => { l with assigned := .assigned } }

/-- Lower something that runs once per round of a loop. -/
def inLoop (step : Lower Unit) : Lower Unit := do
  modify fun b => { b with loopDepth := b.loopDepth + 1 }
  attempt step
  modify fun b => { b with loopDepth := b.loopDepth - 1 }

end Lower

end Semcheck
