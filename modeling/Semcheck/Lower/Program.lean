/-
  A whole program: its declarations with their lowered bodies, and the report.

  `lowerFiles` declares the names, resolves the signatures and lowers the
  bodies.  Every body is lowered against the signatures alone, so that the
  order of the functions does not matter.  A diagnostic does not stop it; only
  an `Abort` does.
-/
import Semcheck.Lower.Expr

namespace Semcheck

namespace Lower

/-- Lower the body expression into the result of the function, and leave the
    function at its end. -/
def lowerRoot (cx : Context) (body : Expr) : Lower Unit := do
  attempt (settling cx cx.result (lowerExpr cx body))
  let done ← orFault (← get).draft.isTerminated
  if !done then terminate cx.exit

/-- Solve what inference has left open, and report the values whose type is
    still unknown. -/
def closeTypes (cx : Context) : Lower Unit := do
  let failures ← onEngine solve
  failures.forM fun failure => reportInfer cx failure.error failure.span
  (← get).engine.unresolved.forM fun entry =>
    complain .inferenceImpossible "type annotations needed: cannot infer the type of this value"
      entry.2

def sealFunction (cx : Context) (span : Location) : Lower Function := do
  let b ← get
  let draft ← orFault (b.draft.mapTypes fun type => b.engine.concretize type)
  match draft.finish cx.returnType span with
  | .ok f => return f
  | .error defect => abort (.defect defect)

/-- Lower a function whose body is given. -/
def lowerFunction (cx : Context) (body : Expr) (span : Location) : Lower Function := do
  lowerRoot cx body
  closeTypes cx
  sealFunction cx span

end Lower

/-- The place for the value of a function; a function that returns `()` needs
    none. -/
def resultAccess (draft : Draft) (returnType : Ty) (span : Location) : Access × Draft :=
  if returnType.isUnit then (.discard, draft)
  else
    let (register, draft) := draft.addRegister returnType span
    (.register register, draft)

/-- Lower the body of a function; the diagnostics are added to the report.  The
    flag tells whether a step gave up. -/
def lowerBody (strict : Bool) (table : Table) (pending : PendingFunct) (body : Expr)
    (report : Report) : Except Abort (Function × Report × Bool) :=
  match table.funct pending.id with
  | .error fault => .error (.fault fault)
  | .ok signature =>
    let draft := Draft.ofSignature pending.id.index signature
    let (result, draft) := resultAccess draft signature.returnType body.span
    let cx : Context := { table := table, result := result, returnType := signature.returnType }
    let start : Body := {
      report := report
      engine := .empty strict
      draft := draft
      scope := pending.scope
      locals := signature.bindings.map Local.ofParam
      loopDepth := 0
      gaveUp := false
    }
    match (Lower.lowerFunction cx body pending.decl.span).run start with
    | .error reason => .error reason
    | .ok (none, b) => .ok (signature, b.report, true)
    | .ok (some f, b) => .ok (f, b.report, b.gaveUp)

/-- Lower the bodies of the functions that have one. -/
def lowerBodies (strict : Bool) (table : Table) :
    List PendingFunct → Report → Except Abort (List (FunctId × Function) × Report × Bool)
  | [], report => .ok ([], report, false)
  | pending :: rest, report =>
    match pending.decl.body with
    | none => lowerBodies strict table rest report
    | some body => do
      let (f, report, gaveUp) ← lowerBody strict table pending body report
      let (others, report, othersGaveUp) ← lowerBodies strict table rest report
      return ((pending.id, f) :: others, report, gaveUp || othersGaveUp)

/-- Replace signatures by whole functions. -/
def Table.setFuncts (t : Table) : List (FunctId × Function) → Except Fault Table
  | [] => .ok t
  | (id, f) :: rest => do (← t.setFunct id f).setFuncts rest

/-- The declarations of the files with their lowered bodies, and the report. -/
def lowerFiles (strict : Bool) (files : List SourceFile) : Except Abort Program := do
  let outline := Outline.ofFiles files
  let ((), program) ← (lowerSignatures outline).run ⟨outline.table, outline.report, false⟩
  let (bodies, report, gaveUp) ← lowerBodies strict program.table outline.functs program.report
  match program.table.setFuncts bodies with
  | .ok table => return ⟨table, report, gaveUp⟩
  | .error fault => throw (.fault fault)

end Semcheck
