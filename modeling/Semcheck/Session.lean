/-
  Sessions: compilations that share a pool of names.

  A compilation in a session leaves its names in the pool, for the next one to find.
  What a compilation gives is read with the pool as it was left.
-/
import Semcheck.Compilation
import Semcheck.Ir.Reach
import Semcheck.Pooled.Body

namespace Semcheck

namespace Pooled

variable {σ π : Type} [DecidableEq σ] [Naming σ π]

/-- A lowered function, with the names of its bindings. -/
structure Lowered (σ : Type) where
  id : FunctId
  bindings : List σ
  funct : Function

def lowerBody (strict : Bool) (table : Table σ) (pending : PendingFunct σ) (body : Expr)
    (pool : π) (report : Report) : Except Abort (Lowered σ × π × Report × Bool) :=
  match table.funct pending.id with
  | .error fault => .error (.fault fault)
  | .ok entry =>
    let draft := Draft.ofSignature pending.id.index entry.funct
    let (result, draft) := resultAccess draft entry.funct.returnType body.span
    let cx : Context σ := { table := table, result := result, returnType := entry.funct.returnType }
    let start : Body σ π := {
      pool := pool
      scope := pending.scope
      locals := entry.bindings
      bindings := entry.bindings
      rest := {
        report := report
        engine := .empty strict
        draft := draft
        scope := .empty
        locals := entry.funct.bindings.map Local.ofParam
        loopDepth := 0
        gaveUp := false
      }
    }
    match (Lower.lowerFunction cx body pending.decl.span).run start with
    | .error reason => .error reason
    | .ok (none, b) => .ok (⟨pending.id, entry.bindings, entry.funct⟩, b.pool, b.rest.report, true)
    | .ok (some f, b) => .ok (⟨pending.id, b.bindings, f⟩, b.pool, b.rest.report, b.rest.gaveUp)

def lowerBodies (strict : Bool) (table : Table σ) :
    List (PendingFunct σ) → π → Report → Except Abort (List (Lowered σ) × π × Report × Bool)
  | [], pool, report => .ok ([], pool, report, false)
  | pending :: rest, pool, report =>
    match pending.decl.body with
    | none => lowerBodies strict table rest pool report
    | some body => do
      let (f, pool, report, gaveUp) ← lowerBody strict table pending body pool report
      let (others, pool, report, othersGaveUp) ← lowerBodies strict table rest pool report
      return (f :: others, pool, report, gaveUp || othersGaveUp)

def Table.setFuncts (t : Table σ) : List (Lowered σ) → Except Fault (Table σ)
  | [] => .ok t
  | f :: rest => do (← t.setFunct f.id f.bindings f.funct).setFuncts rest

/-- The declarations of the files with their lowered bodies, the report and the pool. -/
def lowerFiles (strict : Bool) (files : List SourceFile) (pool : π) :
    Except Abort (Program σ π) := do
  let outline : Outline σ π := .ofFiles pool files
  let ((), program) ← (lowerSignatures outline).run
    ⟨outline.pool, outline.table, outline.report, false⟩
  let (bodies, pool, report, gaveUp) ←
    lowerBodies strict program.table outline.functs program.pool program.report
  match program.table.setFuncts bodies with
  | .ok table => return ⟨pool, table, report, gaveUp⟩
  | .error fault => throw (.fault fault)

end Pooled

/-! ## Sessions -/

/-- A configuration, and the names met so far. -/
structure Session (π : Type) where
  config : Config
  pool : π

/-- What a compilation in a session gives. -/
structure Output (σ π : Type) where
  pool : π
  table : Pooled.Table σ
  report : Report
  truncated : Bool

namespace Session

variable {σ π : Type} [DecidableEq σ] [Naming σ π]

/-- A session that has compiled nothing. -/
def new (config : Config) : Session π :=
  ⟨config, Naming.empty⟩

def compile (s : Session π) (files : List SourceFile) :
    Except Abort (Output σ π × Session π) := do
  let program ← Pooled.lowerFiles s.config.strict files s.pool
  match program.spell.finish s.config with
  | .ok c =>
    return (⟨program.pool, program.table, c.report, c.truncated⟩, { s with pool := program.pool })
  | .error defect => throw (.defect defect)

/-- Compile programs one after the other. -/
def compileAll (s : Session π) : List (List SourceFile) → Except Abort (List (Output σ π))
  | [] => .ok []
  | files :: rest => do
    let (out, s) ← s.compile files
    return out :: (← s.compileAll rest)

end Session

namespace Output

variable {σ π : Type} [DecidableEq σ] [Naming σ π]

/-- The output with the texts of its symbols. -/
def spell (out : Output σ π) : Compilation :=
  ⟨out.table.spell out.pool, out.report, out.truncated⟩

/-- The function with the given full name.  The name is put into the pool to look it up. -/
def funct? (out : Output σ π) (name : String) : Option Function := do
  let (symbols, pool) := Naming.internAll out.pool (Name.parse name).segments
  let id ← (← out.table.get? symbols).funct?
  (out.table.spell pool).funct? id

end Output

end Semcheck
