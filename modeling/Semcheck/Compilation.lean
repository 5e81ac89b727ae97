/-
  A compilation: the files of a program are lowered, the functions are
  verified, and the report is cut to the length the configuration allows.
-/
import Semcheck.Config.Basic
import Semcheck.Ir.Verify
import Semcheck.Lower.Program

namespace Semcheck

/-- What a compilation gives. -/
structure Compilation where
  /-- The declarations, those of the builtin types among them. -/
  table : Table
  report : Report
  /-- Diagnostics were left out of the report. -/
  truncated : Bool

/-- Verify functions, numbered from `index`. -/
def verifyAll (index : Nat) : List Function → Except Defect Unit
  | [] => .ok ()
  | f :: rest => do
    f.verify index
    verifyAll (index + 1) rest

/-- The functions of a table, in the order of their numbers. -/
def Table.functions (t : Table) : List Function :=
  t.functs.map FunctEntry.funct

/-- The limit leaves some diagnostics out. -/
def Report.exceeds (r : Report) : Option Nat → Bool
  | none => false
  | some limit => limit < r.size

/-- The result of lowering, checked and cut as the configuration says. -/
def Program.finish (config : Config) (program : Program) : Except Defect Compilation := do
  if config.verify then verifyAll 0 program.table.functions
  return {
    table := program.table
    report := program.report.truncate config.maxErrors
    truncated := program.report.exceeds config.maxErrors
  }

def compile (config : Config) (files : List SourceFile) : Except Abort Compilation := do
  let program ← lowerFiles config.strict files
  match program.finish config with
  | .ok c => return c
  | .error defect => throw (.defect defect)

namespace Compilation

def hasErrors (c : Compilation) : Bool :=
  c.report.hasErrors

/-- The structs of the program, without the builtin types. -/
def structs (c : Compilation) : List StructEntry :=
  c.table.structs.drop Table.builtinCount

def functs (c : Compilation) : List FunctEntry :=
  c.table.functs

/-- The function with the given full name, such as `geo::area`. -/
def funct? (c : Compilation) (name : String) : Option Function := do
  let id ← (← c.table.get? (Name.parse name)).funct?
  c.table.funct? id

end Compilation

end Semcheck
