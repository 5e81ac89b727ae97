/-
  What can go wrong with the checker itself, as opposed to the program it
  checks.

  A `Defect` is a violated invariant of the intermediate representation, a
  `Fault` a reference to something that does not exist or a loop that outran
  its budget.  Neither is ever caused by the program alone: a computation that
  meets one is given up with an `Abort`.
-/
import Semcheck.Diagnostic

namespace Semcheck

/-- A violated invariant of the function numbered `function`. -/
inductive Defect where
  /-- A segment was finished without a terminator. -/
  | missingTerminator (function segment : Nat)
  /-- A terminator was set twice on the same segment. -/
  | duplicateTerminator (function segment : Nat)
  /-- A terminator leads to a segment that does not exist. -/
  | danglingSegment (function target : Nat)
  /-- An instruction, a terminator or a binding mentions a register that does
      not exist. -/
  | danglingRegister (function register : Nat)
  /-- A register of a finished function has an open type. -/
  | unresolvedPlaceholder (function register : Nat)
  /-- There are not as many registers as the parameters ask for. -/
  | parameterCount (function paramCount registers : Nat)
deriving DecidableEq

def Defect.message : Defect → String
  | .missingTerminator f s =>
    "segment " ++ toString s ++ " of function #" ++ toString f ++ " has no terminator"
  | .duplicateTerminator f s =>
    "segment " ++ toString s ++ " of function #" ++ toString f ++ " already has a terminator"
  | .danglingSegment f t =>
    "function #" ++ toString f ++ " branches to missing segment " ++ toString t
  | .danglingRegister f r =>
    "function #" ++ toString f ++ " references missing register " ++ toString r
  | .unresolvedPlaceholder f r =>
    "register " ++ toString r ++ " of function #" ++ toString f ++ " still has a placeholder type"
  | .parameterCount f p r =>
    "function #" ++ toString f ++ " declares " ++ toString p ++ " parameters but has " ++
      toString r ++ " registers"

def Defect.toDiagnostic (d : Defect) (span : Location) : Diagnostic :=
  Diagnostic.error .internal ("internal compiler error: " ++ d.message) span

/-- A reference that leads nowhere, or a loop that outran its budget. -/
inductive Fault where
  /-- An inference slot that was never allocated. -/
  | slot (index : Nat)
  /-- A register that was never allocated. -/
  | register (index : Nat)
  /-- A segment that was never created. -/
  | segment (index : Nat)
  /-- A struct that is not declared. -/
  | struct (index : Nat)
  /-- A function that is not declared. -/
  | funct (index : Nat)
  /-- A local that is not in scope. -/
  | localVariable (index : Nat)
  /-- The number of rounds set aside for a loop did not suffice. -/
  | budget
deriving DecidableEq

/-- Why a computation was given up for good. -/
inductive Abort where
  | defect (d : Defect)
  | fault (f : Fault)
deriving DecidableEq

end Semcheck
