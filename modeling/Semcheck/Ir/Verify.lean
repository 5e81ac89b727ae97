/-
  Checks on a finished function.

  `verify` accepts a function whose parameters are among its registers, whose
  register types have no open part, and in which every mentioned register and
  segment exists.  Otherwise it names the first violation it meets: parameters,
  register types, bindings, and then the segments in order, each with its
  instructions before its terminator.
-/
import Semcheck.Defect
import Semcheck.Ir.Function

namespace Semcheck

namespace Function

/-- The parameters are among the registers. -/
def checkParams (function : Nat) (f : Function) : Except Defect Unit :=
  if f.paramCount > f.registers.length then
    .error (.parameterCount function f.paramCount f.registers.length)
  else .ok ()

/-- The registers, numbered from `index`, have no open part in their types. -/
def checkTypes (function index : Nat) : List Register → Except Defect Unit
  | [] => .ok ()
  | r :: rest =>
    if r.type.slots.isEmpty then checkTypes function (index + 1) rest
    else .error (.unresolvedPlaceholder function index)

/-- The register exists. -/
def checkRegister (function : Nat) (f : Function) (r : RegisterId) : Except Defect Unit :=
  if (f.register? r).isSome then .ok () else .error (.danglingRegister function r.index)

/-- The register an access starts from exists. -/
def checkAccess (function : Nat) (f : Function) (a : Access) : Except Defect Unit :=
  match a.base? with
  | some r => f.checkRegister function r
  | none => .ok ()

/-- The segment exists. -/
def checkTarget (function : Nat) (f : Function) (s : SegmentId) : Except Defect Unit :=
  if (f.segment? s).isSome then .ok () else .error (.danglingSegment function s.index)

/-- Everything a segment mentions exists. -/
def checkSegment (function : Nat) (f : Function) (s : Segment) : Except Defect Unit := do
  s.instructions.forM fun i => i.accesses.forM (f.checkAccess function)
  s.terminator.accesses.forM (f.checkAccess function)
  s.terminator.successors.forM (f.checkTarget function)

/-- Check the function; its number only labels the defect. -/
def verify (function : Nat) (f : Function) : Except Defect Unit := do
  f.checkParams function
  checkTypes function 0 f.registers
  f.bindings.forM fun b => f.checkRegister function b.register
  f.segments.forM (f.checkSegment function)

end Function

end Semcheck
