/-
  A function under construction.

  A `Draft` starts with one open segment, the entry.  A segment is open until
  it gets its terminator, and new instructions go to the current segment.
  `Draft.finish` turns the draft into a function if every segment is closed.
-/
import Semcheck.Defect
import Semcheck.Ir.Function

namespace Semcheck

/-- A segment that may still lack its terminator. -/
structure OpenSegment where
  instructions : List Instruction
  terminator : Option Terminator
deriving DecidableEq

def OpenSegment.empty : OpenSegment := ⟨[], none⟩

/-- The function numbered `function`, as far as it is built. -/
structure Draft where
  function : Nat
  registers : List Register
  paramCount : Nat
  bindings : List Binding
  segments : List OpenSegment
  current : SegmentId
deriving DecidableEq

namespace Draft

/-- A draft with an open entry segment and nothing else. -/
def new (function : Nat) : Draft where
  function := function
  registers := []
  paramCount := 0
  bindings := []
  segments := [.empty]
  current := .entry

/-- A draft with the parameters of a function whose signature is known. -/
def ofSignature (function : Nat) (f : Function) : Draft :=
  { new function with registers := f.registers, paramCount := f.paramCount, bindings := f.bindings }

/-! ## Registers and bindings -/

def addRegister (d : Draft) (type : Ty) (span : Location) : RegisterId × Draft :=
  (⟨d.registers.length⟩, { d with registers := d.registers ++ [⟨type, span⟩] })

def bind (d : Draft) (name : String) (register : RegisterId) (mutable : Bool) : Draft :=
  { d with bindings := d.bindings ++ [⟨name, register, mutable⟩] }

/-- Add a parameter: a register and its name.  All parameters come before the
    other registers. -/
def addParam (d : Draft) (name : String) (type : Ty) (mutable : Bool) (span : Location) :
    Except Defect (RegisterId × Draft) :=
  if d.registers.length ≠ d.paramCount then
    .error (.parameterCount d.function d.paramCount d.registers.length)
  else
    let (r, d) := d.addRegister type span
    .ok (r, { d with paramCount := d.paramCount + 1 }.bind name r mutable)

def registerType (d : Draft) (r : RegisterId) : Except Fault Ty :=
  match d.registers[r.index]? with
  | some register => .ok register.type
  | none => .error (.register r.index)

def mapTypes (d : Draft) (f : Ty → Except Fault Ty) : Except Fault Draft := do
  let registers ← d.registers.mapM fun r => do return { r with type := ← f r.type }
  return { d with registers := registers }

/-! ## Segments -/

/-- Create an open segment; the current segment stays. -/
def newSegment (d : Draft) : SegmentId × Draft :=
  (⟨d.segments.length⟩, { d with segments := d.segments ++ [.empty] })

/-- Let new instructions go to the given segment. -/
def switchTo (d : Draft) (s : SegmentId) : Draft :=
  { d with current := s }

def currentSegment (d : Draft) : Except Fault OpenSegment :=
  match d.segments[d.current.index]? with
  | some segment => .ok segment
  | none => .error (.segment d.current.index)

def setCurrent (d : Draft) (segment : OpenSegment) : Draft :=
  { d with segments := d.segments.set d.current.index segment }

def push (d : Draft) (i : Instruction) : Except Fault Draft := do
  let segment ← d.currentSegment
  return d.setCurrent { segment with instructions := segment.instructions ++ [i] }

def isTerminated (d : Draft) : Except Fault Bool := do
  return (← d.currentSegment).terminator.isSome

def terminate (d : Draft) (t : Terminator) : Except Abort Draft :=
  match d.currentSegment with
  | .error fault => .error (.fault fault)
  | .ok segment =>
    match segment.terminator with
    | some _ => .error (.defect (.duplicateTerminator d.function d.current.index))
    | none => .ok (d.setCurrent { segment with terminator := some t })

/-! ## Results -/

/-- The function without a body. -/
def toSignature (d : Draft) (returnType : Ty) (span : Location) : Function where
  registers := d.registers
  paramCount := d.paramCount
  bindings := d.bindings
  segments := []
  returnType := returnType
  external := true
  span := span

/-- The finished segments, numbered from `index`; the first open one is a
    defect. -/
def close (function index : Nat) : List OpenSegment → Except Defect (List Segment)
  | [] => .ok []
  | segment :: rest =>
    match segment.terminator with
    | none => .error (.missingTerminator function index)
    | some terminator => do
      return ⟨segment.instructions, terminator⟩ :: (← close function (index + 1) rest)

/-- The function, if every segment is closed. -/
def finish (d : Draft) (returnType : Ty) (span : Location) : Except Defect Function := do
  return {
    registers := d.registers
    paramCount := d.paramCount
    bindings := d.bindings
    segments := ← close d.function 0 d.segments
    returnType := returnType
    external := false
    span := span
  }

end Draft

end Semcheck
