/-
  The intermediate representation.

  A function owns a list of registers and a list of segments, which are
  mentioned by their place in the list.  A segment is a run of instructions
  with one terminator that says how it is left; segment `0` is the entry.
  Instructions move values between places (`Access`): a register, the target of
  a pointer in a register, or a field of either.  A value nobody wants goes to
  `Access.discard`.
-/
import Semcheck.Span
import Semcheck.Ty.Text

namespace Semcheck

/-! ## References -/

structure RegisterId where
  index : Nat
deriving DecidableEq

structure SegmentId where
  index : Nat
deriving DecidableEq

/-- A function, by its number in the declaration table. -/
structure FunctId where
  index : Nat
deriving DecidableEq

/-- The segment where a function starts. -/
def SegmentId.entry : SegmentId := ⟨0⟩

def RegisterId.text (r : RegisterId) : String := "r" ++ toString r.index

def SegmentId.text (s : SegmentId) : String := "s" ++ toString s.index

/-- The text `fn#0`, for a function without a name. -/
def FunctId.text (f : FunctId) : String := "fn#" ++ toString f.index

/-! ## Places -/

/-- Where a value is read from or written to. -/
inductive Access where
  /-- The value is thrown away. -/
  | discard
  /-- The register, or what it points to if `deref` is set, and then the chain
      of fields. -/
  | place (register : RegisterId) (fields : List Nat) (deref : Bool)
deriving DecidableEq

namespace Access

/-- A whole register. -/
def register (r : RegisterId) : Access := .place r [] false

/-- The field with the given number of what the access denotes. -/
def field (index : Nat) : Access → Access
  | .discard => .discard
  | .place r fields deref => .place r (fields ++ [index]) deref

/-- The register an access starts from. -/
def base? : Access → Option RegisterId
  | .discard => none
  | .place r _ _ => some r

/-- The register of an access that is a whole register. -/
def plain? : Access → Option RegisterId
  | .place r [] false => some r
  | _ => none

def isDiscard : Access → Bool
  | .discard => true
  | _ => false

def text : Access → String
  | .discard => "_"
  | .place r [] true => "*" ++ r.text
  | .place r fields true => "(*" ++ r.text ++ ")" ++ fieldsText fields
  | .place r fields false => r.text ++ fieldsText fields
where
  fieldsText : List Nat → String
    | [] => ""
    | i :: rest => "." ++ toString i ++ fieldsText rest

end Access

/-! ## Instructions -/

/-- A value made on the spot. -/
inductive Literal where
  | int (value : Int64)
  | bool (value : Bool)
  | tuple (elements : List Access)
  /-- A struct with one operand for each declared field, in that order. -/
  | struct (id : StructId) (fields : List Access)
  | funct (id : FunctId)
deriving DecidableEq

def Literal.unit : Literal := .tuple []

/-- The places a literal is made from. -/
def Literal.operands : Literal → List Access
  | .tuple elements => elements
  | .struct _ fields => fields
  | .int _ | .bool _ | .funct _ => []

inductive Instruction where
  | literal (value : Literal) (dest : Access)
  | move (source dest : Access)
  | address (source : Access) (mutable : Bool) (dest : Access)
  | call (callee : Access) (args : List Access) (dest : Access)
deriving DecidableEq

namespace Instruction

def dest : Instruction → Access
  | .literal _ dest | .move _ dest | .address _ _ dest | .call _ _ dest => dest

/-- The places the instruction takes its operands from. -/
def sources : Instruction → List Access
  | .literal value _ => value.operands
  | .move source _ | .address source _ _ => [source]
  | .call callee args _ => callee :: args

/-- All places the instruction mentions, the destination last. -/
def accesses (i : Instruction) : List Access :=
  i.sources ++ [i.dest]

end Instruction

/-- How a segment is left. -/
inductive Terminator where
  /-- The function ends without a value. -/
  | finish
  /-- The function ends with a value. -/
  | ret (value : Access)
  | goto (target : SegmentId)
  | branch (condition : Access) (onTrue onFalse : SegmentId)
deriving DecidableEq

namespace Terminator

/-- The segments that may come next. -/
def successors : Terminator → List SegmentId
  | .finish | .ret _ => []
  | .goto target => [target]
  | .branch _ onTrue onFalse => [onTrue, onFalse]

/-- The places the terminator reads. -/
def accesses : Terminator → List Access
  | .ret value => [value]
  | .branch condition _ _ => [condition]
  | .finish | .goto _ => []

end Terminator

/-! ## Functions -/

structure Register where
  type : Ty
  span : Location
deriving DecidableEq

/-- A name for a register. -/
structure Binding where
  name : String
  register : RegisterId
  mutable : Bool
deriving DecidableEq

structure Segment where
  instructions : List Instruction
  terminator : Terminator
deriving DecidableEq

/-- A function.  Its first `paramCount` registers are the parameters. -/
structure Function where
  registers : List Register
  paramCount : Nat
  bindings : List Binding
  segments : List Segment
  returnType : Ty
  /-- The function has no body. -/
  external : Bool
  span : Location
deriving DecidableEq

namespace Function

/-- A function of which only the location is known. -/
def declared (span : Location) : Function where
  registers := []
  paramCount := 0
  bindings := []
  segments := []
  returnType := .unit
  external := false
  span := span

def params (f : Function) : List Register :=
  f.registers.take f.paramCount

def signature (f : Function) : Ty :=
  .funct (f.params.map Register.type) f.returnType

def register? (f : Function) (r : RegisterId) : Option Register :=
  f.registers[r.index]?

def segment? (f : Function) (s : SegmentId) : Option Segment :=
  f.segments[s.index]?

def instructionCount (f : Function) : Nat :=
  (f.segments.flatMap Segment.instructions).length

/-- The structs mentioned in types and literals. -/
def structs (f : Function) : List StructId :=
  f.registers.flatMap (fun r => r.type.structs) ++ f.returnType.structs ++
    f.segments.flatMap fun s => s.instructions.filterMap fun
      | .literal (.struct id _) _ => some id
      | _ => none

/-- The functions mentioned in literals. -/
def functs (f : Function) : List FunctId :=
  f.segments.flatMap fun s => s.instructions.filterMap fun
    | .literal (.funct id) _ => some id
    | _ => none

end Function

/-! ## Structs -/

structure Field where
  name : String
  type : Ty
  span : Location
deriving DecidableEq

/-- The first field with the given name, and its place. -/
def findField (name : String) (fields : List Field) : Option (Nat × Field) :=
  (fields.zipIdx.find? fun entry => entry.1.name = name).map fun entry => (entry.2, entry.1)

end Semcheck
