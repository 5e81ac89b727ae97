/-
  The intermediate representation as text.

  A function is written as its header, the registers behind the parameters,
  the names of registers and the segments, each on lines of their own; a struct
  on one line.  The names of structs and functions are supplied by the caller.
-/
import Semcheck.Ir.Function

namespace Semcheck

/-- Names for the structs and functions a printer meets. -/
structure Names where
  struct : StructId → String
  funct : FunctId → String

/-- Names taken from two lists; what lies behind their ends is shown by its
    number. -/
def Names.ofLists (structs functs : List String) : Names where
  struct := structNameIn structs
  funct := fun id => functs[id.index]?.getD id.text

/-- The texts of accesses with commas between them. -/
def accessList (accesses : List Access) : String :=
  joinWith ", " (accesses.map Access.text)

def Literal.text (names : Names) : Literal → String
  | .int value => toString value.toInt
  | .bool value => if value then "true" else "false"
  | .tuple [element] => "(" ++ element.text ++ ",)"
  | .tuple elements => "(" ++ accessList elements ++ ")"
  | .struct id fields => names.struct id ++ " \x7b " ++ accessList fields ++ " \x7d"
  | .funct id => "fn " ++ names.funct id

def Instruction.text (names : Names) : Instruction → String
  | .literal value dest => dest.text ++ " = " ++ value.text names
  | .move source dest => dest.text ++ " = " ++ source.text
  | .address source mutable dest =>
    dest.text ++ " = &" ++ (if mutable then "mut " else "") ++ source.text
  | .call callee args dest =>
    dest.text ++ " = call " ++ callee.text ++ "(" ++ accessList args ++ ")"

def Terminator.text : Terminator → String
  | .finish => "end"
  | .ret value => "return " ++ value.text
  | .goto target => "goto " ++ target.text
  | .branch condition onTrue onFalse =>
    "branch " ++ condition.text ++ " ? " ++ onTrue.text ++ " : " ++ onFalse.text

namespace Function

/-- The registers with their texts `r0: int`. -/
def registerTexts (names : Names) (f : Function) : List String :=
  f.registers.zipIdx.map fun (r, i) => RegisterId.text ⟨i⟩ ++ ": " ++ r.type.text names.struct

/-- The line with the name, the parameters and the result of a function. -/
def header (names : Names) (name : String) (f : Function) : String :=
  (if f.external then "extern " else "") ++ "fn " ++ name ++ "(" ++
    joinWith ", " ((f.registerTexts names).take f.paramCount) ++ ") -> " ++
    f.returnType.text names.struct

/-- The lines of a function. -/
def lines (names : Names) (name : String) (f : Function) : List String :=
  f.header names name ::
    ((f.registerTexts names).drop f.paramCount).map ("  " ++ ·) ++
    f.bindings.map (fun b =>
      "  let " ++ (if b.mutable then "mut " else "") ++ b.name ++ " = " ++ b.register.text) ++
    f.segments.zipIdx.flatMap fun (s, i) =>
      (SegmentId.text ⟨i⟩ ++ ":") ::
        s.instructions.map (fun instruction => "    " ++ instruction.text names) ++
        ["    " ++ s.terminator.text]

/-- The function on lines of its own, each with a line end. -/
def text (names : Names) (name : String) (f : Function) : String :=
  String.join ((f.lines names name).map (· ++ "\n"))

end Function

/-- A struct on one line: `struct Point { x: int, y: int }`. -/
def structText (names : Names) (name : String) (fields : List Field) : String :=
  match fields with
  | [] => "struct " ++ name ++ " \x7b\x7d"
  | fields =>
    "struct " ++ name ++ " \x7b " ++
      joinWith ", " (fields.map fun f => f.name ++ ": " ++ f.type.text names.struct) ++ " \x7d"

end Semcheck
