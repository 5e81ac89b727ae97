/-
  Types as text.

  `Ty.text` writes a type the way it is written in a program, with the names
  of structs supplied by the caller: `fn(*mut int, (bool,)) -> ()`.  A tuple of
  one element has a comma behind it, an erroneous type reads `{error}` and an
  open one shows its slot.  `Ty.debug` writes the constructors of a type, for
  messages about inference itself.
-/
import Semcheck.Text
import Semcheck.Ty.Basic

namespace Semcheck

/-- The text `struct#0`, for a struct without a name. -/
def StructId.text (id : StructId) : String :=
  "struct#" ++ toString id.index

/-- The text `?0`. -/
def Slot.text (s : Slot) : String :=
  "?" ++ toString s.index

/-- The struct with number `n` has the `n`-th of the given names; a struct
    behind the last one is shown by its number. -/
def structNameIn (names : List String) (id : StructId) : String :=
  names[id.index]?.getD id.text

namespace Ty

mutual

/-- The type as it is written in a program. -/
def text (name : StructId → String) : Ty → String
  | .error => "\x7berror\x7d"
  | .slot s => s.text
  | .pointer true t => "*mut " ++ t.text name
  | .pointer false t => "*const " ++ t.text name
  | .struct id => name id
  | .funct ps r => "fn(" ++ joinWith ", " (texts name ps) ++ ") -> " ++ r.text name
  | .functAny r => "fn(..) -> " ++ r.text name
  | .tuple [t] => "(" ++ t.text name ++ ",)"
  | .tuple ts => "(" ++ joinWith ", " (texts name ts) ++ ")"

/-- The texts of the types of a list. -/
def texts (name : StructId → String) : List Ty → List String
  | [] => []
  | t :: ts => t.text name :: texts name ts

end

/-- The type with structs shown by their numbers. -/
def anonymousText (t : Ty) : String :=
  t.text StructId.text

mutual

/-- The type in terms of its constructors. -/
def debug : Ty → String
  | .error => "Error"
  | .slot s => "Placeholder(Slot(" ++ toString s.index ++ "))"
  | .pointer m t =>
    "Pointer \x7b mutable: " ++ (if m then "true" else "false") ++ ", pointee: " ++ t.debug ++
      " \x7d"
  | .struct id => "Struct(StructId(" ++ toString id.index ++ "))"
  | .funct ps r =>
    "Funct \x7b returns: " ++ r.debug ++ ", params: Some([" ++ joinWith ", " (debugs ps) ++
      "]) \x7d"
  | .functAny r => "Funct \x7b returns: " ++ r.debug ++ ", params: None \x7d"
  | .tuple ts => "Tuple([" ++ joinWith ", " (debugs ts) ++ "])"

/-- The types of a list in terms of their constructors. -/
def debugs : List Ty → List String
  | [] => []
  | t :: ts => t.debug :: debugs ts

end

end Ty

end Semcheck
