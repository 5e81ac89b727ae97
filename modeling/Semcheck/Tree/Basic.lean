/-
  Syntax trees, as a parser hands them over.

  A `SourceFile` holds items: namespaces, `use` directives, structs and
  functions.  Function bodies are expressions (`Expr`), which contain
  statements (`Stmt`) and field initializers (`FieldInit`); types are written
  as `TypeExpr`.  Every node carries the location it was read from.
-/
import Semcheck.Span
import Semcheck.Name.Segments

namespace Semcheck

/-! ## Names -/

/-- An identifier. -/
structure Ident where
  text : String
  span : Location
deriving DecidableEq

/-- A path `a::b`, or `::a::b` if it is absolute. -/
structure Path where
  segments : List Ident
  absolute : Bool
  span : Location
deriving DecidableEq

/-- The only identifier of a relative path of length one. -/
def Path.single? (p : Path) : Option Ident :=
  match p.segments, p.absolute with
  | [only], false => some only
  | _, _ => none

/-- The texts of the segments. -/
def Path.texts (p : Path) : List String :=
  p.segments.map Ident.text

/-- The path as it is written. -/
def Path.text (p : Path) : String :=
  (if p.absolute then "::" else "") ++ joinSegments p.texts

/-! ## Types -/

/-- Type syntax. -/
inductive TypeExpr where
  /-- A named type. -/
  | path (path : Path) (span : Location)
  /-- `*mut T` or `*const T`; the lifetime is accepted and not part of the type. -/
  | pointer (mutable : Bool) (lifetime : Option Ident) (pointee : TypeExpr) (span : Location)
  /-- `(A, B)`; `()` is the unit type. -/
  | tuple (elements : List TypeExpr) (span : Location)
  /-- `fn(A, B) -> R`; without `R` the function returns `()`. -/
  | funct (params : List TypeExpr) (returns : Option TypeExpr) (span : Location)

def TypeExpr.span : TypeExpr → Location
  | .path _ span | .pointer _ _ _ span | .tuple _ span | .funct _ _ span => span

/-! ## Expressions and statements -/

mutual

/-- Expression syntax. -/
inductive Expr where
  /-- `{ s1; s2; e }`: the last statement gives the value. -/
  | block (stmts : List Stmt) (span : Location)
  | int (value : Int64) (span : Location)
  | bool (value : Bool) (span : Location)
  /-- `(a, b)`; `()` is the empty tuple. -/
  | tuple (elements : List Expr) (span : Location)
  /-- `S { a: e1, b: e2 }` -/
  | structLit (path : Path) (fields : List FieldInit) (span : Location)
  /-- A local, a parameter or a function. -/
  | name (path : Path) (span : Location)
  /-- `base.field`; the elements of a tuple have numbers for names. -/
  | field (base : Expr) (field : Ident) (span : Location)
  /-- `&e` or `&mut e` -/
  | addressOf (mutable : Bool) (operand : Expr) (span : Location)
  /-- `*e` -/
  | deref (operand : Expr) (span : Location)
  | call (callee : Expr) (args : List Expr) (span : Location)
  /-- `if c { .. } else { .. }` -/
  | ifElse (condition thenBranch : Expr) (elseBranch : Option Expr) (span : Location)
  /-- `while c { .. }` -/
  | loop (condition body : Expr) (span : Location)
  /-- `target = value` -/
  | assign (target value : Expr) (span : Location)
  /-- `return` or `return e` -/
  | ret (value : Option Expr) (span : Location)

/-- Statement syntax. -/
inductive Stmt where
  | expr (expr : Expr) (span : Location)
  /-- `let [mut] x [: T] [= e]` -/
  | binding (name : Ident) (mutable : Bool) (type : Option TypeExpr) (init : Option Expr)
      (span : Location)
  /-- `use P::*;`, for the rest of the block. -/
  | use (path : Path) (span : Location)

/-- A field initializer `a: e` of a struct literal. -/
structure FieldInit where
  name : Ident
  value : Expr
  span : Location

end

def Expr.span : Expr → Location
  | .block _ span | .int _ span | .bool _ span | .tuple _ span | .structLit _ _ span
  | .name _ span | .field _ _ span | .addressOf _ _ span | .deref _ span | .call _ _ span
  | .ifElse _ _ _ span | .loop _ _ span | .assign _ _ span | .ret _ span => span

def Stmt.span : Stmt → Location
  | .expr _ span | .binding _ _ _ _ span | .use _ span => span

/-! ## Items -/

/-- A field of a struct declaration. -/
structure FieldDecl where
  name : Ident
  type : TypeExpr
  span : Location

/-- A parameter of a function declaration. -/
structure ParamDecl where
  name : Ident
  mutable : Bool
  type : TypeExpr
  span : Location

/-- A struct declaration. -/
structure StructDecl where
  name : Ident
  fields : List FieldDecl
  span : Location

/-- A function declaration; a function without a body is external. -/
structure FunctDecl where
  name : Ident
  params : List ParamDecl
  returns : Option TypeExpr
  body : Option Expr
  span : Location

/-- What stands at the top of a file, in a namespace or in a `use` block. -/
inductive Item where
  /-- `namespace A::B { .. }` -/
  | space (name : Path) (items : List Item) (span : Location)
  /-- `use P::*;`, for the items that follow. -/
  | use (path : Path) (span : Location)
  /-- `use P::* { .. }`, for the items inside. -/
  | useBlock (path : Path) (items : List Item) (span : Location)
  | struct (decl : StructDecl)
  | funct (decl : FunctDecl)

def Item.span : Item → Location
  | .space _ _ span | .use _ span | .useBlock _ _ span => span
  | .struct decl => decl.span
  | .funct decl => decl.span

/-- One parsed file. -/
structure SourceFile where
  file : FileId
  items : List Item
  span : Location

end Semcheck
