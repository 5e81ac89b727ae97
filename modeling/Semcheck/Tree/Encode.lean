/-
  Syntax trees as JSON.

  A record becomes an object with all its fields: `null` stands for a missing
  part, and flags are always written.  An alternative becomes an object with
  one member, whose key names the alternative.  An expression, a statement or a
  type is an object with its kind and its location.
-/
import Semcheck.Json.Basic
import Semcheck.Tree.Basic

namespace Semcheck

open Json (object ofOption)

def Span.encode (s : Span) : Json :=
  object [("start", .nat s.start.toNat), ("end", .nat s.stop.toNat)]

def Location.encode (l : Location) : Json :=
  object [("file", .nat l.file.index.toNat), ("span", l.span.encode)]

def Ident.encode (i : Ident) : Json :=
  object [("text", .text i.text), ("span", i.span.encode)]

def Path.encode (p : Path) : Json :=
  object [("segments", .arr (p.segments.map Ident.encode)), ("absolute", .bool p.absolute),
    ("span", p.span.encode)]

/-- A node: its kind with what belongs to it, and its location. -/
def Json.node (kind : String) (payload : Json) (span : Location) : Json :=
  object [("kind", object [(kind, payload)]), ("span", span.encode)]

open Json (node)

/-! ## Types -/

mutual

def TypeExpr.encode : TypeExpr → Json
  | .path path span => node "path" path.encode span
  | .pointer mutable lifetime pointee span =>
    node "pointer" (object [("mutable", .bool mutable), ("lifetime", ofOption Ident.encode lifetime),
      ("pointee", pointee.encode)]) span
  | .tuple elements span => node "tuple" (.arr (encodeTypes elements)) span
  | .funct params none span =>
    node "funct" (object [("params", .arr (encodeTypes params)), ("returns", .null)]) span
  | .funct params (some returns) span =>
    node "funct" (object [("params", .arr (encodeTypes params)), ("returns", returns.encode)]) span

def encodeTypes : List TypeExpr → List Json
  | [] => []
  | t :: rest => t.encode :: encodeTypes rest

end

/-! ## Expressions and statements -/

mutual

def Expr.encode : Expr → Json
  | .block stmts span => node "block" (.arr (encodeStmts stmts)) span
  | .int value span => node "int" (.int value.toInt) span
  | .bool value span => node "bool" (.bool value) span
  | .tuple elements span => node "tuple" (.arr (encodeExprs elements)) span
  | .structLit path fields span =>
    node "struct_lit" (object [("path", path.encode), ("fields", .arr (encodeInits fields))]) span
  | .name path span => node "name" path.encode span
  | .field base field span =>
    node "field" (object [("base", base.encode), ("field", field.encode)]) span
  | .addressOf mutable operand span =>
    node "address_of" (object [("mutable", .bool mutable), ("operand", operand.encode)]) span
  | .deref operand span => node "deref" operand.encode span
  | .call callee args span =>
    node "call" (object [("callee", callee.encode), ("args", .arr (encodeExprs args))]) span
  | .ifElse condition thenBranch none span =>
    node "if" (object [("condition", condition.encode), ("then_branch", thenBranch.encode),
      ("else_branch", .null)]) span
  | .ifElse condition thenBranch (some elseBranch) span =>
    node "if" (object [("condition", condition.encode), ("then_branch", thenBranch.encode),
      ("else_branch", elseBranch.encode)]) span
  | .loop condition body span =>
    node "while" (object [("condition", condition.encode), ("body", body.encode)]) span
  | .assign target value span =>
    node "assign" (object [("target", target.encode), ("value", value.encode)]) span
  | .ret none span => node "return" .null span
  | .ret (some value) span => node "return" value.encode span

def Stmt.encode : Stmt → Json
  | .expr expr span => node "expr" expr.encode span
  | .binding name mutable type none span =>
    node "let" (object [("name", name.encode), ("mutable", .bool mutable),
      ("ty", ofOption TypeExpr.encode type), ("init", .null)]) span
  | .binding name mutable type (some init) span =>
    node "let" (object [("name", name.encode), ("mutable", .bool mutable),
      ("ty", ofOption TypeExpr.encode type), ("init", init.encode)]) span
  | .use path span => node "use" path.encode span

def encodeExprs : List Expr → List Json
  | [] => []
  | e :: rest => e.encode :: encodeExprs rest

def encodeStmts : List Stmt → List Json
  | [] => []
  | s :: rest => s.encode :: encodeStmts rest

def encodeInits : List FieldInit → List Json
  | [] => []
  | ⟨name, value, span⟩ :: rest =>
    object [("name", name.encode), ("value", value.encode), ("span", span.encode)] ::
      encodeInits rest

end

/-! ## Items -/

def FieldDecl.encode (f : FieldDecl) : Json :=
  object [("name", f.name.encode), ("ty", f.type.encode), ("span", f.span.encode)]

def ParamDecl.encode (p : ParamDecl) : Json :=
  object [("name", p.name.encode), ("mutable", .bool p.mutable), ("ty", p.type.encode),
    ("span", p.span.encode)]

def StructDecl.encode (d : StructDecl) : Json :=
  object [("name", d.name.encode), ("fields", .arr (d.fields.map FieldDecl.encode)),
    ("span", d.span.encode)]

def FunctDecl.encode (d : FunctDecl) : Json :=
  object [("name", d.name.encode), ("params", .arr (d.params.map ParamDecl.encode)),
    ("returns", ofOption TypeExpr.encode d.returns), ("body", ofOption Expr.encode d.body),
    ("span", d.span.encode)]

mutual

def Item.encode : Item → Json
  | .space name items span =>
    object [("namespace", object [("name", name.encode), ("items", .arr (encodeItems items)),
      ("span", span.encode)])]
  | .use path span =>
    object [("use", object [("path", path.encode), ("items", .null), ("span", span.encode)])]
  | .useBlock path items span =>
    object [("use", object [("path", path.encode), ("items", .arr (encodeItems items)),
      ("span", span.encode)])]
  | .struct decl => object [("struct", decl.encode)]
  | .funct decl => object [("funct", decl.encode)]

def encodeItems : List Item → List Json
  | [] => []
  | i :: rest => i.encode :: encodeItems rest

end

def SourceFile.encode (f : SourceFile) : Json :=
  object [("file", .nat f.file.index.toNat), ("items", .arr (encodeItems f.items)),
    ("span", f.span.encode)]

/-- A program: the list of its files. -/
def encodeFiles (files : List SourceFile) : Json :=
  .arr (files.map SourceFile.encode)

end Semcheck
