/-
  Building syntax trees by hand.

  A `Builder` gives every node, identifier and path a location of its own: the
  positions `0..1`, `2..3`, `4..5`, … of its file, in the order of the calls.
  Each operation below makes one node from finished parts; the parts that are
  given as text (identifiers and paths) take their locations first, and the
  node takes its own last.
-/
import Semcheck.Tree.Basic

namespace Semcheck

/-- The file being built and the next free position in it. -/
structure Builder where
  file : FileId
  cursor : UInt32

/-- A step of building a tree. -/
abbrev BuildM := StateM Builder

namespace Builder

/-- The next location. -/
def span : BuildM Location := do
  let b ← get
  set { b with cursor := b.cursor + 2 }
  return ⟨b.file, ⟨b.cursor, b.cursor + 1⟩⟩

def ident (text : String) : BuildM Ident := do
  return ⟨text, ← span⟩

/-- The path written as `text`: a leading `::` makes it absolute, and empty
    segments are kept.  The path takes the first location, its segments the
    next ones. -/
def path (text : String) : BuildM Path := do
  let whole ← span
  match stripRoot text.toList with
  | some rest => return ⟨← (splitSegments (String.ofList rest)).mapM ident, true, whole⟩
  | none => return ⟨← (splitSegments text).mapM ident, false, whole⟩

/-! ## Types -/

def typePath (text : String) : BuildM TypeExpr := do
  return .path (← path text) (← span)

def typePointer (mutable : Bool) (pointee : TypeExpr) : BuildM TypeExpr := do
  return .pointer mutable none pointee (← span)

/-- A pointer type with a lifetime. -/
def typePointerLifetime (mutable : Bool) (lifetime : String) (pointee : TypeExpr) :
    BuildM TypeExpr := do
  return .pointer mutable (some (← ident lifetime)) pointee (← span)

def typeTuple (elements : List TypeExpr) : BuildM TypeExpr := do
  return .tuple elements (← span)

def typeFunct (params : List TypeExpr) (returns : Option TypeExpr) : BuildM TypeExpr := do
  return .funct params returns (← span)

/-! ## Expressions -/

def int (value : Int64) : BuildM Expr := do
  return .int value (← span)

def bool (value : Bool) : BuildM Expr := do
  return .bool value (← span)

def tuple (elements : List Expr) : BuildM Expr := do
  return .tuple elements (← span)

def unit : BuildM Expr :=
  tuple []

def name (text : String) : BuildM Expr := do
  return .name (← path text) (← span)

def field (base : Expr) (text : String) : BuildM Expr := do
  return .field base (← ident text) (← span)

def addressOf (mutable : Bool) (operand : Expr) : BuildM Expr := do
  return .addressOf mutable operand (← span)

def deref (operand : Expr) : BuildM Expr := do
  return .deref operand (← span)

def call (callee : Expr) (args : List Expr) : BuildM Expr := do
  return .call callee args (← span)

def ifElse (condition thenBranch : Expr) (elseBranch : Option Expr) : BuildM Expr := do
  return .ifElse condition thenBranch elseBranch (← span)

def loop (condition body : Expr) : BuildM Expr := do
  return .loop condition body (← span)

def assign (target value : Expr) : BuildM Expr := do
  return .assign target value (← span)

def ret (value : Option Expr) : BuildM Expr := do
  return .ret value (← span)

def structLit (text : String) (fields : List (String × Expr)) : BuildM Expr := do
  let path ← path text
  let inits ← fields.mapM fun (name, value) => do
    return { name := ← ident name, value := value, span := ← span : FieldInit }
  return .structLit path inits (← span)

def block (stmts : List Stmt) : BuildM Expr := do
  return .block stmts (← span)

/-! ## Statements -/

/-- An expression statement lies where its expression lies. -/
def stmtExpr (expr : Expr) : Stmt :=
  .expr expr expr.span

/-- The block whose statements are the given expressions. -/
def blockExprs (exprs : List Expr) : BuildM Expr :=
  block (exprs.map stmtExpr)

def stmtLet (text : String) (mutable : Bool) (type : Option TypeExpr) (init : Option Expr) :
    BuildM Stmt := do
  return .binding (← ident text) mutable type init (← span)

def stmtUse (text : String) : BuildM Stmt := do
  return .use (← path text) (← span)

/-! ## Items -/

def struct (text : String) (fields : List (String × TypeExpr)) : BuildM Item := do
  let name ← ident text
  let decls ← fields.mapM fun (field, type) => do
    return { name := ← ident field, type := type, span := ← span : FieldDecl }
  return .struct ⟨name, decls, ← span⟩

def param (text : String) (mutable : Bool) (type : TypeExpr) : BuildM ParamDecl := do
  return ⟨← ident text, mutable, type, ← span⟩

/-- A function; without a body it is external. -/
def funct (text : String) (params : List ParamDecl) (returns : Option TypeExpr)
    (body : Option Expr) : BuildM Item := do
  return .funct ⟨← ident text, params, returns, body, ← span⟩

def space (text : String) (items : List Item) : BuildM Item := do
  return .space (← path text) items (← span)

/-- `use P::*;` -/
def useAll (text : String) : BuildM Item := do
  return .use (← path text) (← span)

/-- `use P::* { items }` -/
def useBlock (text : String) (items : List Item) : BuildM Item := do
  return .useBlock (← path text) items (← span)

/-- The file with the given items, which spans all positions handed out. -/
def sourceFile (items : List Item) : BuildM SourceFile := do
  let b ← get
  return ⟨b.file, items, ⟨b.file, ⟨0, b.cursor⟩⟩⟩

/-- Run the steps on an empty file. -/
def run {α : Type} (file : FileId) (steps : BuildM α) : α :=
  (StateT.run steps ⟨file, 0⟩).1

end Builder

end Semcheck
