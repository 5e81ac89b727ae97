/-
  The nodes of a syntax tree and their preorder.

  `Node.children` lists the nodes directly below a node, in the order in which
  they are written; identifiers and paths are no nodes.  `Node.preorder` walks
  a tree with a list of nodes still to visit: a node comes before its children,
  and its children before what follows the node.
-/
import Semcheck.Tree.Basic

namespace Semcheck

/-- A node of a syntax tree. -/
inductive Node where
  | file (file : SourceFile)
  | item (item : Item)
  | field (field : FieldDecl)
  | param (param : ParamDecl)
  | type (type : TypeExpr)
  | expr (expr : Expr)
  | init (init : FieldInit)
  | stmt (stmt : Stmt)

namespace Node

/-- The word for a node of this kind. -/
def kindName : Node → String
  | .file _ => "file"
  | .item (.space ..) => "namespace"
  | .item (.use ..) | .item (.useBlock ..) => "use"
  | .item (.struct _) => "struct"
  | .item (.funct _) => "funct"
  | .field _ => "field"
  | .param _ => "param"
  | .type _ => "type"
  | .expr _ => "expr"
  | .init _ => "field_init"
  | .stmt _ => "stmt"

def span : Node → Location
  | .file f => f.span
  | .item i => i.span
  | .field f => f.span
  | .param p => p.span
  | .type t => t.span
  | .expr e => e.span
  | .init f => f.span
  | .stmt s => s.span

/-- The nodes directly below a type. -/
def ofType : TypeExpr → List Node
  | .path _ _ => []
  | .pointer _ _ pointee _ => [.type pointee]
  | .tuple elements _ => elements.map .type
  | .funct params returns _ => params.map .type ++ returns.toList.map .type

/-- The nodes directly below an expression. -/
def ofExpr : Expr → List Node
  | .block stmts _ => stmts.map .stmt
  | .int _ _ | .bool _ _ | .name _ _ => []
  | .tuple elements _ => elements.map .expr
  | .structLit _ fields _ => fields.map .init
  | .field base _ _ => [.expr base]
  | .addressOf _ operand _ => [.expr operand]
  | .deref operand _ => [.expr operand]
  | .call callee args _ => .expr callee :: args.map .expr
  | .ifElse condition thenBranch elseBranch _ =>
    .expr condition :: .expr thenBranch :: elseBranch.toList.map .expr
  | .loop condition body _ => [.expr condition, .expr body]
  | .assign target value _ => [.expr target, .expr value]
  | .ret value _ => value.toList.map .expr

/-- The nodes directly below a statement. -/
def ofStmt : Stmt → List Node
  | .expr e _ => [.expr e]
  | .binding _ _ annotation value _ => annotation.toList.map .type ++ value.toList.map .expr
  | .use _ _ => []

/-- The nodes directly below an item. -/
def ofItem : Item → List Node
  | .space _ items _ | .useBlock _ items _ => items.map .item
  | .use _ _ => []
  | .struct decl => decl.fields.map .field
  | .funct decl =>
    decl.params.map .param ++ decl.returns.toList.map .type ++ decl.body.toList.map .expr

/-- The nodes directly below a node, in source order. -/
def children : Node → List Node
  | .file f => f.items.map .item
  | .item i => ofItem i
  | .field f => [.type f.type]
  | .param p => [.type p.type]
  | .type t => ofType t
  | .expr e => ofExpr e
  | .init f => [.expr f.value]
  | .stmt s => ofStmt s

/-! ## The size of a node bounds its children -/

/-- The total size of a list of nodes. -/
noncomputable def totalSize : List Node → Nat
  | [] => 0
  | n :: rest => sizeOf n + totalSize rest

@[simp] theorem totalSize_nil : totalSize [] = 0 := rfl

@[simp] theorem totalSize_cons (n : Node) (rest : List Node) :
    totalSize (n :: rest) = sizeOf n + totalSize rest := rfl

@[simp] theorem totalSize_append (xs ys : List Node) :
    totalSize (xs ++ ys) = totalSize xs + totalSize ys := by
  induction xs with
  | nil => simp
  | cons x xs ih => simp [ih, Nat.add_assoc]

/-- Wrapping the entries of a list as nodes adds nothing to the list's size. -/
theorem totalSize_map_lt {α : Type} [SizeOf α] (wrap : α → Node)
    (h : ∀ a, sizeOf (wrap a) = 1 + sizeOf a) (l : List α) : totalSize (l.map wrap) < sizeOf l := by
  induction l with
  | nil => simp
  | cons a l ih => simp [h]; omega

/-- Wrapping the entry of an option as a node adds nothing to the option's size. -/
theorem totalSize_toList_lt {α : Type} [SizeOf α] (wrap : α → Node)
    (h : ∀ a, sizeOf (wrap a) = 1 + sizeOf a) (o : Option α) :
    totalSize (o.toList.map wrap) ≤ sizeOf o := by
  cases o with
  | none => simp
  | some a => simp [h]

theorem sizeOf_location_pos (l : Location) : 0 < sizeOf l := by
  cases l
  rw [Location.mk.sizeOf_spec]
  omega

theorem totalSize_ofType (t : TypeExpr) : totalSize (ofType t) ≤ sizeOf t := by
  cases t with
  | path => simp [ofType]
  | pointer => simp [ofType]; omega
  | tuple elements =>
    have := totalSize_map_lt Node.type (fun _ => rfl) elements
    simp [ofType]; omega
  | funct params returns =>
    have h1 := totalSize_map_lt Node.type (fun _ => rfl) params
    have h2 := totalSize_toList_lt Node.type (fun _ => rfl) returns
    simp [ofType]; omega

theorem totalSize_ofExpr (e : Expr) : totalSize (ofExpr e) ≤ sizeOf e := by
  cases e with
  | block stmts =>
    have := totalSize_map_lt Node.stmt (fun _ => rfl) stmts
    simp [ofExpr]; omega
  | int | bool | name => simp [ofExpr]
  | tuple elements =>
    have := totalSize_map_lt Node.expr (fun _ => rfl) elements
    simp [ofExpr]; omega
  | structLit path fields =>
    have := totalSize_map_lt Node.init (fun _ => rfl) fields
    simp [ofExpr]; omega
  | field | addressOf => simp [ofExpr]; omega
  | deref => simp [ofExpr]
  | call callee args =>
    have := totalSize_map_lt Node.expr (fun _ => rfl) args
    simp [ofExpr]; omega
  | ifElse condition thenBranch elseBranch span =>
    have h1 := totalSize_toList_lt Node.expr (fun _ => rfl) elseBranch
    have h2 := sizeOf_location_pos span
    simp [ofExpr]; omega
  | loop _ _ span | assign _ _ span =>
    have := sizeOf_location_pos span
    simp [ofExpr]; omega
  | ret value =>
    have := totalSize_toList_lt Node.expr (fun _ => rfl) value
    simp [ofExpr]; omega

theorem totalSize_ofStmt (s : Stmt) : totalSize (ofStmt s) ≤ sizeOf s := by
  cases s with
  | expr => simp [ofStmt]
  | binding name mutable annotation value =>
    have h1 := totalSize_toList_lt Node.type (fun _ => rfl) annotation
    have h2 := totalSize_toList_lt Node.expr (fun _ => rfl) value
    simp [ofStmt]; omega
  | use => simp [ofStmt]

theorem totalSize_ofItem (i : Item) : totalSize (ofItem i) ≤ sizeOf i := by
  cases i with
  | space name items =>
    have := totalSize_map_lt Node.item (fun _ => rfl) items
    simp [ofItem]; omega
  | useBlock path items =>
    have := totalSize_map_lt Node.item (fun _ => rfl) items
    simp [ofItem]; omega
  | use => simp [ofItem]
  | struct decl =>
    obtain ⟨name, fields, span⟩ := decl
    have := totalSize_map_lt Node.field (fun _ => rfl) fields
    simp [ofItem]; omega
  | funct decl =>
    obtain ⟨name, params, returns, body, span⟩ := decl
    have h1 := totalSize_map_lt Node.param (fun _ => rfl) params
    have h2 := totalSize_toList_lt Node.type (fun _ => rfl) returns
    have h3 := totalSize_toList_lt Node.expr (fun _ => rfl) body
    simp [ofItem]; omega

/-- The children of a node are together smaller than the node. -/
theorem totalSize_children_lt (n : Node) : totalSize n.children < sizeOf n := by
  cases n with
  | file f =>
    obtain ⟨file, items, span⟩ := f
    have := totalSize_map_lt Node.item (fun _ => rfl) items
    simp [children]; omega
  | item i => have := totalSize_ofItem i; simp [children]; omega
  | field f => obtain ⟨name, type, span⟩ := f; simp [children]; omega
  | param p => obtain ⟨name, mutable, type, span⟩ := p; simp [children]; omega
  | type t => have := totalSize_ofType t; simp [children]; omega
  | expr e => have := totalSize_ofExpr e; simp [children]; omega
  | init f => obtain ⟨name, value, span⟩ := f; simp [children]; omega
  | stmt s => have := totalSize_ofStmt s; simp [children]; omega

/-! ## Preorder -/

/-- Visit the pending nodes from the front; the children of a visited node are
    put before the other pending ones. -/
def walk : List Node → List Node
  | [] => []
  | n :: pending => n :: walk (n.children ++ pending)
termination_by pending => totalSize pending
decreasing_by
  have := totalSize_children_lt n
  simp; omega

/-- The nodes of a tree, each before its children. -/
def preorder (n : Node) : List Node :=
  walk [n]

end Node

end Semcheck
