/-
  The walk with a list of pending nodes is the recursive traversal.

  The walk visits a list of nodes tree by tree (`walk_eq_flatMap`), so that the preorder of a node
  is the node followed by the preorders of its children.  `Node.nested` says which nodes lie below
  a node by recursion on the syntax, without the lists of children.

  A node of a tree has a position, the numbers of the children on the way down to it
  (`Node.at?`).  The preorder lists the nodes at all positions in lexicographic order: a parent
  before its children, and siblings from left to right with all that is below them.
-/
import Mathlib.Data.List.FinRange
import Semcheck.Tree.Node

namespace Semcheck

open List

/-! ## The nodes below a node -/

mutual

def TypeExpr.nested : TypeExpr → List Node
  | .path _ _ => []
  | .pointer _ _ pointee _ => .type pointee :: pointee.nested
  | .tuple elements _ => nestedTypes elements
  | .funct params none _ => nestedTypes params
  | .funct params (some returns) _ => nestedTypes params ++ .type returns :: returns.nested

def nestedTypes : List TypeExpr → List Node
  | [] => []
  | t :: rest => .type t :: t.nested ++ nestedTypes rest

end

mutual

def Expr.nested : Expr → List Node
  | .int _ _ | .bool _ _ | .name _ _ | .ret none _ => []
  | .field e _ _ | .addressOf _ e _ | .deref e _ | .ret (some e) _ => .expr e :: e.nested
  | .loop first second _ | .assign first second _ | .ifElse first second none _ =>
    .expr first :: first.nested ++ .expr second :: second.nested
  | .ifElse condition first (some second) _ =>
    .expr condition :: condition.nested ++ .expr first :: first.nested ++
      .expr second :: second.nested
  | .call callee args _ => .expr callee :: callee.nested ++ nestedExprs args
  | .tuple elements _ => nestedExprs elements
  | .block stmts _ => nestedStmts stmts
  | .structLit _ fields _ => nestedInits fields

def Stmt.nested : Stmt → List Node
  | .expr e _ => .expr e :: e.nested
  | .binding _ _ none none _ | .use _ _ => []
  | .binding _ _ (some t) none _ => .type t :: t.nested
  | .binding _ _ none (some e) _ => .expr e :: e.nested
  | .binding _ _ (some t) (some e) _ => .type t :: t.nested ++ .expr e :: e.nested

def nestedExprs : List Expr → List Node
  | [] => []
  | e :: rest => .expr e :: e.nested ++ nestedExprs rest

def nestedStmts : List Stmt → List Node
  | [] => []
  | s :: rest => .stmt s :: s.nested ++ nestedStmts rest

def nestedInits : List FieldInit → List Node
  | [] => []
  | ⟨name, value, span⟩ :: rest =>
    .init ⟨name, value, span⟩ :: .expr value :: value.nested ++ nestedInits rest

end

mutual

def Item.nested : Item → List Node
  | .space _ items _ | .useBlock _ items _ => nestedItems items
  | .use _ _ => []
  | .struct decl => decl.fields.flatMap fun f => .field f :: .type f.type :: f.type.nested
  | .funct decl => decl.params.flatMap (fun p => .param p :: .type p.type :: p.type.nested) ++
      decl.returns.toList.flatMap (fun t => .type t :: t.nested) ++
      decl.body.toList.flatMap fun e => .expr e :: e.nested

def nestedItems : List Item → List Node
  | [] => []
  | i :: rest => .item i :: i.nested ++ nestedItems rest

end

namespace Node

/-- The nodes below a node, each before those below it, as they are written. -/
def nested : Node → List Node
  | .file f => nestedItems f.items
  | .item i => i.nested
  | .field f => .type f.type :: f.type.nested
  | .param p => .type p.type :: p.type.nested
  | .type t => t.nested
  | .expr e => e.nested
  | .init f => .expr f.value :: f.value.nested
  | .stmt s => s.nested

/-! ## The walk -/

theorem walk_append (xs ys : List Node) : walk (xs ++ ys) = walk xs ++ walk ys := by
  fun_induction walk xs with
  | case1 => rfl
  | case2 n pending ih => rw [cons_append, walk, ← append_assoc, ih, cons_append]

@[simp] theorem walk_nil : walk [] = [] := by
  rw [walk]

@[simp] theorem walk_cons (n : Node) (ns : List Node) :
    walk (n :: ns) = n :: (walk n.children ++ walk ns) := by
  rw [walk, walk_append]

/-- The tree of a node: the node, and then the trees of its children. -/
theorem preorder_eq (n : Node) : n.preorder = n :: walk n.children := by
  simp [preorder]

theorem walk_eq_flatMap (ns : List Node) : walk ns = ns.flatMap preorder := by
  induction ns with
  | nil => simp
  | cons n ns ih => simp [ih, preorder_eq]

theorem mem_walk {m : Node} {ns : List Node} : m ∈ walk ns ↔ ∃ n ∈ ns, m ∈ n.preorder := by
  rw [walk_eq_flatMap, mem_flatMap]

/-! ## The recursive traversal -/

end Node

theorem nestedTypes_eq (ts : List TypeExpr) :
    nestedTypes ts = ts.flatMap fun t => .type t :: t.nested := by
  induction ts with
  | nil => rfl
  | cons t ts ih => rw [nestedTypes, ih]; rfl

theorem nestedExprs_eq (es : List Expr) :
    nestedExprs es = es.flatMap fun e => .expr e :: e.nested := by
  induction es with
  | nil => rfl
  | cons e es ih => rw [nestedExprs, ih]; rfl

theorem nestedStmts_eq (ss : List Stmt) :
    nestedStmts ss = ss.flatMap fun s => .stmt s :: s.nested := by
  induction ss with
  | nil => rfl
  | cons s ss ih => rw [nestedStmts, ih]; rfl

theorem nestedInits_eq (fs : List FieldInit) :
    nestedInits fs = fs.flatMap fun f => .init f :: .expr f.value :: f.value.nested := by
  induction fs with
  | nil => rfl
  | cons f fs ih => cases f; rw [nestedInits, ih]; rfl

theorem nestedItems_eq (is : List Item) :
    nestedItems is = is.flatMap fun i => .item i :: i.nested := by
  induction is with
  | nil => rfl
  | cons i is ih => rw [nestedItems, ih]; rfl

namespace Node

/-- Below a node are its children, each with what is below it. -/
theorem nested_eq (n : Node) : n.nested = n.children.flatMap fun c => c :: c.nested := by
  cases n with
  | file f => simp [nested, children, flatMap_map, nestedItems_eq]
  | item i =>
    cases i <;> simp [nested, children, ofItem, Item.nested, flatMap_map, nestedItems_eq]
  | field f | param p | init f => simp [nested, children]
  | type t =>
    rcases t with _ | _ | _ | ⟨_, _ | _⟩ <;>
      simp [nested, children, ofType, TypeExpr.nested, flatMap_map, nestedTypes_eq]
  | expr e =>
    rcases e with _ | _ | _ | _ | _ | _ | _ | _ | _ | _ | ⟨_, _, _ | _⟩ | _ | _ | ⟨_ | _⟩ <;>
      simp [nested, children, ofExpr, Expr.nested, flatMap_map, nestedExprs_eq, nestedStmts_eq,
        nestedInits_eq]
  | stmt s =>
    rcases s with _ | ⟨_, _, _ | _, _ | _⟩ | _ <;> simp [nested, children, ofStmt, Stmt.nested]

theorem sizeOf_child_lt {n c : Node} (h : c ∈ n.children) : sizeOf c < sizeOf n := by
  obtain ⟨before, after, heq⟩ := append_of_mem h
  have hlt := totalSize_children_lt n
  rw [heq, totalSize_append, totalSize_cons] at hlt
  omega

/-- What holds of a node whenever it holds of its children holds of every node. -/
theorem induct {motive : Node → Prop} (step : ∀ n, (∀ c ∈ n.children, motive c) → motive n)
    (n : Node) : motive n :=
  step n fun c _ => induct step c
termination_by sizeOf n
decreasing_by exact sizeOf_child_lt ‹_›

theorem walk_children (n : Node) : walk n.children = n.nested := by
  induction n using induct with
  | step n ih =>
    rw [nested_eq, walk_eq_flatMap]
    exact flatMap_congr fun c hc => by rw [preorder_eq, ih c hc]

/-! ## Positions -/

/-- The node at a position below the given one: each number picks a child. -/
def at? (n : Node) : List Nat → Option Node
  | [] => some n
  | i :: rest => n.children[i]?.bind fun c => c.at? rest

/-- All positions in the tree of a node. -/
def positions (n : Node) : List (List Nat) :=
  [] :: (List.finRange n.children.length).flatMap fun i =>
    (n.children.get i).positions.map (i.val :: ·)
termination_by sizeOf n
decreasing_by exact sizeOf_child_lt (get_mem ..)

theorem mem_positions {n : Node} {p : List Nat} : p ∈ n.positions ↔ (n.at? p).isSome := by
  induction p generalizing n with
  | nil => rw [positions]; simp [at?]
  | cons i p ih =>
    have hmem : i :: p ∈ n.positions ↔ ∃ j : Fin n.children.length,
        p ∈ (n.children.get j).positions ∧ j.val = i := by
      rw [positions]
      simp
    rw [hmem, at?]
    constructor
    · rintro ⟨j, hp, rfl⟩
      simpa [ih] using hp
    · cases hc : n.children[i]? with
      | none => exact fun h => by cases h
      | some c =>
        obtain ⟨hi, rfl⟩ := List.getElem?_eq_some_iff.1 hc
        exact fun h => ⟨⟨i, hi⟩, ih.2 h, rfl⟩

theorem pairwise_positions (n : Node) : n.positions.Pairwise (· < ·) := by
  induction n using induct with
  | step n ih =>
    rw [positions, pairwise_cons, pairwise_flatMap]
    refine ⟨?_, fun i _ => ?_, (pairwise_lt_finRange _).imp fun hij => ?_⟩
    · intro p hp
      obtain ⟨i, -, hp⟩ := mem_flatMap.1 hp
      obtain ⟨p, -, rfl⟩ := mem_map.1 hp
      exact nil_lt_cons ..
    · rw [pairwise_map]
      exact (ih _ (get_mem ..)).imp fun h => cons_lt_cons_iff.2 (.inr ⟨rfl, h⟩)
    · simp only [forall_mem_map]
      exact fun _ _ _ _ => cons_lt_cons_iff.2 (.inl hij)

theorem map_positions (n : Node) : n.positions.map n.at? = n.preorder.map some := by
  induction n using induct with
  | step n ih =>
    have hchild (i : Fin n.children.length) : ((n.children.get i).positions.map (i.val :: ·)).map
        n.at? = (n.children.get i).preorder.map some := by
      rw [← ih _ (get_mem ..), map_map]
      exact map_congr_left fun p _ => by simp [at?]
    have hchildren : n.children.flatMap preorder =
        (finRange n.children.length).flatMap fun i => (n.children.get i).preorder := by
      conv_lhs => rw [← map_get_finRange n.children, flatMap_map]
    rw [positions, preorder_eq, walk_eq_flatMap, hchildren, map_cons, map_cons,
      map_flatMap, map_flatMap]
    simp only [hchild, at?]

/-- **The preorder is the recursive traversal**: the node, and then the preorders of its children
    in order.  So it has the nodes that are written below the node, and all positions of the tree
    once each in lexicographic order. -/
theorem preorder_exact (n : Node) :
    n.preorder = n :: n.children.flatMap preorder ∧ n.preorder = n :: n.nested ∧
      ∃ positions : List (List Nat), positions.Pairwise (· < ·) ∧
        (∀ p, p ∈ positions ↔ (n.at? p).isSome) ∧ positions.map n.at? = n.preorder.map some := by
  refine ⟨?_, ?_, n.positions, pairwise_positions n, fun p => mem_positions, map_positions n⟩
  · rw [preorder_eq, walk_eq_flatMap]
  · rw [preorder_eq, walk_children]

end Node

end Semcheck
