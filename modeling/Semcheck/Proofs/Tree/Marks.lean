/-
  The locations a syntax tree mentions.

  A node is written with identifiers and paths; its marks (`Node.marks`) are its own location
  and theirs.  A tree lies within a set of locations (`Node.Within`) if the marks of all its
  nodes do, which is to say that the marks of its root do and the trees below lie within the
  set (`Node.within_iff`).
-/
import Semcheck.Proofs.Tree.Preorder

namespace Semcheck

open List

namespace Node

/-! ## Marks -/

def paths : Node → List Path
  | .item (.space path _ _) | .item (.use path _) | .item (.useBlock path _ _) => [path]
  | .type (.path path _) => [path]
  | .expr (.structLit path _ _) | .expr (.name path _) => [path]
  | .stmt (.use path _) => [path]
  | _ => []

/-- The identifiers a node is written with, those in its paths apart. -/
def names : Node → List Ident
  | .item (.struct decl) => [decl.name]
  | .item (.funct decl) => [decl.name]
  | .field f => [f.name]
  | .param p => [p.name]
  | .type (.pointer _ lifetime _ _) => lifetime.toList
  | .expr (.field _ name _) => [name]
  | .init i => [i.name]
  | .stmt (.binding name _ _ _ _) => [name]
  | _ => []

def idents (n : Node) : List Ident :=
  n.names ++ n.paths.flatMap Path.segments

/-- The locations of a node and of the identifiers and paths it is written with. -/
def marks (n : Node) : List Location :=
  n.span :: (n.idents.map Ident.span ++ n.paths.map Path.span)

/-! ## Trees within a set of locations -/

variable {S : Location → Prop} {n : Node}

/-- Every location that the tree of the node mentions is in the set. -/
def Within (S : Location → Prop) (n : Node) : Prop :=
  ∀ m ∈ n.preorder, ∀ l ∈ m.marks, S l

theorem forall_preorder_iff {P : Node → Prop} :
    (∀ m ∈ n.preorder, P m) ↔ P n ∧ ∀ c ∈ n.children, ∀ m ∈ c.preorder, P m := by
  simp only [preorder_eq n, forall_mem_cons, mem_walk]
  refine and_congr_right fun _ => ⟨fun h c hc m hm => h m ⟨c, hc, hm⟩, ?_⟩
  rintro h m ⟨c, hc, hm⟩
  exact h c hc m hm

theorem within_iff : n.Within S ↔ (∀ l ∈ n.marks, S l) ∧ ∀ c ∈ n.children, c.Within S :=
  forall_preorder_iff

theorem within_true (n : Node) : n.Within fun _ => True :=
  fun _ _ _ _ => trivial

namespace Within

theorem span (h : n.Within S) : S n.span :=
  (within_iff.1 h).1 _ mem_cons_self

theorem name (h : n.Within S) {i : Ident} (hi : i ∈ n.names) : S i.span := by
  have hident : i ∈ n.idents := mem_append_left _ hi
  exact (within_iff.1 h).1 _ (mem_cons_of_mem _ (mem_append_left _ (mem_map_of_mem hident)))

theorem path (h : n.Within S) {p : Path} (hp : p ∈ n.paths) : S p.span :=
  (within_iff.1 h).1 _ (mem_cons_of_mem _ (mem_append_right _ (mem_map_of_mem hp)))

theorem child (h : n.Within S) {c : Node} (hc : c ∈ n.children) : c.Within S :=
  (within_iff.1 h).2 c hc

theorem annotation {name : Ident} {mutable : Bool} {type : Option TypeExpr} {init : Option Expr}
    {span : Location} (h : (stmt (.binding name mutable type init span)).Within S) :
    ∀ t ∈ type, (Node.type t).Within S := by
  rintro t ⟨⟩
  exact h.child (mem_append_left _ mem_cons_self)

end Within

end Node

end Semcheck
