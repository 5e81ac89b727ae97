/-
  Syntax trees from JSON.

  Reading accepts what writing produces, and more: members that are not known
  are ignored, absent flags are off, absent options are empty, and a record may
  be a list of its fields in order.  The record inside an alternative may be a
  list only in the form `Form.text`, which is how files are read; a value that
  is handed over in memory has the form `Form.value`.

  Every reader has an allowance: how many arrays and objects may be nested in
  what it reads.  Members that are ignored do not count.
-/
import Semcheck.Json.Reader
import Semcheck.Tree.Basic

namespace Semcheck

/-- Where the JSON comes from. -/
inductive Form where
  /-- It was read from a text. -/
  | text
  /-- It was handed over as a value. -/
  | value

namespace Decode

/-- The record inside an alternative. -/
def payload (form : Form) (keys : List String) (json : Json) : Option (List (Option Json)) :=
  match form with
  | .text => json.record keys
  | .value => json.objectRecord keys

/-! ## Positions and names -/

def span : Nat → Json → Option Span
  | 0, _ => none
  | _ + 1, json => do
    match ← json.record ["start", "end"] with
    | [some start, some stop] => return ⟨← start.word?, ← stop.word?⟩
    | _ => none

def location : Nat → Json → Option Location
  | 0, _ => none
  | n + 1, json => do
    match ← json.record ["file", "span"] with
    | [some file, some range] => return ⟨⟨← file.word?⟩, ← span n range⟩
    | _ => none

def ident : Nat → Json → Option Ident
  | 0, _ => none
  | n + 1, json => do
    match ← json.record ["text", "span"] with
    | [some text, some span] => return ⟨← text.text?, ← location n span⟩
    | _ => none

/-- A list whose entries are read with the rest of the allowance. -/
def list {α : Type} (entry : Nat → Json → Option α) : Nat → Json → Option (List α)
  | 0, _ => none
  | n + 1, json => do (← json.items?).mapM (entry n)

def path : Nat → Json → Option Path
  | 0, _ => none
  | n + 1, json => do
    match ← json.record ["segments", "absolute", "span"] with
    | [some segments, absolute, some span] =>
      return ⟨← list ident n segments, ← Json.flag? absolute, ← location n span⟩
    | _ => none

/-- A node with its kind: the name of the kind, what belongs to it and the
    location.  The node and its kind use up two of the allowance, so that the
    kind's payload has `n` left; without any left, the location is not read. -/
def node (n : Nat) (json : Json) : Option (String × Json × Location) := do
  match ← json.record ["kind", "span"] with
  | [some kind, some span] =>
    let (tag, payload) ← kind.variant?
    return (tag, payload, ← location (n + 1) span)
  | _ => none

/-! ## Types -/

mutual

def typeExpr (form : Form) : Nat → Json → Option TypeExpr
  | n + 3, json => do
    let (tag, body, span) ← node (n + 1) json
    match tag with
    | "path" => return .path (← path (n + 1) body) span
    | "pointer" =>
      match ← payload form ["mutable", "lifetime", "pointee"] body with
      | [some mutable, lifetime, some pointee] =>
        return .pointer (← mutable.bool?) (← Json.option? (ident n) lifetime)
          (← typeExpr form n pointee) span
      | _ => none
    | "tuple" => return .tuple (← types form (n + 1) body) span
    | "funct" =>
      match ← payload form ["params", "returns"] body with
      | [some params, returns] =>
        return .funct (← types form n params) (← Json.option? (typeExpr form n) returns) span
      | _ => none
    | _ => none
  | _, _ => none

def types (form : Form) : Nat → Json → Option (List TypeExpr)
  | 0, _ => none
  | n + 1, json => do (← json.items?).mapM (typeExpr form n)

end

/-! ## Expressions and statements -/

mutual

def expr (form : Form) : Nat → Json → Option Expr
  | n + 3, json => do
    let (tag, body, span) ← node (n + 1) json
    match tag with
    | "block" => return .block (← stmts form (n + 1) body) span
    | "int" => return .int (← body.int64?) span
    | "bool" => return .bool (← body.bool?) span
    | "tuple" => return .tuple (← exprs form (n + 1) body) span
    | "struct_lit" =>
      match ← payload form ["path", "fields"] body with
      | [some name, some fields] => return .structLit (← path n name) (← inits form n fields) span
      | _ => none
    | "name" => return .name (← path (n + 1) body) span
    | "field" =>
      match ← payload form ["base", "field"] body with
      | [some base, some field] => return .field (← expr form n base) (← ident n field) span
      | _ => none
    | "address_of" =>
      match ← payload form ["mutable", "operand"] body with
      | [some mutable, some operand] =>
        return .addressOf (← mutable.bool?) (← expr form n operand) span
      | _ => none
    | "deref" => return .deref (← expr form (n + 1) body) span
    | "call" =>
      match ← payload form ["callee", "args"] body with
      | [some callee, some args] => return .call (← expr form n callee) (← exprs form n args) span
      | _ => none
    | "if" =>
      match ← payload form ["condition", "then_branch", "else_branch"] body with
      | [some condition, some thenBranch, elseBranch] =>
        return .ifElse (← expr form n condition) (← expr form n thenBranch)
          (← Json.option? (expr form n) elseBranch) span
      | _ => none
    | "while" =>
      match ← payload form ["condition", "body"] body with
      | [some condition, some body] =>
        return .loop (← expr form n condition) (← expr form n body) span
      | _ => none
    | "assign" =>
      match ← payload form ["target", "value"] body with
      | [some target, some value] =>
        return .assign (← expr form n target) (← expr form n value) span
      | _ => none
    | "return" => return .ret (← Json.option? (expr form (n + 1)) (some body)) span
    | _ => none
  | _, _ => none

def exprs (form : Form) : Nat → Json → Option (List Expr)
  | 0, _ => none
  | n + 1, json => do (← json.items?).mapM (expr form n)

def stmt (form : Form) : Nat → Json → Option Stmt
  | n + 3, json => do
    let (tag, body, span) ← node (n + 1) json
    match tag with
    | "expr" => return .expr (← expr form (n + 1) body) span
    | "let" =>
      match ← payload form ["name", "mutable", "ty", "init"] body with
      | [some name, mutable, type, init] =>
        return .binding (← ident n name) (← Json.flag? mutable)
          (← Json.option? (typeExpr form n) type) (← Json.option? (expr form n) init) span
      | _ => none
    | "use" => return .use (← path (n + 1) body) span
    | _ => none
  | _, _ => none

def stmts (form : Form) : Nat → Json → Option (List Stmt)
  | 0, _ => none
  | n + 1, json => do (← json.items?).mapM (stmt form n)

def init (form : Form) : Nat → Json → Option FieldInit
  | 0, _ => none
  | n + 1, json => do
    match ← json.record ["name", "value", "span"] with
    | [some name, some value, some span] =>
      return ⟨← ident n name, ← expr form n value, ← location n span⟩
    | _ => none

def inits (form : Form) : Nat → Json → Option (List FieldInit)
  | 0, _ => none
  | n + 1, json => do (← json.items?).mapM (init form n)

end

/-! ## Items -/

def fieldDecl (form : Form) : Nat → Json → Option FieldDecl
  | 0, _ => none
  | n + 1, json => do
    match ← json.record ["name", "ty", "span"] with
    | [some name, some type, some span] =>
      return ⟨← ident n name, ← typeExpr form n type, ← location n span⟩
    | _ => none

def paramDecl (form : Form) : Nat → Json → Option ParamDecl
  | 0, _ => none
  | n + 1, json => do
    match ← json.record ["name", "mutable", "ty", "span"] with
    | [some name, mutable, some type, some span] =>
      return ⟨← ident n name, ← Json.flag? mutable, ← typeExpr form n type, ← location n span⟩
    | _ => none

def structDecl (form : Form) : Nat → Json → Option StructDecl
  | 0, _ => none
  | n + 1, json => do
    match ← json.record ["name", "fields", "span"] with
    | [some name, some fields, some span] =>
      return ⟨← ident n name, ← list (fieldDecl form) n fields, ← location n span⟩
    | _ => none

def functDecl (form : Form) : Nat → Json → Option FunctDecl
  | 0, _ => none
  | n + 1, json => do
    match ← json.record ["name", "params", "returns", "body", "span"] with
    | [some name, some params, returns, body, some span] =>
      return ⟨← ident n name, ← list (paramDecl form) n params,
        ← Json.option? (typeExpr form n) returns, ← Json.option? (expr form n) body,
        ← location n span⟩
    | _ => none

mutual

def item (form : Form) : Nat → Json → Option Item
  | n + 2, json => do
    let (tag, body) ← json.variant?
    match tag with
    | "namespace" =>
      match ← body.record ["name", "items", "span"] with
      | [some name, some inner, some span] =>
        return .space (← path n name) (← items form n inner) (← location n span)
      | _ => none
    | "use" =>
      match ← body.record ["path", "items", "span"] with
      | [some name, inner, some span] =>
        match ← Json.option? (items form n) inner with
        | none => return .use (← path n name) (← location n span)
        | some inner => return .useBlock (← path n name) inner (← location n span)
      | _ => none
    | "struct" => return .struct (← structDecl form (n + 1) body)
    | "funct" => return .funct (← functDecl form (n + 1) body)
    | _ => none
  | _, _ => none

def items (form : Form) : Nat → Json → Option (List Item)
  | 0, _ => none
  | n + 1, json => do (← json.items?).mapM (item form n)

end

def sourceFile (form : Form) : Nat → Json → Option SourceFile
  | 0, _ => none
  | n + 1, json => do
    match ← json.record ["file", "items", "span"] with
    | [some file, some inner, some span] =>
      return ⟨⟨← file.word?⟩, ← items form n inner, ← location n span⟩
    | _ => none

end Decode

/-- The program a JSON value holds. -/
def decodeFiles (json : Json) : Option (List SourceFile) :=
  Decode.list (Decode.sourceFile .value) json.depth json

/-- How many arrays and objects may be nested in the text of a program. -/
def nestingLimit : Nat := 127

/-- The program a text holds. -/
def readFiles (text : String) : Option (List SourceFile) := do
  let json ← Json.parse text
  Decode.list (Decode.sourceFile .text) nestingLimit json

end Semcheck
