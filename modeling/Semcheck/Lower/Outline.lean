/-
  The first pass over a program: which names it declares.

  `Outline.ofFiles` walks over the items of all files and declares every struct
  and function, so that a declaration may be used before it appears.  With each
  declaration it keeps the syntax and the `use` directives in force there, for
  the later passes.

  A bare `use` is in force for the items that follow it in the same list.  A
  `use` block and a namespace have a directive of their own, which is in force
  inside them only.
-/
import Semcheck.Decl.Table
import Semcheck.Tree.Basic

namespace Semcheck

/-- The scoped name a path spells; a leading `::` is not part of it. -/
def Path.toName (p : Path) : Name :=
  ⟨p.texts⟩

/-- A struct whose fields are not known yet. -/
structure PendingStruct where
  id : StructId
  decl : StructDecl
  scope : UseScope

/-- A function whose signature and body are not known yet. -/
structure PendingFunct where
  id : FunctId
  decl : FunctDecl
  scope : UseScope

/-- The declared names, and what is left to do for them. -/
structure Outline where
  table : Table
  report : Report
  structs : List PendingStruct
  functs : List PendingFunct

namespace Outline

def empty : Outline where
  table := .builtin
  report := .empty
  structs := []
  functs := []

/-- Declare a struct; one whose name is taken is reported and dropped. -/
def addStruct (o : Outline) (space : Name) (scope : UseScope) (decl : StructDecl) : Outline :=
  match o.table.addStruct (space.child decl.name.text) decl.span with
  | .ok (id, table) => { o with table := table, structs := o.structs ++ [⟨id, decl, scope⟩] }
  | .error e => { o with report := o.report.push e.toDiagnostic }

/-- Declare a function; one whose name is taken is reported and dropped. -/
def addFunct (o : Outline) (space : Name) (scope : UseScope) (decl : FunctDecl) : Outline :=
  match o.table.addFunct (space.child decl.name.text) decl.span with
  | .ok (id, table) => { o with table := table, functs := o.functs ++ [⟨id, decl, scope⟩] }
  | .error e => { o with report := o.report.push e.toDiagnostic }

/-- The namespace that a namespace item written in `space` stands for. -/
def innerSpace (space : Name) (path : Path) : Name :=
  if path.absolute then path.toName else space.join path.toName

mutual

/-- Declare what an item of the namespace `space` declares. -/
def addItem (o : Outline) (space : Name) (scope : UseScope) : Item → Outline
  | .space path items _ =>
    addItems o (innerSpace space path) (scope.extend (innerSpace space path)) items
  | .use _ _ => o
  | .useBlock path items _ => addItems o space (scope.extend path.toName) items
  | .struct decl => o.addStruct space scope decl
  | .funct decl => o.addFunct space scope decl

def addItems (o : Outline) (space : Name) (scope : UseScope) : List Item → Outline
  | [] => o
  | .use path _ :: rest => addItems o space (scope.extend path.toName) rest
  | item :: rest => addItems (addItem o space scope item) space scope rest

end

/-- Declare what the files of a program declare. -/
def ofFiles (files : List SourceFile) : Outline :=
  files.foldl (fun o file => o.addItems .root .empty file.items) .empty

end Outline

end Semcheck
