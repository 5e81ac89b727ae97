/-
  What can go wrong when a name is declared or looked up.
-/
import Semcheck.Diagnostic
import Semcheck.Text

namespace Semcheck

/-- A failed declaration or lookup. -/
inductive LookupError where
  /-- No declaration is visible under this name. -/
  | undeclared (name : String) (span : Location) (suggestions : List String)
  /-- More than one declaration is visible under this name. -/
  | ambiguous (name : String) (candidates : List String) (span : Location)
  /-- The declaration is of the wrong kind. -/
  | wrongKind (name expected found : String) (span : Location)
  /-- The name is already declared, at `first`; a builtin has no such place. -/
  | duplicate (name : String) (first : Option Location) (second : Location)
deriving DecidableEq

namespace LookupError

/-- The first two candidates, and how many others there are. -/
def candidateList : List String → String
  | [] => ""
  | [only] => ticked only
  | [first, second] => ticked first ++ " and " ++ ticked second
  | first :: second :: rest =>
    ticked first ++ ", " ++ ticked second ++ " ...and " ++ toString rest.length ++ " other"

def message : LookupError → String
  | .undeclared name _ _ => "cannot find " ++ ticked name ++ " in this scope"
  | .ambiguous name candidates _ =>
    "ambiguous name " ++ ticked name ++ ": candidates are " ++ candidateList candidates
  | .wrongKind name expected found _ =>
    "expected " ++ expected ++ ", found " ++ found ++ " " ++ ticked name
  | .duplicate name none _ => ticked name ++ " is a builtin type and cannot be redeclared"
  | .duplicate name (some _) _ => ticked name ++ " is declared more than once"

def code : LookupError → Code
  | .undeclared .. => .undeclared
  | .ambiguous .. => .ambiguousDeclaration
  | .wrongKind .. => .wrongDeclarationKind
  | .duplicate .. => .duplicateDeclaration

/-- The place the error is reported at. -/
def span : LookupError → Location
  | .undeclared _ span _ | .ambiguous _ _ span | .wrongKind _ _ _ span => span
  | .duplicate _ _ second => second

/-- The error as a diagnostic, with a note on the first declaration or on
    similar names. -/
def toDiagnostic (e : LookupError) : Diagnostic :=
  let d := Diagnostic.error e.code e.message e.span
  match e with
  | .duplicate _ (some first) _ => d.withNote "first declared here" first
  | .undeclared _ span (s :: rest) =>
    d.withNote ("did you mean " ++ joinWith " or " ((s :: rest).map ticked) ++ "?") span
  | _ => d

end LookupError

end Semcheck
