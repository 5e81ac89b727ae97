/-
  Diagnostics: what the checker has to say about a program.

  A `Diagnostic` is a record with a severity, a code, a message, the locations
  it points at and an optional `Note`.  A `Report` collects diagnostics in the
  order in which they are found; nothing is ever taken out of it.
-/
import Semcheck.Span

namespace Semcheck

/-! ## Severities and codes -/

/-- How serious a diagnostic is. -/
inductive Severity where
  /-- Supplementary information. -/
  | note
  /-- Suspicious but accepted. -/
  | warning
  /-- The program has no usable result. -/
  | error
deriving DecidableEq

/-- The word that introduces a diagnostic of this severity. -/
def Severity.text : Severity → String
  | .note => "note"
  | .warning => "warning"
  | .error => "error"

/-- The place of a severity in the order `note < warning < error`. -/
def Severity.rank : Severity → Nat
  | .note => 0
  | .warning => 1
  | .error => 2

/-- What a diagnostic is about. -/
inductive Code where
  /-- No declaration or local with this name is visible. -/
  | undeclared
  /-- Several declarations match an unqualified name. -/
  | ambiguousDeclaration
  /-- A declaration of the wrong kind, such as a function used as a type. -/
  | wrongDeclarationKind
  /-- A name is declared twice. -/
  | duplicateDeclaration
  /-- Two types that must agree do not. -/
  | incompatibleTypes
  /-- A type cannot be inferred. -/
  | inferenceImpossible
  /-- A call passes the wrong number of arguments. -/
  | wrongArgumentNumber
  /-- The target of an assignment is not writable. -/
  | cannotAssign
  /-- The operand of `&` has no address, or is not mutable enough. -/
  | cannotAddress
  /-- The operand of `*` is not a pointer. -/
  | cannotDereference
  /-- A local is read before it is assigned. -/
  | uninitializedLocal
  /-- The checker itself is at fault. -/
  | internal
deriving DecidableEq

/-- The stable identifier of a code. -/
def Code.id : Code → String
  | .undeclared => "resolve::undeclared"
  | .ambiguousDeclaration => "resolve::ambiguous"
  | .wrongDeclarationKind => "resolve::wrong_kind"
  | .duplicateDeclaration => "resolve::duplicate"
  | .incompatibleTypes => "types::incompatible"
  | .inferenceImpossible => "types::inference_impossible"
  | .wrongArgumentNumber => "types::argument_count"
  | .cannotAssign => "lower::cannot_assign"
  | .cannotAddress => "lower::cannot_address"
  | .cannotDereference => "lower::cannot_dereference"
  | .uninitializedLocal => "lower::uninitialized_local"
  | .internal => "internal"

/-- All codes, in the order of their identifiers. -/
def Code.all : List Code :=
  [.internal, .cannotAddress, .cannotAssign, .cannotDereference, .uninitializedLocal,
    .ambiguousDeclaration, .duplicateDeclaration, .undeclared, .wrongDeclarationKind,
    .wrongArgumentNumber, .incompatibleTypes, .inferenceImpossible]

/-! ## Diagnostics -/

/-- A message attached to a diagnostic, such as "first declared here". -/
structure Note where
  message : String
  spans : List Location
deriving DecidableEq

/-- One finding. -/
structure Diagnostic where
  severity : Severity
  code : Code
  message : String
  /-- The locations the message is about; the first one is the primary one. -/
  spans : List Location
  note : Option Note
deriving DecidableEq

/-- An error at one location. -/
def Diagnostic.error (code : Code) (message : String) (span : Location) : Diagnostic where
  severity := .error
  code := code
  message := message
  spans := [span]
  note := none

/-- The diagnostic with a note at one location. -/
def Diagnostic.withNote (d : Diagnostic) (message : String) (span : Location) : Diagnostic :=
  { d with note := some { message := message, spans := [span] } }

/-- The location a diagnostic is filed under. -/
def Diagnostic.primary? (d : Diagnostic) : Option Location :=
  d.spans.head?

def Diagnostic.isError (d : Diagnostic) : Bool :=
  d.severity = .error

/-! ## Reports -/

/-- The diagnostics found so far, oldest first. -/
structure Report where
  entries : List Diagnostic
deriving DecidableEq

namespace Report

def empty : Report := ⟨[]⟩

def push (r : Report) (d : Diagnostic) : Report :=
  ⟨r.entries ++ [d]⟩

def append (r s : Report) : Report :=
  ⟨r.entries ++ s.entries⟩

def error (r : Report) (code : Code) (message : String) (span : Location) : Report :=
  r.push (Diagnostic.error code message span)

def hasErrors (r : Report) : Bool :=
  r.entries.any Diagnostic.isError

/-- The number of diagnostics with the given code. -/
def count (r : Report) (code : Code) : Nat :=
  r.entries.countP fun d => d.code = code

def size (r : Report) : Nat :=
  r.entries.length

def isEmpty (r : Report) : Bool :=
  r.entries.isEmpty

/-- How often each code occurs, for the codes that occur, in the order of
    their identifiers. -/
def counts (r : Report) : List (Code × Nat) :=
  (Code.all.map fun c => (c, r.count c)).filter fun p => p.2 ≠ 0

/-- The first `limit` diagnostics, if a limit is given. -/
def truncate (r : Report) : Option Nat → Report
  | none => r
  | some limit => ⟨r.entries.take limit⟩

@[simp] theorem entries_empty : empty.entries = [] := rfl

@[simp] theorem entries_push (r : Report) (d : Diagnostic) :
    (r.push d).entries = r.entries ++ [d] := rfl

@[simp] theorem entries_append (r s : Report) :
    (r.append s).entries = r.entries ++ s.entries := rfl

@[simp] theorem entries_error (r : Report) (code : Code) (message : String) (span : Location) :
    (r.error code message span).entries = r.entries ++ [Diagnostic.error code message span] := rfl

end Report

end Semcheck
