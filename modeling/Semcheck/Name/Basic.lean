/-
  Scoped names and `use` directives.

  A `Name` is the list of segments from the root; the empty name is the root
  itself.  A `UseScope` is the list of names whose contents are visible without
  being named, the innermost directive first.  Extending a scope makes a new
  one, so a scope kept with a declaration never changes.
-/
import Semcheck.Name.Segments

namespace Semcheck

/-! ## Names -/

/-- A fully scoped name. -/
structure Name where
  segments : List String
deriving DecidableEq

namespace Name

def root : Name := ⟨[]⟩

/-- The name written as `text`; empty segments are dropped. -/
def parse (text : String) : Name :=
  ⟨(splitSegments text).filter (· ≠ "")⟩

/-- The name `n::m`. -/
def join (n m : Name) : Name :=
  ⟨n.segments ++ m.segments⟩

/-- The name `n::segment`. -/
def child (n : Name) (segment : String) : Name :=
  ⟨n.segments ++ [segment]⟩

/-- The last segment; the root has none. -/
def last? (n : Name) : Option String :=
  n.segments.getLast?

def isRoot (n : Name) : Bool :=
  n.segments.isEmpty

/-- The name as it is written. -/
def text (n : Name) : String :=
  joinSegments n.segments

end Name

/-! ## Scopes -/

/-- The `use` directives at one point of a program, innermost first. -/
structure UseScope where
  directives : List Name
deriving DecidableEq

namespace UseScope

def empty : UseScope := ⟨[]⟩

/-- The scope with one more directive, which becomes the innermost one. -/
def extend (s : UseScope) (directive : Name) : UseScope :=
  ⟨directive :: s.directives⟩

def size (s : UseScope) : Nat :=
  s.directives.length

def isEmpty (s : UseScope) : Bool :=
  s.directives.isEmpty

end UseScope

end Semcheck
