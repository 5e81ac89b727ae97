/-
  Positions in source files.

  A `Span` is a half-open range of positions in one file, a `Location` a span
  together with the file it lies in.  Positions are 32-bit words, as the parser
  counts them.

  * `Span.text` and `Location.text` write `4..8` and `file#0:4..8`;
  * `Span.cover` is the smallest span around two spans; locations in different
    files have no common cover, and `Location.cover` keeps the first one;
  * `Span.length?` is undefined for a span that ends before it starts.
-/
namespace Semcheck

/-! ## Spans -/

/-- A range of positions in one file: `start` is the first position of the
    range, `stop` the first one behind it. -/
structure Span where
  start : UInt32
  stop : UInt32
deriving DecidableEq

/-- The text `start..stop`. -/
def Span.text (s : Span) : String :=
  toString s.start.toNat ++ ".." ++ toString s.stop.toNat

/-- The number of positions in the span; a span that ends before it starts has
    no length. -/
def Span.length? (s : Span) : Option Nat :=
  if s.start ≤ s.stop then some (s.stop.toNat - s.start.toNat) else none

/-- The span holds no position: it starts where it stops. -/
def Span.isEmpty (s : Span) : Bool :=
  s.start == s.stop

/-- The smallest span that holds both spans. -/
def Span.cover (s t : Span) : Span where
  start := if s.start ≤ t.start then s.start else t.start
  stop := if s.stop ≤ t.stop then t.stop else s.stop

/-! ## Locations -/

/-- A source file, by its number. -/
structure FileId where
  index : UInt32
deriving DecidableEq

/-- The text `file#0`. -/
def FileId.text (f : FileId) : String :=
  "file#" ++ toString f.index.toNat

/-- A span in a file. -/
structure Location where
  file : FileId
  span : Span
deriving DecidableEq

/-- The location of what was never written, such as the builtin types. -/
def Location.nowhere : Location where
  file := ⟨0⟩
  span := ⟨0, 0⟩

/-- The text `file#0:4..8`. -/
def Location.text (l : Location) : String :=
  l.file.text ++ ":" ++ l.span.text

/-- The smallest location that holds both; the first one if they lie in
    different files. -/
def Location.cover (l m : Location) : Location :=
  if l.file = m.file then { l with span := l.span.cover m.span } else l

end Semcheck
