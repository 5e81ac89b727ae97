/-
  A pool of texts with a number for each.

  Putting a text into the pool twice gives the same number; a number never
  changes its meaning.
-/
namespace Semcheck

/-- The number of a pooled text. -/
structure Symbol where
  index : Nat
deriving DecidableEq

/-- The pooled texts without repetition; the number of a text is its place. -/
structure Interner where
  texts : List String

namespace Interner

def empty : Interner := ⟨[]⟩

/-- The number of a text that is already in the pool. -/
def get? (pool : Interner) (text : String) : Option Symbol :=
  (pool.texts.findIdx? (· = text)).map Symbol.mk

/-- The number of a text, which is added to the pool if it is new. -/
def intern (pool : Interner) (text : String) : Symbol × Interner :=
  match pool.get? text with
  | some symbol => (symbol, pool)
  | none => (⟨pool.texts.length⟩, ⟨pool.texts ++ [text]⟩)

/-- The text with the given number. -/
def resolve? (pool : Interner) (symbol : Symbol) : Option String :=
  pool.texts[symbol.index]?

def size (pool : Interner) : Nat :=
  pool.texts.length

/-- A one-line description, which shows the size only. -/
def text (pool : Interner) : String :=
  "Interner \x7b len: " ++ toString pool.size ++ " \x7d"

end Interner

end Semcheck
