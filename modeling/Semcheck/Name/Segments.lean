/-
  Texts made of segments with `::` between them.

  `splitSegments` cuts at every `::`, from the left, so that `a:::b` has the
  segments `a` and `:b`; empty segments are kept.  `joinSegments` puts the
  separator back, and undoes the cut: `joinSegments (splitSegments s) = s`.
-/
import Semcheck.Text

namespace Semcheck

/-- Cut the characters at every `::`: the first segment and the other ones. -/
def splitChars : List Char → List Char × List (List Char)
  | [] => ([], [])
  | ':' :: ':' :: rest => ([], (splitChars rest).1 :: (splitChars rest).2)
  | c :: rest => (c :: (splitChars rest).1, (splitChars rest).2)

/-- The segments of a text; there is always at least one. -/
def splitSegments (s : String) : List String :=
  ((splitChars s.toList).1 :: (splitChars s.toList).2).map String.ofList

/-- The text with the given segments. -/
def joinSegments (segments : List String) : String :=
  joinWith "::" segments

/-- The characters behind a leading `::`, if there is one. -/
def stripRoot : List Char → Option (List Char)
  | ':' :: ':' :: rest => some rest
  | _ => none

end Semcheck
