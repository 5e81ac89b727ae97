/-
  Suggestions for a name that was not found.

  `editDistance s t` counts the insertions, deletions and substitutions of
  characters that turn `s` into `t`.  It is computed row by row: the row of `s`
  holds the distances from `s` to the beginnings of `t`, the shortest first,
  and the row of a longer text is computed from the row of the shorter one.

  `suggest` picks the names that are close enough to the wanted one, the
  closest first and at most three.
-/
namespace Semcheck

/-! ## Edit distance -/

/-- Extend a row behind its first entry.  For the remaining characters of the
    target, `above` is the rest of the previous row, `corner` the entry before
    it and `left` the last entry of the new row. -/
def rowFrom (c : Char) : List Char → Nat → Nat → List Nat → List Nat
  | d :: target, corner, left, up :: above =>
    let entry := min (min (up + 1) (left + 1)) (corner + if c = d then 0 else 1)
    entry :: rowFrom c target up entry above
  | _, _, _, _ => []

/-- The row of a text with the character `c` added at its end. -/
def nextRow (target : List Char) (row : List Nat) (c : Char) : List Nat :=
  match row with
  | [] => []
  | corner :: above => (corner + 1) :: rowFrom c target corner (corner + 1) above

/-- The distances from a text to the beginnings of the target. -/
def distanceRow (source target : List Char) : List Nat :=
  source.foldl (nextRow target) (List.range (target.length + 1))

/-- The least number of edits that turn one text into the other. -/
def editDistance (source target : String) : Nat :=
  (distanceRow source.toList target.toList).getLastD 0

/-! ## Suggestions -/

/-- How far a suggestion may be from the wanted name. -/
def suggestionLimit (target : String) : Nat :=
  max (target.toList.length / 3) 1

/-- The names close to the target with their distances, in the given order; the
    target itself is no suggestion. -/
def closeNames (target : String) (available : List String) : List (String × Nat) :=
  ((available.filter (· ≠ target)).map fun name => (name, editDistance target name)).filter
    fun entry => entry.2 ≤ suggestionLimit target

/-- The three closest names, without repetition; of names at one distance the
    earlier ones come first. -/
def suggest (target : String) (available : List String) : List String :=
  (((closeNames target available).mergeSort fun a b => a.2 ≤ b.2).map Prod.fst).eraseDups.take 3

end Semcheck
