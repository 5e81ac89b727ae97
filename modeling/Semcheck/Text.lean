/-
  Pieces of text shared by the printers: lists with a separator and names
  between grave accents.
-/
namespace Semcheck

/-- The texts in order, with `sep` between neighbours. -/
def joinWith (sep : String) : List String → String
  | [] => ""
  | [s] => s
  | s :: t :: rest => s ++ sep ++ joinWith sep (t :: rest)

theorem toList_joinWith (sep s : String) (rest : List String) :
    (joinWith sep (s :: rest)).toList =
      s.toList ++ rest.flatMap fun t => sep.toList ++ t.toList := by
  induction rest generalizing s with
  | nil => simp [joinWith]
  | cons t rest ih => simp [joinWith, ih]

/-- The text between grave accents, as messages show names and types. -/
def ticked (s : String) : String :=
  "\x60" ++ s ++ "\x60"

end Semcheck
