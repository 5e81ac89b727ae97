/-
  Styled text for a terminal.

  A style is opened by an escape sequence and closed by the sequence that
  resets all styles.  Where the text itself resets the styles, the style is
  opened again.
-/

namespace Semcheck

inductive Style where
  | redBold
  | yellowBold
  | greenBold
  | cyanBold
  | bold
  | blue
deriving DecidableEq

namespace Style

/-- The parameters of the escape sequence. -/
def codes : Style → String
  | redBold => "1;31"
  | yellowBold => "1;33"
  | greenBold => "1;32"
  | cyanBold => "1;36"
  | bold => "1"
  | blue => "34"

/-- The sequence that opens the style. -/
def opening (s : Style) : String :=
  "\x1b[" ++ s.codes ++ "m"

/-- The sequence that resets all styles. -/
def reset : String := "\x1b[0m"

/-- Open the style again after every reset. -/
def reopen (s : Style) : List Char → List Char
  | '\x1b' :: '[' :: '0' :: 'm' :: rest => reset.toList ++ s.opening.toList ++ s.reopen rest
  | c :: rest => c :: s.reopen rest
  | [] => []

/-- The text in the style; without colors it is plain. -/
def paint (s : Style) (colors : Bool) (text : String) : String :=
  if colors then s.opening ++ String.ofList (s.reopen text.toList) ++ reset else text

end Style

end Semcheck
