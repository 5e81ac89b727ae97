/-
  The text of a diagnostic on a terminal: its kind, code and message, then a
  line for each place in the source, and a note with its own places.
-/
import Semcheck.Cli.Style
import Semcheck.Diagnostic

namespace Semcheck

def Severity.style : Severity → Style
  | .error => .redBold
  | .warning => .yellowBold
  | .note => .cyanBold

/-- A line for each place in the source. -/
def renderSpans (colors : Bool) (path margin : String) (spans : List Location) : String :=
  String.join (spans.map fun span =>
    "\n" ++ margin ++ Style.blue.paint colors "-->" ++ " " ++ path ++ ":" ++ span.text)

def Note.render (colors : Bool) (path : String) (n : Note) : String :=
  "\n  " ++ Style.blue.paint colors "=" ++ " " ++ n.message ++ renderSpans colors path "    " n.spans

/-- The text of a diagnostic about the input at `path`. -/
def Diagnostic.render (colors : Bool) (path : String) (d : Diagnostic) : String :=
  d.severity.style.paint colors d.severity.text ++
    Style.bold.paint colors ("[" ++ d.code.id ++ "]") ++ ": " ++
    Style.bold.paint colors d.message ++ renderSpans colors path "  " d.spans ++
    (d.note.map (Note.render colors path)).getD ""

end Semcheck
