/-
  The commands `check` and `ir`.

  A command is a function of the files: `Request.run` gives what goes to
  standard output and to standard error, and the exit code.
-/
import Semcheck.Cli.Render
import Semcheck.Workspace

namespace Semcheck

/-- What a command leaves behind. -/
structure Outcome where
  stdout : String
  stderr : String
  exitCode : UInt32
deriving DecidableEq

namespace Outcome

/-- The command went through. -/
def success (stdout stderr : String) : Outcome := ⟨stdout, stderr, 0⟩

/-- The command failed with the given message. -/
def failure (stdout stderr message : String) : Outcome :=
  ⟨stdout, stderr ++ "Error: " ++ message ++ "\n", 1⟩

/-- The command had nothing to report on. -/
def ofLoadError (stdout : String) (e : LoadError) : Outcome :=
  failure stdout "" (e.message ++ "\n\nCaused by:\n    " ++ e.cause)

end Outcome

inductive Command where
  /-- Report the diagnostics. -/
  | check
  /-- Print the structs and functions. -/
  | ir
deriving DecidableEq

/-- A command with its arguments. -/
structure Request where
  command : Command
  input : String
  /-- The settings file that is named. -/
  config : Option String
deriving DecidableEq

/-- The diagnostics, each followed by a blank line. -/
def Report.render (colors : Bool) (path : String) (r : Report) : String :=
  String.join (r.entries.map fun d => d.render colors path ++ "\n\n")

/-! ## Check -/

/-- The number of diagnostics of each kind. -/
def Report.summary (r : Report) : String :=
  String.join (r.counts.map fun entry =>
    "  " ++ toString entry.2 ++ " x " ++ entry.1.id ++ "\n")

/-- The line that opens the output of `check`. -/
def checkHeader (colors : Bool) (path : String) : String :=
  Style.greenBold.paint colors "Checking" ++ " " ++ path ++ "\n"

namespace Compilation

def check (c : Compilation) (colors : Bool) (path : String) : Outcome :=
  let header := checkHeader colors path
  let hint :=
    if c.truncated then
      Style.cyanBold.paint colors "note:" ++ " further diagnostics were suppressed\n"
    else ""
  let listing := c.report.render colors path ++ hint
  if c.hasErrors then
    let total := toString c.report.size
    .failure header
      (listing ++ c.report.summary ++ Style.redBold.paint colors "Failed:" ++ " " ++ total ++
        " errors found\n")
      ("Check failed with " ++ total ++ " errors")
  else
    .success
      (header ++ Style.greenBold.paint colors "Success:" ++ " " ++ toString c.structs.length ++
        " structs, " ++ toString c.functs.length ++ " functions, no errors found\n")
      listing

/-! ## Listing -/

/-- The text of all structs and functions. -/
def listing (c : Compilation) : String :=
  let names := c.table.names
  String.join (c.structs.map fun s => structText names s.name.text s.fields ++ "\n") ++
    String.join (c.functs.map fun f => "\n" ++ f.funct.text names f.name.text ++ "\n")

def ir (c : Compilation) (colors : Bool) (path : String) : Outcome :=
  let diagnostics := c.report.render colors path
  if c.hasErrors then .failure c.listing diagnostics "IR contains errors"
  else .success c.listing diagnostics

end Compilation

/-! ## Requests -/

def Request.run (r : Request) (colors : Bool) (files : Workspace) : Outcome :=
  match files.config r.config r.input with
  | .error e => .ofLoadError "" e
  | .ok config =>
    match r.command, files.compile config r.input with
    | .check, .ok c => c.check colors r.input
    | .check, .error e => .ofLoadError (checkHeader colors r.input) e
    | .ir, .ok c => c.ir colors r.input
    | .ir, .error e => .ofLoadError "" e

end Semcheck
