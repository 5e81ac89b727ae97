/-
  The files that a command reads, and the commands' common part: find the
  configuration, read the syntax trees, and compile.

  The configuration is in a file that is named, or else in a settings file in
  the directory of the input.  Without such a file the defaults hold.
-/
import Semcheck.Compilation
import Semcheck.Config.Toml
import Semcheck.Tree.Decode

namespace Semcheck

/-- What is found under the name of a file. -/
inductive Contents where
  | missing
  /-- There is a file, but its text cannot be read. -/
  | unreadable
  | text (text : String)

/-- The files, by name. -/
abbrev Workspace := String → Contents

/-- Why there is nothing to report on. -/
inductive LoadError where
  | unreadableConfig (path : String)
  | malformedConfig (path : String)
  | unreadableInput (path : String)
  | malformedInput (path : String)
  | aborted (path : String) (reason : Abort)
deriving DecidableEq

namespace LoadError

def message : LoadError → String
  | .unreadableConfig path => "Failed to read config file: " ++ path
  | .malformedConfig path => "Failed to parse config file: " ++ path
  | .unreadableInput path => "Failed to read AST file: " ++ path
  | .malformedInput path => "Failed to parse AST file: " ++ path
  | .aborted path _ => "Internal compiler error while compiling " ++ path

/-- What is behind the error. -/
def cause : LoadError → String
  | .unreadableConfig _ | .unreadableInput _ => "the file cannot be read"
  | .malformedConfig _ => "the text is not a list of settings"
  | .malformedInput _ => "the text is not a list of source files"
  | .aborted _ (.defect defect) => defect.message
  | .aborted _ (.fault _) => "the program cannot be compiled"

end LoadError

/-! ## Configuration -/

/-- The name of the settings file beside an input. -/
def settingsFile : String := "cinder.toml"

/-- The settings file in the directory of the input. -/
def settingsBeside (input : String) : String :=
  let reversed := input.toList.reverse.dropWhile fun c => c = '/'
  String.ofList (reversed.dropWhile fun c => c ≠ '/').reverse ++ settingsFile

namespace Workspace

/-- The configuration in a file that has to be there. -/
def configIn (files : Workspace) (path : String) : Except LoadError Config :=
  match files path with
  | .missing | .unreadable => .error (.unreadableConfig path)
  | .text text =>
    match Config.ofToml? text with
    | some config => .ok config
    | none => .error (.malformedConfig path)

/-- The configuration for an input. -/
def discoverConfig (files : Workspace) (input : String) : Except LoadError Config :=
  match files (settingsBeside input) with
  | .missing => .ok .default
  | _ => files.configIn (settingsBeside input)

/-- The configuration in the named file, or else the one for the input. -/
def config (files : Workspace) (named : Option String) (input : String) : Except LoadError Config :=
  match named with
  | some path => files.configIn path
  | none => files.discoverConfig input

/-! ## Input -/

/-- The syntax trees in a file. -/
def trees (files : Workspace) (path : String) : Except LoadError (List SourceFile) :=
  match files path with
  | .missing | .unreadable => .error (.unreadableInput path)
  | .text text =>
    match readFiles text with
    | some trees => .ok trees
    | none => .error (.malformedInput path)

/-- Compile the syntax trees in a file. -/
def compile (files : Workspace) (config : Config) (path : String) :
    Except LoadError Compilation := do
  let trees ← files.trees path
  match Semcheck.compile config trees with
  | .ok c => return c
  | .error reason => throw (.aborted path reason)

end Workspace

end Semcheck
