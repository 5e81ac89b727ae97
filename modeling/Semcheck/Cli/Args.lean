/-
  The arguments of the command line:

    [--config FILE] [-v | --verbose] check|ir PATH

  The options may stand anywhere before a `--`.
-/
import Semcheck.Cli.Command

namespace Semcheck

/-- The arguments read so far. -/
structure Args where
  config : Option String
  verbose : Bool
  positional : List String
deriving DecidableEq

namespace Args

def empty : Args := ⟨none, false, []⟩

/-- Set the settings file; it can be set once. -/
def setConfig (a : Args) (path : String) : Option Args :=
  if a.config.isSome then none else some { a with config := some path }

/-- The flag may be given once. -/
def setVerbose (a : Args) : Option Args :=
  if a.verbose then none else some { a with verbose := true }

def addPositional (a : Args) (arg : String) : Args :=
  { a with positional := a.positional ++ [arg] }

/-- The text after `--config=`, if the argument has that form. -/
def configValue? (arg : String) : Option String :=
  let option := "--config=".toList
  if arg.toList.take option.length = option then
    some (String.ofList (arg.toList.drop option.length))
  else none

def read (a : Args) : List String → Option Args
  | [] => some a
  | "--" :: rest => some { a with positional := a.positional ++ rest }
  | ["--config"] => none
  | "--config" :: path :: rest => do (← a.setConfig path).read rest
  | arg :: rest => do
    if arg = "-v" || arg = "--verbose" then
      (← a.setVerbose).read rest
    else
      match configValue? arg with
      | some path => (← a.setConfig path).read rest
      | none =>
        if arg.toList.head? = some '-' && arg ≠ "-" then none
        else (a.addPositional arg).read rest

def request? (a : Args) : Option Request :=
  match a.positional with
  | ["check", path] => some ⟨.check, path, a.config⟩
  | ["ir", path] => some ⟨.ir, path, a.config⟩
  | _ => none

end Args

/-- The request on the command line. -/
def Request.ofArgs? (args : List String) : Option Request := do
  (← Args.empty.read args).request?

end Semcheck
