/-
  The command line program.  It reads the files a request needs, runs the
  request, and prints the outcome.
-/
import Semcheck.Cli.Args

open Semcheck

/-- What is found under the name of a file. -/
def readContents (path : String) : IO Contents := do
  try
    return .text (← IO.FS.readFile path)
  catch
    | .noFileOrDirectory .. => return .missing
    | _ => return .unreadable

/-- The files that a request needs. -/
def readWorkspace (request : Request) : IO Workspace := do
  let configPath := request.config.getD (settingsBeside request.input)
  let config ← readContents configPath
  let input ← readContents request.input
  return fun path =>
    if path = request.input then input
    else if path = configPath then config
    else .missing

/-- Colors are used on a terminal, unless the environment says otherwise. -/
def wantsColors : IO Bool := do
  if (← IO.getEnv "CLICOLOR_FORCE").any fun value => value ≠ "0" then return true
  if (← IO.getEnv "NO_COLOR").isSome then return false
  if (← IO.getEnv "CLICOLOR") = some "0" then return false
  (← IO.getStdout).isTty

def main (args : List String) : IO UInt32 := do
  match Request.ofArgs? args with
  | none =>
    IO.eprintln "Usage: semcheck [--config FILE] [-v] check|ir PATH"
    return 2
  | some request =>
    let files ← readWorkspace request
    let outcome := request.run (← wantsColors) files
    IO.print outcome.stdout
    IO.eprint outcome.stderr
    return outcome.exitCode
