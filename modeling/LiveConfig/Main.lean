import LiveConfig.Api
import LiveConfig.CommandLine
import LiveConfig.Manifest
import LiveConfig.Settings

/-!
# The program

Reads the manifest that the command line names, and lists what would be requested from the cluster
for each of its rules.
-/

namespace LiveConfig.Program

/-- What is said about the options. -/
def usage : String :=
  "Usage: live-config [--sources FILE] [--refresh-url URL | --output-file FILE]"

/-- The version of the program. -/
def version : String := "live-config 0.1.0"

/-- The wording of why the program does not start as asked. -/
def refusalText : CommandLine.Refusal → String
  | .unknownArgument => "unexpected argument\n" ++ usage
  | .invalidValue => "an option lacks a valid value\n" ++ usage
  | .tooManyValues => "a switch does not take a value\n" ++ usage
  | .argumentConflict => "an option was repeated, or excludes another one\n" ++ usage
  | .displayHelp => usage
  | .displayVersion => version

/-- The exit code if the program does not start as asked. -/
def exitCode : CommandLine.Refusal → UInt32
  | .displayHelp => 0
  | .displayVersion => 0
  | _ => 2

/-- What is requested for a rule. -/
def describe (space : String) (r : Rule) : String :=
  match r.selection with
  | .named name => Api.objectPath (r.keyIn space name)
  | .labelled labels => Api.scopePath (r.scopeIn space) ++ "?labelSelector=" ++ labels.selector

/-- What is requested for the rules of a manifest. -/
def plan (s : Settings) (m : Manifest) (rules : List Rule) : List String :=
  rules.map (describe (m.space.getD s.space))

/-- The variables of the environment that matter. -/
def environmentNames : List String := "POD_NAMESPACE" :: CommandLine.Flag.all.map (·.environmentName)

/-- The values of variables that are set. -/
def readEnvironment (names : List String) : IO (SortedMap String String) := do
  let found ← names.mapM (fun n => do return (← IO.getEnv n).map (n, ·))
  return .ofList (found.filterMap id)

/-- What a file holds, if it can be read. -/
def contentOf (path : String) : IO (Option String) := do
  try
    return some (← IO.FS.readFile path)
  catch _ =>
    return none

/-- The program with its arguments. -/
def run (args : List String) : IO UInt32 := do
  let env ← readEnvironment environmentNames
  match CommandLine.parse args env.get? with
  | .error r =>
    if exitCode r = 0 then IO.println (refusalText r) else IO.eprintln (refusalText r)
    return exitCode r
  | .ok o =>
    match Manifest.load o.sources (← contentOf o.sources) with
    | .error f =>
      IO.eprintln f.message
      return 1
    | .ok (m, rules) =>
      for line in plan (.ofEnvironment env.get?) m rules do
        IO.println line
      return 0

end LiveConfig.Program

/-- List what would be requested from the cluster. -/
def main (args : List String) : IO UInt32 := LiveConfig.Program.run args
