import EcmaMachine.CommandLine.Run

/-!
The command line. Files and environment variables are read here; all else is
`EcmaMachine.CommandLine`.
-/

namespace EcmaMachine.CommandLine

/-- The variables that settings come from. -/
def variableNames : List String :=
  ["METAES__EVALUATION__USE_REFERENCES", "METAES__EVALUATION__STEP_BUDGET",
    "METAES__EVALUATION__CACHE_PARSES", "METAES__LOGGING__FILTER"]

def environment : IO Variables.Environment :=
  variableNames.filterMapM fun name => do
    return (← IO.getEnv name).map (name, ·)

/-- The files that an invocation may read. -/
def filesOf (i : Invocation) : List String :=
  let operand := match i.command with
    | .run file _ => [file]
    | .parse file _ => [file]
    | .eval _ => []
  [Settings.defaultFile, Settings.variableFile] ++ i.config.toList ++ operand

def readFiles (names : List String) : IO (List (String × FileContent)) :=
  names.mapM fun (name : String) => do
    try
      return (name, .text (← IO.FS.readFile name))
    catch
      | .noFileOrDirectory .. => return (name, .absent)
      | _ => return (name, .directory)

/-- More steps than any run takes. -/
def unbounded : Nat := 1000000000000000000

def complain (message : String) (code : UInt32) : IO UInt32 := do
  (← IO.getStderr).putStrLn message
  return code

end EcmaMachine.CommandLine

open EcmaMachine EcmaMachine.CommandLine

def main (args : List String) : IO UInt32 := do
  match CommandLine.parse args with
  | .error .help => IO.println UsageFault.help.message; return 0
  | .error fault => complain ("error: " ++ fault.message) 2
  | .ok i =>
    let files ← readFiles (filesOf i)
    let read := fun name => (files.lookup name).getD .absent
    match CommandLine.settings read (← environment) i with
    | .error fault => complain ("Error: " ++ settingsMessage fault) 1
    | .ok settings =>
      let report := CommandLine.run unbounded read settings i.command
      for line in report.log do
        (← IO.getStderr).putStrLn line
      IO.print report.stdout
      match report.failure with
      | some message => complain ("Error: " ++ message) 1
      | none => return 0
