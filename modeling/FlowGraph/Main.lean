import FlowGraph.Program

/-!
The command: reads the workflow file that the command line names, and writes the
text of its graphs to standard output or to a file.
-/

namespace FlowGraph.Command

open Program

def readConfig (path : String) : IO ConfigFile := do
  try
    return .content (← IO.FS.readBinFile path)
  catch
    | .noFileOrDirectory _ _ _ => return .missing
    | error => return .unreadable (toString error)

def finish (exit : Exit) : IO UInt32 := do
  (← IO.getStdout).putStr exit.output
  (← IO.getStderr).putStr exit.errorOutput
  return exit.code.toUInt32

def writeOutput (path text : String) : IO Exit := do
  try
    IO.FS.writeFile path text
    return .ofText ""
  catch error =>
    return .ofFailure (.unwritable path (toString error))

def showLog (settings : Settings) (config : ConfigFile) : IO Unit := do
  if let .ok workflow := loadConfig settings config then
    for line in logLines settings workflow do
      (← IO.getStderr).putStrLn line

def runWith (settings : Settings) : IO UInt32 := do
  let config ← readConfig settings.config
  showLog settings config
  match Program.run settings config, settings.output with
  | .error failure, _ => finish (.ofFailure failure)
  | .ok text, none => finish (.ofText text)
  | .ok text, some path => do
      let exit ← writeOutput path text
      finish exit

end FlowGraph.Command

def main (words : List String) : IO UInt32 := do
  let environment ← IO.getEnv FlowGraph.CommandLine.configVariable
  match FlowGraph.Program.start words environment with
  | .error exit => FlowGraph.Command.finish exit
  | .ok settings => FlowGraph.Command.runWith settings
