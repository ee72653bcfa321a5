import FlowTyping.Command.Run

/-!
# The command

The command on the files of the machine.
-/

namespace FlowTyping

/-- The answers of the machine.  A path on it is shorter than 4096 bytes, so directories are not
nested deeper. -/
def machineFiles : FileSystem BaseIO where
  kindOf path := do
    match ← (System.mkFilePath [path]).metadata.toBaseIO with
    | .ok info =>
      match info.type with
      | .file => return some .file
      | .dir => return some .directory
      | _ => return none
    | .error _ => return none
  entries path := do
    match ← (System.mkFilePath [path]).readDir.toBaseIO with
    | .ok entries => return entries.toList.map fun entry => entry.fileName
    | .error _ => return []
  read path := do
    match ← (IO.FS.readFile path).toBaseIO with
    | .ok text => return some text
    | .error _ => return none
  nesting := 4096

end FlowTyping

open FlowTyping in
/-- Runs the command on the words of the command line. -/
def main (words : List String) : IO UInt32 := do
  let cwd ← IO.currentDir
  let stdout ← IO.getStdout
  let isTerminal ← stdout.isTty
  let result ← (runCommand machineFiles words cwd.toString isTerminal : BaseIO CommandResult)
  stdout.putStr result.output
  (← IO.getStderr).putStr result.errors
  return result.exitCode
