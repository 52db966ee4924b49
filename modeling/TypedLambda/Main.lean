import TypedLambda.CommandLine

/-!
# Entry point

Reads the source file of the working directory and writes what the command answers.
-/

open TypedLambda

/-- The entry of the working directory that the command reads. -/
def TypedLambda.CommandLine.readEntry : IO (Option Entry) := do
  try
    let bytes ← IO.FS.readBinFile CommandLine.sourceName
    return some (.file bytes.toList none)
  catch
    | .noFileOrDirectory .. => return none
    | _ => return some .directory

def main : IO UInt32 := do
  let entry ← CommandLine.readEntry
  let answer := CommandLine.run <| CommandLine.workingDirectory fun name =>
    if name = CommandLine.sourceName then entry else none
  let stdout ← IO.getStdout
  stdout.putStr answer.stdout
  stdout.flush
  let stderr ← IO.getStderr
  stderr.putStr answer.stderr
  return answer.code.toUInt32
