import TypedLambda.Run

/-!
# The command

The command runs the file `main.story` of the working directory, with at most 100000 nested
evaluations. What it writes goes to the standard output; an error goes to the standard error and
makes the command fail.
-/

namespace TypedLambda.CommandLine

def sourceName : String := "main.story"

def maxDepth : Nat := 100000

/-- What the command writes, and its exit code. -/
structure Exit where
  stdout : String
  stderr : String
  code : UInt8
deriving DecidableEq

/-- A working directory as a file system, given its entry of each name. -/
def workingDirectory (entryOf : String → Option Entry) : FileSystem where
  openFile name :=
    match entryOf name with
    | none => .error ("open " ++ name ++ ": no such file or directory")
    | some (.file bytes _) => .ok ⟨bytes, none, none⟩
    | some .directory => .ok ⟨[], some ("read ./" ++ name ++ ": is a directory"), none⟩

def run (fs : FileSystem) : Exit :=
  let report := runFile .standard (.levels maxDepth) none fs sourceName
  let stdout := String.join report.written
  match report.error with
  | some e => ⟨stdout, e.message ++ "\n", 1⟩
  | none => ⟨stdout, "", 0⟩

end TypedLambda.CommandLine
