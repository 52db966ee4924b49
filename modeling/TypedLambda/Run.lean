import TypedLambda.Eval.Evaluator
import TypedLambda.Program.OfFile
import TypedLambda.Typing

/-!
# Running a file

A file is read, checked and evaluated. Each mismatch of types is written on a line; the program is
evaluated all the same, and its value and type are written on the last line. Any error ends the run,
the failure of a write included.
-/

namespace TypedLambda

inductive RunError where
  | reading (e : ReadError)
  | typing (e : TypeError)
  | evaluation (e : EvalError)
  | writing (hostError : String)

def RunError.message : RunError → String
  | reading e => e.message
  | typing e => e.message
  | evaluation e => e.message
  | writing hostError => hostError

/-- The number, from zero, of a write that fails, and the host's error. -/
structure WriteFailure where
  number : Nat
  error : String
deriving DecidableEq

/-- Where a run writes: the write that fails, the lines written so far, and the number of writes
that were tried. -/
structure Output where
  failure : Option WriteFailure
  written : List String
  writes : Nat

namespace Output

def start (failure : Option WriteFailure) : Output := ⟨failure, [], 0⟩

/-- Write a line. A write that fails writes nothing. -/
def write (out : Output) (line : String) : Except String Unit × Output :=
  match out.failure.filter (·.number = out.writes) with
  | some f => (.error f.error, { out with writes := out.writes + 1 })
  | none => (.ok (), { out with written := out.written ++ [line], writes := out.writes + 1 })

/-- Write lines one by one, up to a write that fails. -/
def writeAll (out : Output) : List String → Except String Unit × Output
  | [] => (.ok (), out)
  | line :: lines =>
    match out.write line with
    | (.ok (), out') => out'.writeAll lines
    | (.error e, out') => (.error e, out')

end Output

/-- What a run did: the lines it wrote, the number of writes it tried, how often it closed the file,
and what ended it. -/
structure Report where
  written : List String
  writes : Nat
  closes : Nat
  error : Option RunError

def Output.report (out : Output) (closes : Nat) (error : Option RunError) : Report :=
  ⟨out.written, out.writes, closes, error⟩

def mismatchLines (ms : List Mismatch) : List String := ms.map fun m => m.render ++ "\n"

def resultLine (v : Value) (t : Ty) : String := v.render ++ " : " ++ t.render ++ "\n"

/-- Run a program that was read from a file which was closed so often, with a write that may
fail. -/
def Program.run (registry : Registry) (limit : DepthLimit) (failure : Option WriteFailure)
    (closes : Nat) (p : Program) : Report :=
  let checked := p.infer registry
  match checked.result with
  | .error e => ⟨[], 0, closes, some (.typing e)⟩
  | .ok type =>
    match (Output.start failure).writeAll (mismatchLines checked.mismatches) with
    | (.error e, out) => out.report closes (some (.writing e))
    | (.ok (), out) =>
      match (p.evaluate registry limit).result with
      | .error e => out.report closes (some (.evaluation e))
      | .ok v =>
        match out.write (resultLine v type) with
        | (.error e, out) => out.report closes (some (.writing e))
        | (.ok (), out) => out.report closes none

def runFile (registry : Registry) (limit : DepthLimit) (failure : Option WriteFailure)
    (fs : FileSystem) (name : String) : Report :=
  let reading := Program.ofFile fs name
  match reading.result with
  | .error e => ⟨[], 0, reading.closes, some (.reading e)⟩
  | .ok p => p.run registry limit failure reading.closes

end TypedLambda
