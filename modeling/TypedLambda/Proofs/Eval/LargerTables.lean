import TypedLambda.Proofs.Eval.Cutoff
import TypedLambda.Proofs.Eval.DefinitionOrder

/-!
# Evaluation under a larger table

Closures do not keep the table of top-level values; their bodies look names up in it when they are
called. More names in the table therefore reach every closure there is, in the environment and in
the table itself. They change an evaluation only from the first name on that was missing:
`Evaluator.evaluate_largerTable`.

Two evaluators with one maximal depth may differ in their fuel. Fuel matters only to an evaluation
that it does not suffice for (`Evaluator.evaluate_moreFuel`), so that the two tables can be compared
with the larger amount.
-/

namespace TypedLambda.Evaluator

variable {registry : Registry} {table table' : Env Value} {env : Env Value} {x : Term}

/-- Under one limit, the smaller table gives the outcome of the larger one, or stops before it at a
name that is missing. -/
theorem evaluate_precedes_of_grows (h : table.Grows table') (limit : DepthLimit)
    (registry : Registry) (env : Env Value) (x : Term) :
    (evaluate ⟨table, limit⟩ registry env x).Precedes (Fault.Missing table table')
      (evaluate ⟨table', limit⟩ registry env x) :=
  (Term.eval_approximates_of_grows h limit.exhausted limit.depth env x).run

theorem evaluate_moreFuel {fuel fuel' : Nat} (h : fuel ≤ fuel') (maxDepth : Int)
    (hends : (evaluate ⟨table, .ofNumber fuel maxDepth⟩ registry env x).result ≠
      .error .outOfFuel) :
    evaluate ⟨table, .ofNumber fuel' maxDepth⟩ registry env x =
      evaluate ⟨table, .ofNumber fuel maxDepth⟩ registry env x := by
  rcases Int.lt_or_le 0 maxDepth with hpos | hnonpos
  · rw [DepthLimit.ofNumber_of_pos hpos, DepthLimit.ofNumber_of_pos hpos]
  · rw [DepthLimit.ofNumber_of_nonpos hnonpos] at hends
    rw [DepthLimit.ofNumber_of_nonpos hnonpos, DepthLimit.ofNumber_of_nonpos hnonpos]
    have hdepth : (DepthLimit.unlimited fuel).depth ≤ (DepthLimit.unlimited fuel').depth := h
    rcases evaluate_precedes hdepth table registry env x with heq | ⟨fault, hfault, hresult, _⟩
    · exact heq.symm
    · have hfuel : fault = .outOfFuel := hfault
      rw [hfuel] at hresult
      exact absurd hresult hends

/-- **Evaluation is monotone in the table.** Let a second table bind every name of a first one to
the same value, and possibly more names. Under one maximal depth, for every environment and every
term: if the evaluation under the first table ends, with a value or with a fault other than an
unbound name, then the evaluation under the second one has the same result and the same trace. If
the first one ends at an unbound name, then the second one does so too, with the same trace, or the
second table binds that name and the trace goes on from where the first one stopped. -/
theorem evaluate_largerTable (registry : Registry) (hgrows : table.Grows table') (maxDepth : Int)
    {fuel fuel' : Nat} (hfuel : fuel ≤ fuel') (env : Env Value) (x : Term) :
    let o := evaluate ⟨table, .ofNumber fuel maxDepth⟩ registry env x
    let o' := evaluate ⟨table', .ofNumber fuel' maxDepth⟩ registry env x
    (o.result ≠ .error .outOfFuel → (∀ name, o.result ≠ .error (.unbound name)) → o' = o) ∧
    ∀ name, o.result = .error (.unbound name) →
      o' = o ∨ (∃ v, table'.get? name = some v) ∧ o.trace <+: o'.trace := by
  intro o o'
  have htables := evaluate_precedes_of_grows hgrows (.ofNumber fuel' maxDepth) registry env x
  refine ⟨fun hends hbound => ?_, fun name hname => ?_⟩
  · rw [evaluate_moreFuel hfuel maxDepth hends] at htables
    rcases htables with heq | ⟨_, ⟨name, rfl, _⟩, hresult, _⟩
    · exact heq.symm
    · exact absurd hresult (hbound name)
  · have hends : o.result ≠ .error .outOfFuel := by
      rw [hname]
      rintro ⟨⟩
    rw [evaluate_moreFuel hfuel maxDepth hends] at htables
    rcases htables with heq | ⟨_, ⟨missing, rfl, _, hsome⟩, hresult, htrace⟩
    · exact .inl heq.symm
    · -- The name at which the first evaluation stopped is the missing one.
      obtain rfl : missing = name :=
        Fault.unbound.inj (Except.error.inj (hresult.symm.trans hname))
      exact .inr ⟨Option.isSome_iff_exists.mp hsome, htrace⟩

/-- Local names: a closure whose body calls a top-level function. -/
def callerEnv : Env Value :=
  Env.empty.insert "f" (.closure .empty "n" (.app (.var "inc") (.var "n")))

/-- A table with that function. -/
def helperTable : Env Value :=
  Env.empty.insert "inc" (.closure .empty "n" (.bin .add (.var "n") (.lit (.int 1))))

theorem evaluate_largerTable_caller :
    let x := Term.app (.var "f") (.lit (.int 3))
    let o := evaluate ⟨.empty, .ofNumber 0 10⟩ .standard callerEnv x
    let o' := evaluate ⟨helperTable, .ofNumber 0 10⟩ .standard callerEnv x
    o.result = .error (.unbound "inc") ∧ o'.result = .ok (.int 4) ∧ o.trace <+: o'.trace := by
  intro x o o'
  have hgrows : Env.Grows .empty helperTable := Env.grows_insert rfl _
  have hresult : o.result = .error (.unbound "inc") := rfl
  have hresult' : o'.result = .ok (.int 4) := rfl
  refine ⟨hresult, hresult', ?_⟩
  rcases (evaluate_largerTable .standard hgrows 10 (Nat.le_refl 0) callerEnv x).2 "inc" hresult with
    heq | ⟨_, htrace⟩
  · have hsame : o'.result = o.result := congrArg Outcome.result heq
    rw [hresult, hresult'] at hsame
    cases hsame
  · exact htrace

end TypedLambda.Evaluator
