import TypedLambda.Proofs.Eval.Approximation

/-!
# The order of definitions

Evaluation under a larger table does the same, except that it may go on where the smaller table has
no value for a name (`Term.eval_approximates_of_grows`). Hence the table that definitions lead to is
the least one that contains the built-ins and binds each definition to the value which its body has
under this very table (`Evaluator.define_solves`, `Evaluator.grows_of_define`). The order of the
definitions does not occur in that description, so that two orders which both succeed lead to the
same evaluator (`Evaluator.ofDefinitions_perm`).
-/

namespace TypedLambda

/-! ## Larger tables -/

/-- The fault is a name without a value in the first table that has one in the second. -/
def Fault.Missing (table table' : Env Value) (fault : Fault) : Prop :=
  ∃ name, fault = .unbound name ∧ table.get? name = none ∧ (table'.get? name).isSome

theorem Globals.lookup_approximates {registry : Registry} {table table' : Env Value}
    (h : table.Grows table') (env : Env Value) (name : String) :
    (Traced.ofExcept (lookup ⟨registry, table⟩ env name)).Approximates
      (Fault.Missing table table') (Traced.ofExcept (lookup ⟨registry, table'⟩ env name)) := by
  simp only [lookup]
  cases hlocal : env.get? name with
  | some v => exact .ofExcept _
  | none =>
    cases htop : table.get? name with
    | some v =>
      simp only [h name v htop]
      exact .ofExcept _
    | none =>
      cases htop' : table'.get? name with
      | some v => exact .ofExcept_error ⟨name, rfl, htop, by rw [htop']; rfl⟩ _
      | none => exact .ofExcept _

/-- **Evaluation is monotone in the table**: with as many levels, a larger table gives the same
outcome, or the smaller one stops at a name that only the larger one has. -/
theorem Term.eval_approximates_of_grows {registry : Registry} {table table' : Env Value}
    (h : table.Grows table') (exhausted : Fault) (n : Nat) (env : Env Value) (x : Term) :
    (x.eval ⟨registry, table⟩ exhausted n env).Approximates (Fault.Missing table table')
      (x.eval ⟨registry, table'⟩ exhausted n env) := by
  induction n generalizing env x with
  | zero => exact .fail exhausted
  | succ n ih =>
    exact eval_succ_approximates (step_approximates (Globals.lookup_approximates h) ih env x)

namespace Evaluator

variable {registry : Registry} {table table' : Env Value} {limit : DepthLimit}

theorem evaluate_of_grows (h : table.Grows table') {env : Env Value} {x : Term} {v : Value}
    (hv : (evaluate ⟨table, limit⟩ registry env x).result = .ok v) :
    (evaluate ⟨table', limit⟩ registry env x).result = .ok v := by
  rcases (Term.eval_approximates_of_grows h limit.exhausted limit.depth env x).run with
    heq | ⟨fault, _, hfault, _⟩
  · have hsame : evaluate ⟨table, limit⟩ registry env x = evaluate ⟨table', limit⟩ registry env x :=
      heq
    rw [← hsame, hv]
  · rw [show (evaluate ⟨table, limit⟩ registry env x).result = _ from hfault] at hv
    cases hv

theorem evaluate_congr (h : ∀ name, table.get? name = table'.get? name) (env : Env Value)
    (x : Term) :
    evaluate ⟨table, limit⟩ registry env x = evaluate ⟨table', limit⟩ registry env x := by
  have hgrows : table.Grows table' := fun name v hv => by rwa [← h name]
  rcases (Term.eval_approximates_of_grows hgrows limit.exhausted limit.depth env x).run with
    heq | ⟨_, ⟨name, _, hnone, hsome⟩, _⟩
  · exact heq
  · rw [← h name, hnone] at hsome
    cases hsome

/-! ## Definitions as equations -/

/-- The table binds each definition to the value which its body has under the table itself. -/
def Solves (registry : Registry) (ds : List Definition) (e : Evaluator) : Prop :=
  ∀ d ∈ ds, ∃ v, e.topLevel.get? d.name = some v ∧
    (e.evaluate registry .empty d.body).result = .ok v

theorem define_solves {ds : List Definition} {e e' : Evaluator}
    (h : (define registry e ds).result = .ok e') (hnodup : (ds.map (·.name)).Nodup)
    (hfresh : ∀ d ∈ ds, e.topLevel.get? d.name = none) :
    e.topLevel.Grows e'.topLevel ∧ e'.Solves registry ds := by
  induction ds generalizing e with
  | nil =>
    obtain rfl := Except.ok.inj h
    exact ⟨fun _ _ hv => hv, nofun⟩
  | cons d ds ih =>
    rw [List.map_cons, List.nodup_cons] at hnodup
    obtain ⟨v, hv, hrest⟩ := define_cons_eq_ok h
    have hlimit := limit_define h
    have hstep := Env.grows_insert (hfresh d List.mem_cons_self) v
    have hfresh' : ∀ d' ∈ ds, (e.topLevel.insert d.name v).get? d'.name = none := by
      intro d' hd'
      have hne : d'.name ≠ d.name := fun heq => hnodup.1 (heq ▸ List.mem_map.mpr ⟨d', hd', rfl⟩)
      rw [Env.get?_insert_of_ne hne]
      exact hfresh d' (List.mem_cons_of_mem d hd')
    obtain ⟨hgrows, hsolves⟩ := ih hrest hnodup.2 hfresh'
    obtain ⟨table', limit'⟩ := e'
    obtain rfl : limit' = e.limit := hlimit
    -- the body was evaluated under a part of the final table
    have hfinal := evaluate_of_grows (hstep.trans hgrows) hv
    refine ⟨hstep.trans hgrows, List.forall_mem_cons.mpr ⟨⟨v, ?_, hfinal⟩, hsolves⟩⟩
    exact hgrows d.name v (Env.get?_insert_self _ _ _)

/-- The table that definitions lead to is part of every table that solves them. -/
theorem grows_of_define {ds : List Definition} {e e' s : Evaluator}
    (h : (define registry e ds).result = .ok e') (hlimit : s.limit = e.limit)
    (hgrows : e.topLevel.Grows s.topLevel) (hsolves : s.Solves registry ds) :
    e'.topLevel.Grows s.topLevel := by
  induction ds generalizing e with
  | nil =>
    obtain rfl := Except.ok.inj h
    exact hgrows
  | cons d ds ih =>
    obtain ⟨v, hv, hrest⟩ := define_cons_eq_ok h
    obtain ⟨⟨w, hw, hbody⟩, hsolves⟩ := List.forall_mem_cons.mp hsolves
    obtain ⟨table, limit⟩ := s
    obtain rfl : limit = e.limit := hlimit
    obtain rfl : w = v := by
      rw [evaluate_of_grows hgrows hv] at hbody
      exact (Except.ok.inj hbody).symm
    refine ih hrest rfl (fun name a ha => ?_) hsolves
    rw [Env.get?_insert] at ha
    split at ha
    · next heq =>
      rw [heq, hw]
      exact ha
    · exact hgrows name a ha

end Evaluator

/-! ## Orders -/

theorem Registry.get?_closures {registry : Registry} {table table' : Env Value} {name : String}
    (h : Registry.closures table registry = .ok table') (hname : name ∉ registry.map (·.name)) :
    table'.get? name = table.get? name := by
  induction registry generalizing table with
  | nil =>
    obtain rfl := Except.ok.inj h
    rfl
  | cons b bs ih =>
    rw [List.map_cons, List.mem_cons, not_or] at hname
    rw [Registry.closures] at h
    split at h
    · rw [ih h hname.2, Env.get?_insert_of_ne hname.1]
    · cases h

theorem Registry.get?_table {registry : Registry} {table : Env Value} {name : String}
    (h : registry.table = .ok table) (hname : name ∉ registry.map (·.name)) :
    table.get? name = none := by
  rw [Registry.table] at h
  split at h
  · rw [Registry.get?_closures h hname, Env.get?_empty]
  · cases h

theorem Evaluator.ofDefinitions_eq_ok {registry : Registry} {limit : DepthLimit}
    {ds : List Definition} {e : Evaluator}
    (h : (Evaluator.ofDefinitions registry limit ds).result = .ok e) :
    ∃ table, registry.table = .ok table ∧ (define registry ⟨table, limit⟩ ds).result = .ok e := by
  rw [Evaluator.ofDefinitions] at h
  split at h
  · cases h
  · next table htable => exact ⟨table, htable, h⟩

/-- **The order of definitions does not matter when it works.** If distinct definitions that hide no
built-in are evaluated in two orders under one limit, and both times all of them have values, then
the two tables have the same value for every name, and the two evaluators give the same result and
the same trace for every term in every environment. -/
theorem Evaluator.ofDefinitions_perm {registry : Registry} {limit : DepthLimit}
    {ds ds' : List Definition} {e e' : Evaluator} (hnodup : (ds.map (·.name)).Nodup)
    (hnames : ∀ d ∈ ds, d.name ∉ registry.map (·.name)) (hperm : ds.Perm ds')
    (h : (Evaluator.ofDefinitions registry limit ds).result = .ok e)
    (h' : (Evaluator.ofDefinitions registry limit ds').result = .ok e') :
    (∀ name, e.topLevel.get? name = e'.topLevel.get? name) ∧
    ∀ env x, e.evaluate registry env x = e'.evaluate registry env x := by
  obtain ⟨table, htable, h⟩ := Evaluator.ofDefinitions_eq_ok h
  obtain ⟨table', htable', h'⟩ := Evaluator.ofDefinitions_eq_ok h'
  rw [htable] at htable'
  obtain rfl := Except.ok.inj htable'
  have hfresh : ∀ d ∈ ds, table.get? d.name = none := fun d hd =>
    Registry.get?_table htable (hnames d hd)
  obtain ⟨hgrows, hsolves⟩ := define_solves h hnodup hfresh
  obtain ⟨hgrows', hsolves'⟩ := define_solves h' ((hperm.map _).nodup_iff.mp hnodup)
    fun d hd => hfresh d (hperm.mem_iff.mpr hd)
  have hlimit : e.limit = limit := limit_define h
  have hlimit' : e'.limit = limit := limit_define h'
  -- each table is the least solution of the same equations
  have hle := grows_of_define h hlimit' hgrows' fun d hd => hsolves' d (hperm.mem_iff.mp hd)
  have hge := grows_of_define h' hlimit hgrows fun d hd => hsolves d (hperm.mem_iff.mpr hd)
  have hsame : ∀ name, e.topLevel.get? name = e'.topLevel.get? name := by
    intro name
    cases hv : e.topLevel.get? name with
    | some v => rw [hle name v hv]
    | none =>
      cases hv' : e'.topLevel.get? name with
      | some v =>
        rw [hge name v hv'] at hv
        cases hv
      | none => rfl
  refine ⟨hsame, fun env x => ?_⟩
  obtain ⟨topLevel, _⟩ := e
  obtain ⟨topLevel', _⟩ := e'
  obtain rfl := hlimit
  obtain rfl := hlimit'
  exact evaluate_congr hsame env x

/-- A function that uses a number of the same program. -/
def Definition.increment : Definition :=
  ⟨"inc", .fn .int .int, .lam "n" .int (.bin .add (.var "n") (.var "one"))⟩

def Definition.one : Definition := ⟨"one", .int, .lit (.int 1)⟩

/-- A value that needs both. -/
def Definition.two : Definition := ⟨"two", .int, .app (.var "inc") (.var "one")⟩

theorem Evaluator.ofDefinitions_two :
    ∃ e e', (ofDefinitions .standard (.levels 10) [.increment, .one, .two]).result = .ok e ∧
      (ofDefinitions .standard (.levels 10) [.one, .increment, .two]).result = .ok e' ∧
      (∀ name, e.topLevel.get? name = e'.topLevel.get? name) ∧
      ∀ env x, e.evaluate .standard env x = e'.evaluate .standard env x := by
  have hperm : List.Perm [Definition.increment, .one, .two] [.one, .increment, .two] :=
    .swap _ _ _
  obtain ⟨e, h⟩ : ∃ e, (ofDefinitions .standard (.levels 10) [.increment, .one, .two]).result =
      .ok e := ⟨_, rfl⟩
  obtain ⟨e', h'⟩ : ∃ e, (ofDefinitions .standard (.levels 10) [.one, .increment, .two]).result =
      .ok e := ⟨_, rfl⟩
  exact ⟨e, e', h, h', Evaluator.ofDefinitions_perm (by decide) (by decide) hperm h h'⟩

end TypedLambda
