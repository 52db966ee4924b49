import TypedLambda.Proofs.Eval.Builtins

/-!
# Type soundness

A program that inference accepts without a mismatch does not go wrong. `Value.HasType ctx v t` types
the values of a program with context `ctx`: a closure has a body that is well typed under types for
what it captured, and a built-in that waits for arguments has its declared type. The types of values
do not mention the table of top-level values, so that a closure keeps its type while the table
grows. Evaluation with any number of levels gives a value of the right type or stops at a name that
is not in the table yet (`Term.eval_sound`); in a program that name is the name of a definition
that is not evaluated yet.
-/

namespace TypedLambda

/-! ## Typed values -/

/-- The values of a type, in a program with the given context. -/
inductive Value.HasType (ctx : Env Ty) : Value → Ty → Prop
  | int {n : Int64} : HasType ctx (.int n) .int
  | bool {b : Bool} : HasType ctx (.bool b) .bool
  | text {bytes : List UInt8} : HasType ctx (.text bytes) .text
  /-- `scope` types what the closure captured, and every other name as the program does. -/
  | closure {env : Env Value} {param : String} {body : Term} {a r : Ty} {scope : Env Ty}
      (bound : ∀ name, (env.get? name).isSome → (scope.get? name).isSome)
      (captured : ∀ name v t, env.get? name = some v → scope.get? name = some t → HasType ctx v t)
      (other : ∀ name, env.get? name = none → scope.get? name = ctx.get? name)
      (typed : body.HasType (scope.insert param a) r) :
      HasType ctx (.closure env param body) (.fn a r)
  /-- A built-in after some of its arguments. -/
  | builtin {b : Builtin} {args : List Value} {v : Value} {t : Ty}
      (registered : b ∈ Registry.standard) (waiting : b.Waiting args v t)
      (typed : ∀ (i : Nat) w p, args[i]? = some w → b.parameters[i]? = some p →
        HasType ctx w p.2) :
      HasType ctx v t

/-- An environment of local names fits a scope: its values have the types of the scope, and the
scope agrees with the context on every name that is not local. -/
structure Env.Fits (ctx : Env Ty) (env : Env Value) (scope : Env Ty) : Prop where
  typed : ∀ name v, env.get? name = some v → ∃ t, scope.get? name = some t ∧ v.HasType ctx t
  other : ∀ name, env.get? name = none → scope.get? name = ctx.get? name

/-- A table of top-level values fits a context, which may have more names. -/
def Env.FitsTable (ctx : Env Ty) (table : Env Value) : Prop :=
  ∀ name v, table.get? name = some v → ∃ t, ctx.get? name = some t ∧ v.HasType ctx t

namespace Env

variable {ctx scope : Env Ty} {env table : Env Value}

theorem Fits.empty : Fits ctx .empty ctx := by
  refine ⟨fun name v h => ?_, fun _ _ => rfl⟩
  rw [get?_empty] at h
  cases h

theorem Fits.insert (h : Fits ctx env scope) (name : String) {v : Value} {t : Ty}
    (hv : v.HasType ctx t) : Fits ctx (env.insert name v) (scope.insert name t) := by
  refine ⟨fun other w hw => ?_, fun other hw => ?_⟩
  · rw [get?_insert] at hw ⊢
    by_cases heq : other = name
    · rw [if_pos heq] at hw ⊢
      obtain rfl := Option.some.inj hw
      exact ⟨t, rfl, hv⟩
    · rw [if_neg heq] at hw ⊢
      exact h.typed other w hw
  · rw [get?_insert] at hw ⊢
    by_cases heq : other = name
    · rw [if_pos heq] at hw
      cases hw
    · rw [if_neg heq] at hw ⊢
      exact h.other other hw

theorem FitsTable.insert (h : FitsTable ctx table) {name : String} {v : Value} {t : Ty}
    (ht : ctx.get? name = some t) (hv : v.HasType ctx t) :
    FitsTable ctx (table.insert name v) := by
  intro other w hw
  rw [get?_insert] at hw
  by_cases heq : other = name
  · rw [if_pos heq] at hw
    obtain rfl := Option.some.inj hw
    exact ⟨t, by rw [heq, ht], hv⟩
  · rw [if_neg heq] at hw
    exact h other w hw

end Env

namespace Value.HasType

variable {ctx : Env Ty} {v : Value} {t : Ty}

theorem kind_eq (h : v.HasType ctx t) : v.kind = t.kind := by
  cases h with
  | builtin _ waiting _ => cases waiting; rfl
  | _ => rfl

theorem of_kind_eq (ht : t.isFn = false) (h : v.kind = t.kind) : v.HasType ctx t := by
  cases t with
  | int => obtain ⟨n, rfl⟩ := Value.eq_int_of_kind h; exact .int
  | bool => obtain ⟨b, rfl⟩ := Value.eq_bool_of_kind h; exact .bool
  | text => obtain ⟨bytes, rfl⟩ := Value.eq_text_of_kind h; exact .text
  | fn a r => cases ht

theorem of_fits {env : Env Value} {scope : Env Ty} (henv : Env.Fits ctx env scope)
    {param : String} {body : Term} {a r : Ty} (hbody : body.HasType (scope.insert param a) r) :
    (Value.closure env param body).HasType ctx (.fn a r) := by
  refine .closure (fun name hname => ?_) (fun name v t hv ht => ?_) henv.other hbody
  · obtain ⟨v, hv⟩ := Option.isSome_iff_exists.mp hname
    obtain ⟨t, ht, _⟩ := henv.typed name v hv
    rw [ht]
    rfl
  · obtain ⟨s, hs, hvs⟩ := henv.typed name v hv
    rw [ht] at hs
    obtain rfl := Option.some.inj hs
    exact hvs

/-- A value of a function type is a closure. Given an argument, it either has a well typed body to
evaluate or has a result at once. -/
theorem apply {a r : Ty} (h : v.HasType ctx (.fn a r)) :
    ∃ env param body, v = .closure env param body ∧ ∀ arg, arg.HasType ctx a →
      (∃ scope, Env.Fits ctx (env.insert param arg) scope ∧ body.HasType scope r) ∨
      ∃ w, w.HasType ctx r ∧
        ∀ table eval, body.step ⟨.standard, table⟩ eval (env.insert param arg) = pure w := by
  cases h with
  | @closure env param body _ _ scope bound captured other typed =>
    refine ⟨env, param, body, rfl, fun arg harg => .inl ⟨scope.insert param a, ?_, typed⟩⟩
    have henv : Env.Fits ctx env scope := by
      refine ⟨fun name w hw => ?_, other⟩
      obtain ⟨s, hs⟩ := Option.isSome_iff_exists.mp (bound name (by rw [hw]; rfl))
      exact ⟨s, hs, captured name w s hw hs⟩
    exact henv.insert param harg
  | @builtin b args _ _ registered waiting typed =>
    obtain ⟨env, param, body, rfl⟩ : ∃ env param body, v = .closure env param body := by
      cases waiting
      exact ⟨_, _, _, rfl⟩
    refine ⟨env, param, body, rfl, fun arg harg => .inr ?_⟩
    have hargs : ∀ (i : Nat) w p, (args ++ [arg])[i]? = some w → b.parameters[i]? = some p →
        HasType ctx w p.2 := by
      refine Builtin.forall_concat typed fun p hp => ?_
      rw [waiting.parameter] at hp
      obtain rfl := Option.some.inj hp
      exact harg
    obtain ⟨w, hstep, hw | ⟨hfn, hkind⟩⟩ := waiting.step_standard registered
      fun i w p hw hp => (hargs i w p hw hp).kind_eq
    · exact ⟨w, .builtin registered hw hargs, hstep⟩
    · exact ⟨w, of_kind_eq hfn hkind, hstep⟩

end Value.HasType

/-! ## Terms -/

/-- The faults of a well typed term: no level is left, or a name of the program has no value in the
table. -/
def Fault.Admissible (ctx : Env Ty) (table : Env Value) (exhausted fault : Fault) : Prop :=
  fault = exhausted ∨ ∃ name, fault = .unbound name ∧ (ctx.get? name).isSome ∧
    table.get? name = none

theorem Globals.lookup_sound {ctx scope : Env Ty} {env table : Env Value} {exhausted : Fault}
    (htable : Env.FitsTable ctx table) (henv : Env.Fits ctx env scope) {name : String} {t : Ty}
    (h : scope.get? name = some t) :
    (Traced.ofExcept (Globals.lookup ⟨.standard, table⟩ env name)).Ensures (·.HasType ctx t)
      (Fault.Admissible ctx table exhausted) := by
  refine lookup_ensures (fun v hlocal => ?_) (fun v hlocal htop => ?_) fun hlocal htop => ?_
  · obtain ⟨s, hs, hv⟩ := henv.typed name v hlocal
    rw [h] at hs
    obtain rfl := Option.some.inj hs
    exact hv
  · rw [henv.other name hlocal] at h
    obtain ⟨s, hs, hv⟩ := htable name v htop
    rw [h] at hs
    obtain rfl := Option.some.inj hs
    exact hv
  · rw [henv.other name hlocal] at h
    exact .inr ⟨name, rfl, by rw [h]; rfl, htop⟩

theorem Term.eval_sound {ctx : Env Ty} {table : Env Value} (htable : Env.FitsTable ctx table)
    (exhausted : Fault) (n : Nat) {env : Env Value} {scope : Env Ty} {x : Term} {t : Ty}
    (henv : Env.Fits ctx env scope) (hx : x.HasType scope t) :
    (x.eval ⟨.standard, table⟩ exhausted n env).Ensures (·.HasType ctx t)
      (Fault.Admissible ctx table exhausted) := by
  -- on the levels, since the body of a closure is no part of the application
  induction n generalizing env scope x t with
  | zero => exact eval_zero_ensures (.inl rfl)
  | succ n ih =>
    apply eval_succ_ensures
    cases hx with
    | app hfunc harg =>
      refine .bind (ih henv hfunc) fun f hf => ?_
      obtain ⟨captured, param, body, rfl, happly⟩ := hf.apply
      refine .bind (ih henv harg) fun a ha => ?_
      rcases happly a ha with ⟨inner, hinner, hbody⟩ | ⟨w, hw, hstep⟩
      · exact ih hinner hbody
      · cases n with
        | zero => exact eval_zero_ensures (.inl rfl)
        | succ n =>
          apply eval_succ_ensures
          rw [hstep]
          exact .pure hw
    | lam hbody => exact .pure (.of_fits henv hbody)
    | int => exact .pure .int
    | bool => exact .pure .bool
    | text => exact .pure .text
    | var hname => exact Globals.lookup_sound htable henv hname
    | bin hop hleft hright =>
      refine .bind (ih henv hleft) fun l hl => .bind (ih henv hright) fun r hr => ?_
      obtain ⟨v, hv, hkind⟩ := hop.apply hl.kind_eq hr.kind_eq
      exact .ofExcept_ok hv (.of_kind_eq hop.isFn_result hkind)
    | ite hcond hyes hno =>
      refine .bind (ih henv hcond) fun c hc => ?_
      obtain ⟨b, rfl⟩ := Value.eq_bool_of_kind hc.kind_eq
      cases b with
      | true => exact ih henv hyes
      | false => exact ih henv hno
    | letIn hbound hbody =>
      exact .bind (ih henv hbound) fun b hb => ih (henv.insert _ hb) hbody

/-! ## Programs -/

section

variable {p : Program} (hnodup : (p.definitions.map (·.name)).Nodup)
  (hnames : ∀ d ∈ p.definitions, d.name ∉ Registry.standard.map (·.name))

include hnodup in
theorem Program.context_get?_definition {d : Definition} (hd : d ∈ p.definitions) :
    (p.context .standard).get? d.name = some d.type := by
  refine Env.get?_insertAll_of_mem (b := (d.name, d.type)) ?_ (List.mem_map.mpr ⟨d, hd, rfl⟩) _
  rwa [List.map_map]

include hnames in
theorem Program.context_get?_builtin {b : Builtin} (hb : b ∈ Registry.standard) :
    (p.context .standard).get? b.name = some b.type := by
  have hfree : b.name ∉ (p.definitions.map fun d => (d.name, d.type)).map (·.1) := by
    rw [List.map_map]
    intro hmem
    obtain ⟨d, hd, hname⟩ := List.mem_map.mp hmem
    exact hnames d hd (List.mem_map.mpr ⟨b, hb, hname.symm⟩)
  rw [Program.context, Env.get?_insertAll_of_not_mem hfree]
  refine Env.get?_insertAll_of_mem (b := (b.name, b.type)) (by decide) ?_ _
  exact List.mem_map.mpr ⟨b, hb, rfl⟩

theorem Program.context_get?_eq_none {name : String} (hd : name ∉ p.definitions.map (·.name))
    (hb : name ∉ Registry.standard.map (·.name)) : (p.context .standard).get? name = none := by
  rw [Program.context, Env.get?_insertAll_of_not_mem (by rwa [List.map_map]), Registry.types,
    Env.get?_insertAll_of_not_mem (by rwa [List.map_map]), Env.get?_empty]

include hnames in
theorem Registry.table_standard_fits : ∃ table, Registry.standard.table = .ok table ∧
    Env.FitsTable (p.context .standard) table ∧
    ∀ name, (table.get? name).isSome ↔ name ∈ Registry.standard.map (·.name) := by
  obtain ⟨table, htable, hbound, _⟩ := Registry.table_standard
  have hiff : ∀ name, (table.get? name).isSome ↔ name ∈ Registry.standard.map (·.name) := by
    intro name
    constructor
    · intro hsome
      obtain ⟨v, hv⟩ := Option.isSome_iff_exists.mp hsome
      obtain ⟨b, hb, hname, _⟩ := Registry.exists_waiting htable hv
      exact List.mem_map.mpr ⟨b, hb, hname⟩
    · intro hname
      obtain ⟨b, hb, rfl⟩ := List.mem_map.mp hname
      obtain ⟨v, hv, _⟩ := hbound b hb
      rw [hv]
      rfl
  refine ⟨table, htable, fun name v hv => ?_, hiff⟩
  obtain ⟨b, hb, rfl, hwaiting⟩ := Registry.exists_waiting htable hv
  exact ⟨b.type, p.context_get?_builtin hnames hb, .builtin hb hwaiting fun _ _ _ h => by cases h⟩

end

/-- Every name of the context has a value in the table, but for the names of some definitions. -/
def Env.CoversBut (ds : List Definition) (ctx : Env Ty) (table : Env Value) : Prop :=
  ∀ name, (ctx.get? name).isSome → name ∉ ds.map (·.name) → (table.get? name).isSome

theorem Env.CoversBut.insert {d : Definition} {ds : List Definition} {ctx : Env Ty}
    {table : Env Value} (h : CoversBut (d :: ds) ctx table) (v : Value) :
    CoversBut ds ctx (table.insert d.name v) := by
  intro name hctx hname
  rw [get?_insert]
  by_cases heq : name = d.name
  · rw [if_pos heq]
    rfl
  · rw [if_neg heq]
    exact h name hctx (List.not_mem_cons_of_ne_of_not_mem heq hname)

/-- Well typed definitions are all evaluated and leave a table that fits and covers the context, or
the first of them that is not stops at the limit or at a definition that is not evaluated yet. -/
theorem Evaluator.define_sound {ctx : Env Ty} {limit : DepthLimit} {ds : List Definition}
    (hds : ∀ d ∈ ds, ctx.get? d.name = some d.type ∧ d.body.HasType ctx d.type)
    {table : Env Value} (htable : Env.FitsTable ctx table)
    (hcovers : Env.CoversBut ds ctx table) :
    (∃ table', (define .standard ⟨table, limit⟩ ds).result = .ok ⟨table', limit⟩ ∧
      Env.FitsTable ctx table' ∧ Env.CoversBut [] ctx table') ∨
    ∃ before d after fault, ds = before ++ d :: after ∧
      (define .standard ⟨table, limit⟩ ds).result = .error ⟨some d.name, fault⟩ ∧
      (fault = limit.exhausted ∨ ∃ needed ∈ d :: after, fault = .unbound needed.name) := by
  induction ds generalizing table with
  | nil => exact .inl ⟨table, rfl, htable, hcovers⟩
  | cons d ds ih =>
    obtain ⟨hname, hbody⟩ := hds d List.mem_cons_self
    have hsound := Term.eval_sound htable limit.exhausted limit.depth Env.Fits.empty hbody
    cases hrun : (Evaluator.evaluate ⟨table, limit⟩ .standard .empty d.body).result with
    | ok v =>
      have hv : v.HasType ctx d.type := hsound.of_ok hrun
      rw [define_cons_ok hrun]
      rcases ih (fun e he => hds e (List.mem_cons_of_mem d he)) (htable.insert hname hv)
          (hcovers.insert v) with h | ⟨before, e, after, fault, hsplit, herr, hfault⟩
      · exact .inl h
      · exact .inr ⟨d :: before, e, after, fault, by rw [hsplit]; rfl, herr, hfault⟩
    | error fault =>
      refine .inr ⟨[], d, ds, fault, rfl, define_cons_error hrun, ?_⟩
      rcases hsound.of_error hrun with hfault | ⟨name, hfault, hctx, hnone⟩
      · exact .inl hfault
      · refine .inr ?_
        -- the name is bound in the context but not in the table
        by_cases hmem : name ∈ (d :: ds).map (·.name)
        · obtain ⟨needed, hneeded, rfl⟩ := List.mem_map.mp hmem
          exact ⟨needed, hneeded, hfault⟩
        · have hsome := hcovers name hctx hmem
          rw [hnone] at hsome
          cases hsome

theorem Program.ofDefinitions_sound {p : Program} {t : Ty} (limit : DepthLimit)
    (hnodup : (p.definitions.map (·.name)).Nodup)
    (hnames : ∀ d ∈ p.definitions, d.name ∉ Registry.standard.map (·.name))
    (hp : p.HasType .standard t) :
    (∃ table, (Evaluator.ofDefinitions .standard limit p.definitions).result =
        .ok ⟨table, limit⟩ ∧
      Env.FitsTable (p.context .standard) table ∧
      Env.CoversBut [] (p.context .standard) table) ∨
    ∃ before d after fault, p.definitions = before ++ d :: after ∧
      (Evaluator.ofDefinitions .standard limit p.definitions).result =
        .error ⟨some d.name, fault⟩ ∧
      (fault = limit.exhausted ∨ ∃ needed ∈ d :: after, fault = .unbound needed.name) := by
  obtain ⟨table, htable, hfits, hbuiltins⟩ := Registry.table_standard_fits hnames
  have hcovers : Env.CoversBut p.definitions (p.context .standard) table := by
    intro name hctx hname
    rw [hbuiltins]
    by_cases hb : name ∈ Registry.standard.map (·.name)
    · exact hb
    · rw [p.context_get?_eq_none hname hb] at hctx
      cases hctx
  rw [Evaluator.ofDefinitions_of_table htable]
  exact Evaluator.define_sound
    (fun d hd => ⟨p.context_get?_definition hnodup hd, hp.definitions d hd⟩) hfits hcovers

theorem Term.evaluate_sound {ctx : Env Ty} {table : Env Value} {x : Term} {t : Ty}
    (limit : DepthLimit) (htable : Env.FitsTable ctx table) (hcovers : Env.CoversBut [] ctx table)
    (hx : x.HasType ctx t) :
    (∃ v, (Evaluator.evaluate ⟨table, limit⟩ .standard .empty x).result = .ok v ∧
      v.HasType ctx t) ∨
    (Evaluator.evaluate ⟨table, limit⟩ .standard .empty x).result = .error limit.exhausted := by
  have hsound := Term.eval_sound htable limit.exhausted limit.depth Env.Fits.empty hx
  cases hrun : (Evaluator.evaluate ⟨table, limit⟩ .standard .empty x).result with
  | ok v => exact .inl ⟨v, rfl, hsound.of_ok hrun⟩
  | error fault =>
    rcases hsound.of_error hrun with rfl | ⟨name, _, hctx, hnone⟩
    · exact .inr rfl
    · have hsome := hcovers name hctx (by simp)
      rw [hnone] at hsome
      cases hsome

theorem Program.evaluate_of_error {registry : Registry} {limit : DepthLimit} {p : Program}
    {e : EvalError}
    (h : (Evaluator.ofDefinitions registry limit p.definitions).result = .error e) :
    (p.evaluate registry limit).result = .error e := by
  rw [Program.evaluate, h]

theorem Program.evaluate_of_ok {registry : Registry} {limit : DepthLimit} {p : Program}
    {evaluator : Evaluator}
    (h : (Evaluator.ofDefinitions registry limit p.definitions).result = .ok evaluator) :
    (p.evaluate registry limit).result =
      (evaluator.evaluate registry .empty p.main).result.mapError (⟨none, ·⟩) := by
  rw [Program.evaluate, h]

theorem Program.hasType_of_evaluate {p : Program} {t : Ty} {limit : DepthLimit}
    (hnodup : (p.definitions.map (·.name)).Nodup)
    (hnames : ∀ d ∈ p.definitions, d.name ∉ Registry.standard.map (·.name))
    (hp : p.HasType .standard t) {v : Value}
    (h : (p.evaluate .standard limit).result = .ok v) : v.HasType (p.context .standard) t := by
  rcases Program.ofDefinitions_sound limit hnodup hnames hp with
    ⟨table, hdefs, hfits, hcovers⟩ | ⟨_, _, _, _, _, hdefs, _⟩
  · rw [Program.evaluate_of_ok hdefs] at h
    rcases Term.evaluate_sound limit hfits hcovers hp.main with ⟨w, hrun, hw⟩ | hrun
    · rw [hrun] at h
      obtain rfl := Except.ok.inj h
      exact hw
    · rw [hrun] at h
      cases h
  · rw [Program.evaluate_of_error hdefs] at h
    cases h

/-- **Type soundness.** A program of distinct definitions that hide no built-in and that inference
accepts without a mismatch evaluates to a value of its type, or uses up the limit, or has a
definition that needs one which is not evaluated yet. Once the definitions are evaluated, only the
limit can stop the main term. -/
theorem Program.evaluate_hasType {p : Program} {t : Ty} (limit : DepthLimit)
    (hnodup : (p.definitions.map (·.name)).Nodup)
    (hnames : ∀ d ∈ p.definitions, d.name ∉ Registry.standard.map (·.name))
    (hinfer : p.infer .standard = ⟨[], .ok t⟩) :
    (∀ v, (p.evaluate .standard limit).result = .ok v → v.HasType (p.context .standard) t) ∧
    (∀ e, (p.evaluate .standard limit).result = .error e →
      e.fault = limit.exhausted ∨
      ∃ before d after, p.definitions = before ++ d :: after ∧
        ∃ needed ∈ d :: after, e = ⟨some d.name, .unbound needed.name⟩) ∧
    ∀ evaluator,
      (Evaluator.ofDefinitions .standard limit p.definitions).result = .ok evaluator →
      ∀ fault, (evaluator.evaluate .standard .empty p.main).result = .error fault →
        fault = limit.exhausted := by
  have hp := Program.hasType_of_infer hinfer
  refine ⟨fun v => Program.hasType_of_evaluate hnodup hnames hp, ?_⟩
  rcases Program.ofDefinitions_sound limit hnodup hnames hp with
    ⟨table, hdefs, hfits, hcovers⟩ | ⟨before, d, after, fault, hsplit, hdefs, hfault⟩
  · have hmain : ∀ fault, (Evaluator.evaluate ⟨table, limit⟩ .standard .empty p.main).result =
        .error fault → fault = limit.exhausted := by
      intro fault hfault
      rcases Term.evaluate_sound limit hfits hcovers hp.main with ⟨v, hrun, _⟩ | hrun
      · rw [hrun] at hfault
        cases hfault
      · rw [hrun] at hfault
        exact (Except.error.inj hfault).symm
    refine ⟨fun e he => .inl ?_, fun evaluator hev => ?_⟩
    · rw [Program.evaluate_of_ok hdefs] at he
      cases hrun : (Evaluator.evaluate ⟨table, limit⟩ .standard .empty p.main).result with
      | ok v => rw [hrun] at he; cases he
      | error fault =>
        rw [hrun] at he
        obtain rfl := Except.error.inj he
        exact hmain fault hrun
    · rw [hdefs] at hev
      obtain rfl := Except.ok.inj hev
      exact hmain
  · rw [Program.evaluate_of_error hdefs, hdefs]
    refine ⟨fun e he => ?_, fun evaluator hev => (by cases hev)⟩
    obtain rfl := Except.error.inj he
    rcases hfault with rfl | ⟨needed, hneeded, rfl⟩
    · exact .inl rfl
    · exact .inr ⟨before, d, after, hsplit, needed, hneeded, rfl⟩

/-- A recursive factorial, and the question whether its value at five is above a number that is
still to come. -/
def Program.aboveFactorial : Program where
  definitions :=
    [⟨"fact", .fn .int .int, .lam "n" .int
      (.ite (.app (.app (.var "greater_than") (.var "n")) (.lit (.int 1)))
        (.bin .mul (.var "n") (.app (.var "fact") (.bin .sub (.var "n") (.lit (.int 1)))))
        (.lit (.int 1)))⟩]
  main := .app (.var "greater_than") (.app (.var "fact") (.lit (.int 5)))

theorem Program.evaluate_aboveFactorial :
    aboveFactorial.infer .standard = ⟨[], .ok (.fn .int .bool)⟩ ∧
    ∀ v, (aboveFactorial.evaluate .standard (.levels 100)).result = .ok v →
      v.HasType (aboveFactorial.context .standard) (.fn .int .bool) :=
  ⟨rfl, (Program.evaluate_hasType (.levels 100) (by decide) (by decide) rfl).1⟩

end TypedLambda
