import TypedLambda.Proofs.Eval.Soundness

/-!
# Scoping

A program whose names inference knows has no unknown names when it runs, whatever mismatches
inference records. `Value.Scoped ctx v` says that every free name of a closure is captured by it or
is a name of the context `ctx`. Evaluation gives scoped values and can only miss a name of the
context that has no value in the table yet (`Term.eval_scoped`). The table gains the names of the
definitions one by one, so that the missing name is that of a definition still to come
(`Program.unbound_of_infer`).
-/

namespace TypedLambda

/-! ## Inference knows the free names -/

theorem Checked.bind_result_eq_ok {ε α β : Type} {x : Checked ε α} {f : α → Checked ε β} {b : β}
    (h : (x >>= f).result = .ok b) : ∃ a, x.result = .ok a ∧ (f a).result = .ok b := by
  obtain ⟨ms, r⟩ := x
  cases r with
  | error e => cases h
  | ok a => exact ⟨a, rfl, h⟩

theorem Checked.mapError_result_eq_ok {ε ε' α : Type} {f : ε → ε'} {x : Checked ε α} {a : α}
    (h : (x.mapError f).result = .ok a) : x.result = .ok a := by
  obtain ⟨ms, r⟩ := x
  cases r with
  | error e => cases h
  | ok b => rw [show b = a from Except.ok.inj h]

theorem Env.isSome_get?_of_insert {α : Type} {ctx : Env α} {name : String} {a : α}
    {names : List String} (h : ∀ x ∈ names, ((ctx.insert name a).get? x).isSome) :
    ∀ x ∈ names.filter (· ≠ name), (ctx.get? x).isSome := by
  intro x hx
  obtain ⟨hmem, hne⟩ := List.mem_filter.mp hx
  have hsome := h x hmem
  rwa [get?_insert_of_ne (by simpa using hne)] at hsome

theorem Term.isSome_get?_of_infer {ctx : Env Ty} {x : Term} {t : Ty}
    (h : (x.infer ctx).result = .ok t) : ∀ name ∈ x.freeVars, (ctx.get? name).isSome := by
  induction x generalizing ctx t with
  | app func arg ihFunc ihArg =>
    obtain ⟨_, hfunc, h⟩ := Checked.bind_result_eq_ok h
    obtain ⟨_, harg, _⟩ := Checked.bind_result_eq_ok h
    exact List.forall_mem_append.mpr ⟨ihFunc hfunc, ihArg harg⟩
  | lam param type body ih =>
    obtain ⟨_, hbody, _⟩ := Checked.bind_result_eq_ok h
    exact Env.isSome_get?_of_insert (ih hbody)
  | lit value => nofun
  | var name =>
    intro other hother
    obtain rfl := List.mem_singleton.mp hother
    rw [Term.infer] at h
    cases hget : ctx.get? other with
    | none => rw [hget] at h; cases h
    | some s => rfl
  | bin op left right ihLeft ihRight =>
    rw [Term.infer] at h
    cases hsig : op.signature? with
    | none => rw [hsig] at h; cases h
    | some sig =>
      rw [hsig] at h
      obtain ⟨_, hleft, h⟩ := Checked.bind_result_eq_ok h
      obtain ⟨_, hright, _⟩ := Checked.bind_result_eq_ok h
      exact List.forall_mem_append.mpr ⟨ihLeft hleft, ihRight hright⟩
  | ite cond yes no ihCond ihYes ihNo =>
    obtain ⟨_, hcond, h⟩ := Checked.bind_result_eq_ok h
    obtain ⟨_, _, h⟩ := Checked.bind_result_eq_ok h
    obtain ⟨_, hyes, h⟩ := Checked.bind_result_eq_ok h
    obtain ⟨_, hno, _⟩ := Checked.bind_result_eq_ok h
    exact List.forall_mem_append.mpr
      ⟨ihCond hcond, List.forall_mem_append.mpr ⟨ihYes hyes, ihNo hno⟩⟩
  | letIn name bound body ihBound ihBody =>
    obtain ⟨_, hbound, hbody⟩ := Checked.bind_result_eq_ok h
    exact List.forall_mem_append.mpr
      ⟨ihBound hbound, Env.isSome_get?_of_insert (ihBody hbody)⟩
  | builtin name => cases h

theorem Definition.infer_of_checkAll {ctx : Env Ty} {ds : List Definition} {u : Unit}
    (h : (Definition.checkAll ctx ds).result = .ok u) :
    ∀ d ∈ ds, ∃ t, (d.body.infer ctx).result = .ok t := by
  induction ds generalizing u with
  | nil => nofun
  | cons d ds ih =>
    obtain ⟨_, hd, hds⟩ := Checked.bind_result_eq_ok h
    obtain ⟨t, hbody, _⟩ := Checked.bind_result_eq_ok hd
    exact List.forall_mem_cons.mpr ⟨⟨t, Checked.mapError_result_eq_ok hbody⟩, ih hds⟩

theorem Program.mem_of_isSome_context {p : Program} {name : String}
    (h : ((p.context .standard).get? name).isSome) :
    name ∈ p.definitions.map (·.name) ∨ name ∈ Registry.standard.map (·.name) := by
  by_cases hd : name ∈ p.definitions.map (·.name)
  · exact .inl hd
  · by_cases hb : name ∈ Registry.standard.map (·.name)
    · exact .inr hb
    · rw [p.context_get?_eq_none hd hb] at h
      cases h

/-! ## Operators and calls

Their results hold no closures, and none of their faults is about a name. -/

/-- The result is no closure, or the fault is not about an unbound name. -/
def Fault.NameFree : Except Fault Value → Prop
  | .ok v => v.kind ≠ .closure
  | .error fault => ∀ name, fault ≠ .unbound name

theorem Operator.apply_nameFree (op : Operator) (l r : Value) :
    Fault.NameFree (op.apply l r) := by
  cases op <;> simp only [apply, apply.onInts, apply.onBools] <;> (try split) <;> nofun

theorem Builtin.arguments_error {name : String} {env : Env Value} {params : List String}
    {types : List Ty} {fault : Fault} (h : arguments name env params types = .error fault) :
    ∀ other, fault ≠ .unbound other := by
  induction params generalizing types with
  | nil => cases h
  | cons param params ih =>
    rw [arguments] at h
    split at h
    · cases h
      rintro _ ⟨⟩
    · split at h
      · cases h
        rintro _ ⟨⟩
      · split at h
        · next ts _ =>
          cases hrest : arguments name env params ts with
          | error e =>
            rw [hrest] at h
            cases h
            exact ih hrest
          | ok args => rw [hrest] at h; cases h
        · cases h
          rintro _ ⟨⟩

theorem Intrinsic.kind_of_run? {intrinsic : Intrinsic} {args : List Value} {v : Value}
    (h : intrinsic.run? args = some v) : v.kind ≠ .closure := by
  unfold run? at h
  split at h
  · cases h
    nofun
  · cases h
    nofun
  · cases h

theorem Registry.call_nameFree (registry : Registry) (env : Env Value) (name : String) :
    Fault.NameFree (registry.call env name) := by
  unfold Registry.call
  split
  · nofun
  · split
    · nofun
    · split
      · nofun
      · split
        · next hargs => exact Builtin.arguments_error hargs
        · split
          · next hrun => exact Intrinsic.kind_of_run? hrun
          · nofun

/-! ## Scoped values -/

/-- Every free name of a closure is captured, is its parameter or is a name of the context, and so
on for what it captured. -/
inductive Value.Scoped (ctx : Env Ty) : Value → Prop
  | int {n : Int64} : Scoped ctx (.int n)
  | bool {b : Bool} : Scoped ctx (.bool b)
  | text {bytes : List UInt8} : Scoped ctx (.text bytes)
  | closure {env : Env Value} {param : String} {body : Term}
      (free : ∀ name ∈ body.freeVars.filter (· ≠ param),
        (env.get? name).isSome ∨ (ctx.get? name).isSome)
      (captured : ∀ name v, env.get? name = some v → Scoped ctx v) :
      Scoped ctx (.closure env param body)

theorem Value.Scoped.of_kind {ctx : Env Ty} {v : Value} (h : v.kind ≠ .closure) :
    v.Scoped ctx := by
  cases v with
  | int n => exact .int
  | bool b => exact .bool
  | text bytes => exact .text
  | closure env param body => exact absurd rfl h

namespace Env

variable {ctx : Env Ty} {env : Env Value}

def Scoped (env : Env Value) (ctx : Env Ty) : Prop :=
  ∀ name v, env.get? name = some v → v.Scoped ctx

/-- Each of some names is bound locally or is a name of the context. -/
def Knows (ctx : Env Ty) (env : Env Value) (names : List String) : Prop :=
  ∀ name ∈ names, (env.get? name).isSome ∨ (ctx.get? name).isSome

theorem Scoped.empty : (empty : Env Value).Scoped ctx := by
  intro name v h
  rw [get?_empty] at h
  cases h

theorem Scoped.insert (h : env.Scoped ctx) (name : String) {v : Value} (hv : v.Scoped ctx) :
    (env.insert name v).Scoped ctx := by
  intro other w hw
  rw [get?_insert] at hw
  split at hw
  · obtain rfl := Option.some.inj hw
    exact hv
  · exact h other w hw

theorem Knows.insert {names : List String} {param : String} (v : Value)
    (h : Knows ctx env (names.filter (· ≠ param))) : Knows ctx (env.insert param v) names := by
  intro name hname
  rw [get?_insert]
  by_cases heq : name = param
  · exact .inl (by rw [if_pos heq]; rfl)
  · rw [if_neg heq]
    exact h name (List.mem_filter.mpr ⟨hname, by simpa using heq⟩)

end Env

/-! ## Terms -/

/-- If the fault is an unbound name, then that is a name of the context without a value in the
table. -/
def Fault.Awaits (ctx : Env Ty) (table : Env Value) (fault : Fault) : Prop :=
  ∀ name, fault = .unbound name → (ctx.get? name).isSome ∧ table.get? name = none

theorem Fault.Awaits.of_ne {ctx : Env Ty} {table : Env Value} {fault : Fault}
    (h : ∀ name, fault ≠ .unbound name) : fault.Awaits ctx table :=
  fun name heq => absurd heq (h name)

theorem Traced.ofExcept_scoped {ctx : Env Ty} {table : Env Value} {r : Except Fault Value}
    (h : Fault.NameFree r) :
    (Traced.ofExcept r).Ensures (·.Scoped ctx) (Fault.Awaits ctx table) := by
  cases r with
  | ok v => exact .ofExcept_ok rfl (.of_kind h)
  | error fault => exact .ofExcept_error rfl (.of_ne h)

theorem Globals.lookup_scoped {ctx : Env Ty} {globals : Globals} {env : Env Value} {name : String}
    (htable : globals.topLevel.Scoped ctx) (henv : env.Scoped ctx)
    (hname : (env.get? name).isSome ∨ (ctx.get? name).isSome) :
    (Traced.ofExcept (globals.lookup env name)).Ensures (·.Scoped ctx)
      (Fault.Awaits ctx globals.topLevel) := by
  refine lookup_ensures (henv name) (fun v _ => htable name v) fun hlocal htop => ?_
  rintro other ⟨⟩
  rw [hlocal] at hname
  exact ⟨hname.resolve_left Bool.false_ne_true, htop⟩

/-- A term whose free names are known, evaluated with any number of levels, has a scoped value or a
fault. If the fault is an unbound name, then the context has that name and the table does not. -/
theorem Term.eval_scoped {ctx : Env Ty} {globals : Globals} {exhausted : Fault}
    (htable : globals.topLevel.Scoped ctx) (hexhausted : ∀ name, exhausted ≠ .unbound name)
    (n : Nat) {env : Env Value} {x : Term} (henv : env.Scoped ctx)
    (hx : Env.Knows ctx env x.freeVars) :
    (x.eval globals exhausted n env).Ensures (·.Scoped ctx)
      (Fault.Awaits ctx globals.topLevel) := by
  induction n generalizing env x with
  | zero => exact eval_zero_ensures (.of_ne hexhausted)
  | succ n ih =>
    apply eval_succ_ensures
    cases x with
    | app func arg =>
      obtain ⟨hfunc, harg⟩ := List.forall_mem_append.mp hx
      refine .bind (ih henv hfunc) fun f hf => ?_
      cases hf with
      | closure free captured =>
        refine .bind (ih henv harg) fun a ha => ?_
        exact ih (Env.Scoped.insert captured _ ha) (Env.Knows.insert a free)
      | int | bool | text => exact .fail (.of_ne nofun)
    | lam param type body => exact .pure (.closure hx henv)
    | lit value => cases value <;> exact .pure (.of_kind nofun)
    | var name => exact globals.lookup_scoped htable henv (hx name List.mem_cons_self)
    | bin op left right =>
      obtain ⟨hleft, hright⟩ := List.forall_mem_append.mp hx
      refine .bind (ih henv hleft) fun l _ => .bind (ih henv hright) fun r _ => ?_
      exact Traced.ofExcept_scoped (op.apply_nameFree l r)
    | ite cond yes no =>
      obtain ⟨hcond, hbranches⟩ := List.forall_mem_append.mp hx
      obtain ⟨hyes, hno⟩ := List.forall_mem_append.mp hbranches
      refine .bind (ih henv hcond) fun c _ => ?_
      split
      · exact ih henv hyes
      · exact ih henv hno
      · exact .fail (.of_ne nofun)
    | letIn name bound body =>
      obtain ⟨hbound, hbody⟩ := List.forall_mem_append.mp hx
      refine .bind (ih henv hbound) fun b hb => ?_
      exact ih (henv.insert name hb) (Env.Knows.insert b hbody)
    | builtin name => exact Traced.ofExcept_scoped (globals.registry.call_nameFree env name)

/-! ## Programs -/

theorem DepthLimit.exhausted_ne_unbound (limit : DepthLimit) (name : String) :
    limit.exhausted ≠ .unbound name := by
  cases limit <;> nofun

theorem Evaluator.evaluate_scoped {ctx : Env Ty} {e : Evaluator} {registry : Registry} {x : Term}
    (htable : e.topLevel.Scoped ctx) (hx : ∀ name ∈ x.freeVars, (ctx.get? name).isSome) :
    (∀ v, (e.evaluate registry .empty x).result = .ok v → v.Scoped ctx) ∧
    ∀ name, (e.evaluate registry .empty x).result = .error (.unbound name) →
      (ctx.get? name).isSome ∧ e.topLevel.get? name = none := by
  have hscoped : (x.eval ⟨registry, e.topLevel⟩ e.limit.exhausted e.limit.depth .empty).Ensures
      (·.Scoped ctx) (Fault.Awaits ctx e.topLevel) :=
    Term.eval_scoped htable e.limit.exhausted_ne_unbound e.limit.depth Env.Scoped.empty
      fun name hname => .inr (hx name hname)
  exact ⟨fun v hv => hscoped.of_ok hv, fun name hname => hscoped.of_error hname name rfl⟩

theorem Evaluator.define_scoped {ctx : Env Ty} {e e' : Evaluator} {registry : Registry}
    {ds : List Definition} (h : (define registry e ds).result = .ok e')
    (hds : ∀ d ∈ ds, ∀ name ∈ d.body.freeVars, (ctx.get? name).isSome)
    (htable : e.topLevel.Scoped ctx) : e'.topLevel.Scoped ctx := by
  refine define_keeps (P := fun e => e.topLevel.Scoped ctx) h htable ?_
  intro d hd e v he hv
  exact he.insert d.name ((evaluate_scoped he (hds d hd)).1 v hv)

theorem Builtin.Waiting.scoped {ctx : Env Ty} {b : Builtin} {v : Value} {t : Ty}
    (h : b.Waiting [] v t) : v.Scoped ctx := by
  have hfree : ∀ rest, (b.awaiting rest).freeVars = [] := by
    intro rest
    induction rest with
    | nil => rfl
    | cons p rest ih =>
      show (b.awaiting rest).freeVars.filter _ = []
      rw [ih]
      rfl
  cases h with
  | mk split =>
    have henv : b.argumentEnv [] = .empty := by
      rw [Builtin.argumentEnv, List.zip_nil_right]
      rfl
    rw [henv]
    refine .closure ?_ Env.Scoped.empty
    rw [hfree]
    rintro _ ⟨⟩

theorem Registry.table_standard_scoped (ctx : Env Ty) : ∃ table,
    Registry.standard.table = .ok table ∧ table.Scoped ctx ∧
    ∀ name ∈ Registry.standard.map (·.name), (table.get? name).isSome := by
  obtain ⟨table, htable, hbound, _⟩ := Registry.table_standard
  refine ⟨table, htable, fun name v hv => ?_, fun name hname => ?_⟩
  · obtain ⟨b, _, _, hwaiting⟩ := Registry.exists_waiting htable hv
    exact hwaiting.scoped
  · obtain ⟨b, hb, rfl⟩ := List.mem_map.mp hname
    obtain ⟨v, hv, _⟩ := hbound b hb
    rw [hv]
    rfl

/-- **Scope safety.** Let inference find a type for a program, whatever mismatches it records. If a
definition stops at an unbound name, then that is the name of this definition or of a later one, and
neither of an earlier one nor of a built-in. Once the definitions are evaluated, the main term meets
no unbound name. -/
theorem Program.unbound_of_infer {p : Program} {t : Ty} (limit : DepthLimit)
    (hinfer : (p.infer .standard).result = .ok t) :
    (∀ place name, (Evaluator.ofDefinitions .standard limit p.definitions).result =
        .error ⟨place, .unbound name⟩ →
      ∃ before d after, p.definitions = before ++ d :: after ∧ place = some d.name ∧
        (∃ e, (Evaluator.ofDefinitions .standard limit before).result = .ok e ∧
          (e.evaluate .standard .empty d.body).result = .error (.unbound name)) ∧
        name ∈ (d :: after).map (·.name) ∧ name ∉ before.map (·.name) ∧
        name ∉ Registry.standard.map (·.name)) ∧
    ∀ e, (Evaluator.ofDefinitions .standard limit p.definitions).result = .ok e →
      ∀ name, (e.evaluate .standard .empty p.main).result ≠ .error (.unbound name) := by
  obtain ⟨_, hchecked, hmain⟩ := Checked.bind_result_eq_ok hinfer
  have hdefs : ∀ d ∈ p.definitions, ∀ name ∈ d.body.freeVars,
      ((p.context .standard).get? name).isSome := by
    intro d hd
    obtain ⟨s, hs⟩ := Definition.infer_of_checkAll hchecked d hd
    exact Term.isSome_get?_of_infer hs
  have hmain := Term.isSome_get?_of_infer (Checked.mapError_result_eq_ok hmain)
  obtain ⟨table, htable, hscoped, hbuiltins⟩ :=
    Registry.table_standard_scoped (p.context .standard)
  have hof : ∀ ds, Evaluator.ofDefinitions .standard limit ds =
      Evaluator.define .standard ⟨table, limit⟩ ds := by
    intro ds
    rw [Evaluator.ofDefinitions, htable]
  simp only [hof]
  refine ⟨fun place name herror => ?_, fun e he name hname => ?_⟩
  · obtain ⟨before, d, after, e, hsplit, hbefore, hfault, hplace⟩ :=
      Evaluator.define_eq_error herror
    have hmem : ∀ d' ∈ before, d' ∈ p.definitions := fun d' hd' =>
      hsplit ▸ List.mem_append_left _ hd'
    have hd : d ∈ p.definitions := hsplit ▸ List.mem_append_right _ List.mem_cons_self
    have he := Evaluator.define_scoped hbefore (fun d' hd' => hdefs d' (hmem d' hd')) hscoped
    obtain ⟨hctx, hnone⟩ := (Evaluator.evaluate_scoped he (hdefs d hd)).2 name hfault
    have hearlier : name ∉ before.map (·.name) := by
      intro hname
      have hsome := Evaluator.isSome_get?_define_of_mem hbefore hname
      rw [hnone] at hsome
      cases hsome
    have hbuiltin : name ∉ Registry.standard.map (·.name) := by
      intro hname
      have hsome := Evaluator.isSome_get?_define hbefore (hbuiltins name hname)
      rw [hnone] at hsome
      cases hsome
    have hdefined := (Program.mem_of_isSome_context hctx).resolve_right hbuiltin
    rw [hsplit, List.map_append, List.mem_append] at hdefined
    exact ⟨before, d, after, hsplit, hplace, ⟨e, hbefore, hfault⟩,
      hdefined.resolve_left hearlier, hearlier, hbuiltin⟩
  · have hscoped := Evaluator.define_scoped he hdefs hscoped
    obtain ⟨hctx, hnone⟩ := (Evaluator.evaluate_scoped hscoped hmain).2 name hname
    have hsome : (e.topLevel.get? name).isSome := by
      rcases Program.mem_of_isSome_context hctx with hdefined | hbuiltin
      · exact Evaluator.isSome_get?_define_of_mem he hdefined
      · exact Evaluator.isSome_get?_define he (hbuiltins name hbuiltin)
    rw [hnone] at hsome
    cases hsome

/-- A flag that is no number, a function that calls a later one, and a call of it between the
two. -/
def Program.callTooEarly : Program where
  definitions :=
    [⟨"flag", .int, .lit (.bool true)⟩,
     ⟨"twice", .fn .int .int, .lam "n" .int (.app (.var "double") (.var "n"))⟩,
     ⟨"six", .int, .app (.var "twice") (.lit (.int 3))⟩,
     ⟨"double", .fn .int .int, .lam "n" .int (.bin .add (.var "n") (.var "n"))⟩]
  main := .bin .add (.var "flag") (.var "six")

theorem Program.unbound_callTooEarly :
    (callTooEarly.infer .standard).result = .ok .int ∧
    (callTooEarly.infer .standard).mismatches = [⟨.definition "flag", .int, .bool⟩] ∧
    ∃ before d after, callTooEarly.definitions = before ++ d :: after ∧ some "six" = some d.name ∧
      (∃ e, (Evaluator.ofDefinitions .standard (.levels 100) before).result = .ok e ∧
        (e.evaluate .standard .empty d.body).result = .error (.unbound "double")) ∧
      "double" ∈ (d :: after).map (·.name) ∧ "double" ∉ before.map (·.name) ∧
      "double" ∉ Registry.standard.map (·.name) :=
  ⟨rfl, rfl, (Program.unbound_of_infer (p := callTooEarly) (.levels 100) rfl).1 _ _ rfl⟩

end TypedLambda
