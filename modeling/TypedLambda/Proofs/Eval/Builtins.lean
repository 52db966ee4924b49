import TypedLambda.Proofs.Eval.Ensures
import TypedLambda.Proofs.Typing.Judgment

/-!
# Built-in functions at work

A built-in takes its arguments one by one. `Builtin.Waiting b args v t` says that `v` is the closure
which the built-in `b` is after the arguments `args`, and that its declared type is then `t`. One
more argument gives the next such closure, or calls the built-in (`Builtin.Waiting.step`). A call of
a standard built-in whose arguments are of the declared kinds has a result of the declared kind
(`Builtin.call_standard`), and so has an operator (`Operator.HasSignature.apply`).
-/

namespace TypedLambda

/-! ## Kinds -/

namespace Value

theorem eq_int_of_kind {v : Value} (h : v.kind = .int) : ∃ n, v = .int n := by
  cases v <;> simp [kind] at h ⊢

theorem eq_bool_of_kind {v : Value} (h : v.kind = .bool) : ∃ b, v = .bool b := by
  cases v <;> simp [kind] at h ⊢

theorem eq_text_of_kind {v : Value} (h : v.kind = .text) : ∃ bytes, v = .text bytes := by
  cases v <;> simp [kind] at h ⊢

end Value

theorem Operator.HasSignature.apply {op : Operator} {operand result : Ty}
    (h : op.HasSignature operand result) {l r : Value} (hl : l.kind = operand.kind)
    (hr : r.kind = operand.kind) : ∃ v, op.apply l r = .ok v ∧ v.kind = result.kind := by
  cases h with
  | add | sub | mul | eq =>
    obtain ⟨m, rfl⟩ := Value.eq_int_of_kind hl
    obtain ⟨n, rfl⟩ := Value.eq_int_of_kind hr
    exact ⟨_, rfl, rfl⟩
  | or | and =>
    obtain ⟨a, rfl⟩ := Value.eq_bool_of_kind hl
    obtain ⟨b, rfl⟩ := Value.eq_bool_of_kind hr
    exact ⟨_, rfl, rfl⟩
  | concat =>
    obtain ⟨s, rfl⟩ := Value.eq_text_of_kind hl
    obtain ⟨t, rfl⟩ := Value.eq_text_of_kind hr
    exact ⟨_, rfl, rfl⟩

theorem Operator.HasSignature.isFn_result {op : Operator} {operand result : Ty}
    (h : op.HasSignature operand result) : result.isFn = false := by
  cases h <;> rfl

namespace Builtin

/-! ## Partial application -/

def parameters (b : Builtin) : List (String × Ty) := b.argumentNames.zip b.params

/-- The environment in which the first parameters are bound to the given arguments. -/
def argumentEnv (b : Builtin) (args : List Value) : Env Value :=
  Env.empty.insertAll ((b.parameters.map (·.1)).zip args)

/-- The functions of the remaining parameters, around the marker of the built-in. -/
def awaiting (b : Builtin) (rest : List (String × Ty)) : Term :=
  rest.foldr (fun p body => .lam p.1 p.2 body) (.builtin b.name)

/-- The closure that a built-in is after some but not all of its arguments, and its type. -/
inductive Waiting (b : Builtin) (args : List Value) : Value → Ty → Prop
  | mk {param : String} {type : Ty} {rest : List (String × Ty)}
      (split : b.parameters.drop args.length = (param, type) :: rest) :
      Waiting b args (.closure (b.argumentEnv args) param (b.awaiting rest))
        (.fn type (.curried (rest.map (·.2)) b.result))

theorem argumentEnv_concat {b : Builtin} {args : List Value} {param : String} {type : Ty}
    {rest : List (String × Ty)} (split : b.parameters.drop args.length = (param, type) :: rest)
    (v : Value) : b.argumentEnv (args ++ [v]) = (b.argumentEnv args).insert param v := by
  have hlen : (b.parameters.take args.length).length = args.length := by
    have hdrop := congrArg List.length split
    simp only [List.length_drop, List.length_cons] at hdrop
    rw [List.length_take]
    omega
  have hnames : b.parameters.map (·.1) =
      (b.parameters.take args.length).map (·.1) ++ param :: rest.map (·.1) := by
    conv => lhs; rw [← List.take_append_drop args.length b.parameters, split]
    rw [List.map_append, List.map_cons]
  have hzip : ∀ extra : List Value, (b.parameters.map (·.1)).zip (args ++ extra) =
      ((b.parameters.take args.length).map (·.1)).zip args ++
        (param :: rest.map (·.1)).zip extra := by
    intro extra
    rw [hnames, List.zip_append (by rw [List.length_map, hlen])]
  have hargs := hzip []
  rw [List.append_nil] at hargs
  rw [argumentEnv, argumentEnv, hzip, hargs, Env.insertAll_append]
  simp

theorem Waiting.parameter {b : Builtin} {args : List Value} {env : Env Value} {param : String}
    {body : Term} {a r : Ty} (h : b.Waiting args (.closure env param body) (.fn a r)) :
    b.parameters[args.length]? = some (param, a) := by
  cases h with
  | mk split =>
    have hget : (b.parameters.drop args.length)[0]? = b.parameters[args.length + 0]? :=
      List.getElem?_drop
    rw [split] at hget
    exact hget.symm

theorem forall_concat {params : List (String × Ty)} {args : List Value} {v : Value}
    {P : Value → String × Ty → Prop}
    (hargs : ∀ (i : Nat) w p, args[i]? = some w → params[i]? = some p → P w p)
    (hlast : ∀ p, params[args.length]? = some p → P v p) :
    ∀ (i : Nat) w p, (args ++ [v])[i]? = some w → params[i]? = some p → P w p := by
  intro i w p hw hp
  rcases Nat.lt_trichotomy i args.length with hi | hi | hi
  · rw [List.getElem?_append_left hi] at hw
    exact hargs i w p hw hp
  · subst hi
    rw [List.getElem?_concat_length, Option.some.injEq] at hw
    subst hw
    exact hlast p hp
  · rw [List.getElem?_eq_none (by simp; omega)] at hw
    cases hw

/-- One more argument: either the built-in waits for the next, or all its parameters are bound and
it is called. -/
theorem Waiting.step {b : Builtin} {args : List Value} {env : Env Value} {param : String}
    {body : Term} {a r : Ty} (h : b.Waiting args (.closure env param body) (.fn a r)) (v : Value) :
    (∃ w, b.Waiting (args ++ [v]) w r ∧
      ∀ globals eval, body.step globals eval (env.insert param v) = pure w) ∨
    ((args ++ [v]).length = b.parameters.length ∧ r = b.result ∧
      ∀ globals eval, body.step globals eval (env.insert param v) =
        Traced.ofExcept (globals.registry.call (b.argumentEnv (args ++ [v])) b.name)) := by
  cases h with
  | @mk _ _ rest split =>
    have henv := argumentEnv_concat split v
    have hdrop : b.parameters.drop (args ++ [v]).length = rest := by
      rw [List.length_append, List.length_singleton, ← List.drop_drop, split]
      rfl
    cases rest with
    | nil =>
      right
      refine ⟨?_, rfl, fun globals eval => ?_⟩
      · have hlen := congrArg List.length split
        simp only [List.length_drop, List.length_cons, List.length_nil] at hlen
        rw [List.length_append, List.length_singleton]
        omega
      · rw [henv]
        rfl
    | cons p rest =>
      left
      refine ⟨_, .mk hdrop, fun globals eval => ?_⟩
      rw [henv]
      rfl

/-! ## Calls -/

theorem arguments_eq_ok {name : String} {env : Env Value} {params : List (String × Ty)}
    {args : List Value} (hlen : args.length = params.length)
    (hget : ∀ (i : Nat) (v : Value) (p : String × Ty), args[i]? = some v → params[i]? = some p →
      env.get? p.1 = some v ∧ v.kind = p.2.kind) :
    arguments name env (params.map (·.1)) (params.map (·.2)) = .ok args := by
  induction params generalizing args with
  | nil => rw [List.length_eq_zero_iff.mp hlen]; rfl
  | cons p params ih =>
    match args, hlen with
    | v :: args, hlen =>
      obtain ⟨hv, hk⟩ := hget 0 v p rfl rfl
      have hrest := ih (Nat.succ.inj hlen) fun i w q hw hq => hget (i + 1) w q hw hq
      rw [List.map_cons, List.map_cons, arguments, hv]
      simp only [hk, hrest, if_true]
      rfl

theorem get?_argumentEnv {b : Builtin} (hnodup : (b.parameters.map (·.1)).Nodup)
    {args : List Value} (hlen : args.length = b.parameters.length) {i : Nat} {v : Value}
    {p : String × Ty} (hv : args[i]? = some v) (hp : b.parameters[i]? = some p) :
    (b.argumentEnv args).get? p.1 = some v := by
  have hzip : (p.1, v) ∈ (b.parameters.map (·.1)).zip args := by
    refine List.mem_of_getElem? (i := i) ?_
    rw [List.getElem?_zip_eq_some, List.getElem?_map, hp]
    exact ⟨rfl, hv⟩
  refine Env.get?_insertAll_of_mem (b := (p.1, v)) ?_ hzip Env.empty
  rwa [List.map_fst_zip (Nat.le_of_eq (by rw [List.length_map, hlen]))]

theorem call_eq_ok {registry : Registry} {b : Builtin} {env : Env Value} {intrinsic : Intrinsic}
    {args : List Value} {w : Value} (hfind : registry.find? b.name = some b)
    (hintrinsic : Intrinsic.ofName? b.name = some intrinsic) (harity : ¬ b.arity < 0)
    (hargs : arguments b.name env b.argumentNames b.params = .ok args)
    (hrun : intrinsic.run? args = some w) : registry.call env b.name = .ok w := by
  rw [Registry.call, hfind]
  simp only [hintrinsic, harity, if_false, hargs, hrun]

theorem call_standard {b : Builtin} (hb : b ∈ Registry.standard) {args : List Value}
    (hlen : args.length = b.parameters.length)
    (hkind : ∀ (i : Nat) (v : Value) (p : String × Ty), args[i]? = some v →
      b.parameters[i]? = some p → v.kind = p.2.kind) :
    b.result.isFn = false ∧
      ∃ w, Registry.standard.call (b.argumentEnv args) b.name = .ok w ∧ w.kind = b.result.kind := by
  have hargs : ∀ hnodup : (b.parameters.map (·.1)).Nodup, arguments b.name (b.argumentEnv args)
      (b.parameters.map (·.1)) (b.parameters.map (·.2)) = .ok args := fun hnodup =>
    arguments_eq_ok hlen fun i v p hv hp => ⟨get?_argumentEnv hnodup hlen hv hp, hkind i v p hv hp⟩
  simp only [Registry.standard, List.mem_cons, List.not_mem_nil, or_false] at hb
  rcases hb with rfl | rfl
  · match args, hlen, hkind, hargs with
    | [v], _, hkind, hargs =>
      obtain ⟨n, rfl⟩ := Value.eq_int_of_kind (hkind 0 v _ rfl rfl)
      refine ⟨rfl, .text (Text.Utf8.encode (toString n.toInt).toList), ?_, rfl⟩
      exact call_eq_ok rfl rfl (by decide) (hargs (by decide)) rfl
  · match args, hlen, hkind, hargs with
    | [v, w], _, hkind, hargs =>
      obtain ⟨m, rfl⟩ := Value.eq_int_of_kind (hkind 0 v _ rfl rfl)
      obtain ⟨n, rfl⟩ := Value.eq_int_of_kind (hkind 1 w _ rfl rfl)
      refine ⟨rfl, .bool (n < m), ?_, rfl⟩
      exact call_eq_ok rfl rfl (by decide) (hargs (by decide)) rfl

/-- One more argument of the declared kind for a standard built-in: at once there is either the
closure that waits for the next argument or the result, of the declared kind. -/
theorem Waiting.step_standard {b : Builtin} (hb : b ∈ Registry.standard) {args : List Value}
    {env : Env Value} {param : String} {body : Term} {a r : Ty}
    (h : b.Waiting args (.closure env param body) (.fn a r)) {v : Value}
    (hkind : ∀ (i : Nat) w p, (args ++ [v])[i]? = some w → b.parameters[i]? = some p →
      Value.kind w = p.2.kind) :
    ∃ w, (∀ table eval, body.step ⟨.standard, table⟩ eval (env.insert param v) = pure w) ∧
      (b.Waiting (args ++ [v]) w r ∨ r.isFn = false ∧ w.kind = r.kind) := by
  rcases h.step v with ⟨w, hw, hstep⟩ | ⟨hlen, rfl, hstep⟩
  · exact ⟨w, fun table eval => hstep _ _, .inl hw⟩
  · obtain ⟨hfn, w, hcall, hw⟩ := call_standard hb hlen hkind
    refine ⟨w, fun table eval => ?_, .inr ⟨hfn, hw⟩⟩
    rw [hstep, hcall]
    rfl

end Builtin

/-- The table that evaluation begins with binds each standard built-in, waiting for its first
argument, and nothing else. -/
theorem Registry.table_standard : ∃ table, Registry.standard.table = .ok table ∧
    (∀ b ∈ Registry.standard, ∃ v, table.get? b.name = some v ∧ b.Waiting [] v b.type) ∧
    ∀ name, name ∉ Registry.standard.map (·.name) → table.get? name = none := by
  refine ⟨_, rfl, ?_, ?_⟩
  · intro b hb
    simp only [Registry.standard, List.mem_cons, List.not_mem_nil, or_false] at hb
    rcases hb with rfl | rfl
    · exact ⟨_, rfl, .mk rfl⟩
    · exact ⟨_, rfl, .mk rfl⟩
  · intro name hname
    simp only [Registry.standard, List.map_cons, List.map_nil, List.mem_cons, List.not_mem_nil,
      or_false, not_or] at hname
    rw [Env.get?_insert_of_ne hname.2, Env.get?_insert_of_ne hname.1, Env.get?_empty]

theorem Registry.exists_waiting {table : Env Value} (htable : Registry.standard.table = .ok table)
    {name : String} {v : Value} (hv : table.get? name = some v) :
    ∃ b ∈ Registry.standard, b.name = name ∧ b.Waiting [] v b.type := by
  obtain ⟨table', htable', hbound, hother⟩ := Registry.table_standard
  rw [htable] at htable'
  obtain rfl := Except.ok.inj htable'
  by_cases hname : name ∈ Registry.standard.map (·.name)
  · obtain ⟨b, hb, rfl⟩ := List.mem_map.mp hname
    obtain ⟨w, hw, hwaiting⟩ := hbound b hb
    rw [hv] at hw
    obtain rfl := Option.some.inj hw
    exact ⟨b, hb, rfl, hwaiting⟩
  · rw [hother name hname] at hv
    cases hv

end TypedLambda
