import TypedLambda.Eval.Evaluator

/-!
# What an evaluation ensures

`x.Ensures post fault` says how the traced computation `x` ends, whatever it visited before: with a
result that satisfies `post`, or with a fault that satisfies `fault`. There is one rule for each way
to build a computation, so that a statement about evaluation follows the node that is evaluated. The
operators and the definitions of a program have their lemmas here too.
-/

namespace TypedLambda

namespace Traced

variable {α β : Type}

/-- Every run ends with a result that satisfies `post` or with a fault that satisfies `fault`. -/
def Ensures (x : Traced α) (post : α → Prop) (fault : Fault → Prop) : Prop :=
  ∀ visited, match (x visited).1 with
    | .ok a => post a
    | .error e => fault e

variable {post : α → Prop} {fault : Fault → Prop}

theorem Ensures.pure {a : α} (h : post a) : (Pure.pure a : Traced α).Ensures post fault :=
  fun _ => h

theorem Ensures.fail {e : Fault} (h : fault e) : (Traced.fail e : Traced α).Ensures post fault :=
  fun _ => h

theorem Ensures.ofExcept_ok {r : Except Fault α} {a : α} (hr : r = .ok a) (h : post a) :
    (Traced.ofExcept r).Ensures post fault := by
  subst hr
  exact fun _ => h

theorem Ensures.ofExcept_error {r : Except Fault α} {e : Fault} (hr : r = .error e)
    (h : fault e) : (Traced.ofExcept r).Ensures post fault := by
  subst hr
  exact fun _ => h

theorem bind_of_ok {x : Traced β} {f : β → Traced α} {visited visited' : List Term} {b : β}
    (h : x visited = (.ok b, visited')) : (x >>= f) visited = f b visited' := by
  simp only [Bind.bind, h]

theorem bind_of_error {x : Traced β} {f : β → Traced α} {visited visited' : List Term} {e : Fault}
    (h : x visited = (.error e, visited')) : (x >>= f) visited = (.error e, visited') := by
  simp only [Bind.bind, h]

theorem Ensures.bind {mid : β → Prop} {x : Traced β} {f : β → Traced α}
    (hx : x.Ensures mid fault) (hf : ∀ b, mid b → (f b).Ensures post fault) :
    (x >>= f).Ensures post fault := by
  intro visited
  have hmid := hx visited
  rcases hr : x visited with ⟨r, visited'⟩
  rw [hr] at hmid
  cases r with
  | ok b =>
    rw [bind_of_ok hr]
    exact hf b hmid visited'
  | error e =>
    rw [bind_of_error hr]
    exact hmid

theorem Ensures.mono {post' : α → Prop} {fault' : Fault → Prop} {x : Traced α}
    (hx : x.Ensures post fault) (hpost : ∀ a, post a → post' a)
    (hfault : ∀ e, fault e → fault' e) : x.Ensures post' fault' := by
  intro visited
  have hrun := hx visited
  cases hr : (x visited).1 with
  | ok a =>
    rw [hr] at hrun
    exact hpost a hrun
  | error e =>
    rw [hr] at hrun
    exact hfault e hrun

theorem Ensures.of_ok {x : Traced α} (hx : x.Ensures post fault) {a : α}
    (h : x.run.result = .ok a) : post a := by
  have hrun := hx []
  rw [show (x []).1 = .ok a from h] at hrun
  exact hrun

theorem Ensures.of_error {x : Traced α} (hx : x.Ensures post fault) {e : Fault}
    (h : x.run.result = .error e) : fault e := by
  have hrun := hx []
  rw [show (x []).1 = .error e from h] at hrun
  exact hrun

theorem Ensures.ofExcept (r : Except Fault α) :
    (Traced.ofExcept r).Ensures (fun a => r = .ok a) (fun e => r = .error e) := by
  cases r with
  | ok a => exact .ofExcept_ok rfl rfl
  | error e => exact .ofExcept_error rfl rfl

theorem Ensures.result_eq {x : Traced α} {r : Except Fault α}
    (hx : x.Ensures (fun a => r = .ok a) (fun e => r = .error e)) : x.run.result = r := by
  cases h : x.run.result with
  | ok a => rw [hx.of_ok h]
  | error e => rw [hx.of_error h]

theorem Ensures.run_eq {x : Traced α} {a : α} (hx : x.Ensures (· = a) (fun _ => False)) :
    x.run.result = .ok a := by
  cases h : x.run.result with
  | ok b => rw [hx.of_ok h]
  | error e => exact (hx.of_error h).elim

end Traced

/-! ## Levels -/

namespace Term

variable {globals : Globals} {exhausted : Fault} {env : Env Value} {x : Term}
  {post : Value → Prop} {fault : Fault → Prop}

theorem eval_zero_ensures (h : fault exhausted) :
    (x.eval globals exhausted 0 env).Ensures post fault :=
  Traced.Ensures.fail h

theorem eval_succ (n : Nat) (visited : List Term) :
    x.eval globals exhausted (n + 1) env visited =
      x.step globals (eval globals exhausted n) env (x :: visited) :=
  onFreshStack_eq n _

theorem eval_succ_ensures {n : Nat}
    (h : (x.step globals (eval globals exhausted n) env).Ensures post fault) :
    (x.eval globals exhausted (n + 1) env).Ensures post fault := by
  intro visited
  rw [eval_succ]
  exact h (x :: visited)

end Term

theorem Globals.lookup_ensures {globals : Globals} {env : Env Value} {name : String}
    {post : Value → Prop} {fault : Fault → Prop}
    (hlocal : ∀ v, env.get? name = some v → post v)
    (htop : ∀ v, env.get? name = none → globals.topLevel.get? name = some v → post v)
    (hnone : env.get? name = none → globals.topLevel.get? name = none → fault (.unbound name)) :
    (Traced.ofExcept (globals.lookup env name)).Ensures post fault := by
  unfold lookup
  split
  · next v hv => exact .ofExcept_ok rfl (hlocal v hv)
  · next henv =>
    split
    · next v hv => exact .ofExcept_ok rfl (htop v henv hv)
    · next hv => exact .ofExcept_error rfl (hnone henv hv)

/-! ## Definitions one by one -/

namespace Evaluator

variable {registry : Registry} {e : Evaluator} {d : Definition} {ds : List Definition}

theorem define_cons_ok {v : Value} (h : (e.evaluate registry .empty d.body).result = .ok v) :
    (define registry e (d :: ds)).result =
      (define registry { e with topLevel := e.topLevel.insert d.name v } ds).result := by
  rw [define, h]

theorem define_cons_error {fault : Fault}
    (h : (e.evaluate registry .empty d.body).result = .error fault) :
    (define registry e (d :: ds)).result = .error ⟨some d.name, fault⟩ := by
  rw [define, h]

theorem ofDefinitions_of_table {table : Env Value} (h : registry.table = .ok table)
    (limit : DepthLimit) (ds : List Definition) :
    ofDefinitions registry limit ds = define registry ⟨table, limit⟩ ds := by
  rw [ofDefinitions, h]

theorem define_cons_eq_ok {e' : Evaluator} (h : (define registry e (d :: ds)).result = .ok e') :
    ∃ v, (e.evaluate registry .empty d.body).result = .ok v ∧
      (define registry { e with topLevel := e.topLevel.insert d.name v } ds).result = .ok e' := by
  cases hrun : (e.evaluate registry .empty d.body).result with
  | ok v => exact ⟨v, rfl, by rwa [define_cons_ok hrun] at h⟩
  | error fault =>
    rw [define_cons_error hrun] at h
    cases h

theorem define_eq_error {err : EvalError} (h : (define registry e ds).result = .error err) :
    ∃ before d after e', ds = before ++ d :: after ∧ (define registry e before).result = .ok e' ∧
      (e'.evaluate registry .empty d.body).result = .error err.fault ∧
      err.definition = some d.name := by
  induction ds generalizing e with
  | nil => cases h
  | cons d ds ih =>
    cases hrun : (e.evaluate registry .empty d.body).result with
    | error fault =>
      rw [define_cons_error hrun] at h
      obtain rfl := Except.error.inj h
      exact ⟨[], d, ds, e, rfl, rfl, hrun, rfl⟩
    | ok v =>
      rw [define_cons_ok hrun] at h
      obtain ⟨before, d', after, e', rfl, hbefore, hfault, hname⟩ := ih h
      exact ⟨d :: before, d', after, e', rfl, by rw [define_cons_ok hrun, hbefore], hfault, hname⟩

theorem define_keeps {P : Evaluator → Prop} {e' : Evaluator}
    (h : (define registry e ds).result = .ok e') (he : P e)
    (hstep : ∀ d ∈ ds, ∀ (e : Evaluator) (v : Value), P e →
      (e.evaluate registry .empty d.body).result = .ok v →
        P { e with topLevel := e.topLevel.insert d.name v }) : P e' := by
  induction ds generalizing e with
  | nil =>
    obtain rfl := Except.ok.inj h
    exact he
  | cons d ds ih =>
    obtain ⟨v, hv, h⟩ := define_cons_eq_ok h
    exact ih h (hstep d List.mem_cons_self e v he hv)
      fun d' hd' => hstep d' (List.mem_cons_of_mem d hd')

theorem limit_define {e' : Evaluator} (h : (define registry e ds).result = .ok e') :
    e'.limit = e.limit :=
  define_keeps (P := fun e' => e'.limit = e.limit) h rfl fun _ _ _ _ heq _ => heq

theorem isSome_get?_define {e' : Evaluator} (h : (define registry e ds).result = .ok e')
    {name : String} (hname : (e.topLevel.get? name).isSome) : (e'.topLevel.get? name).isSome := by
  refine define_keeps (P := fun e => (e.topLevel.get? name).isSome) h hname ?_
  intro d _ e v he _
  show ((e.topLevel.insert d.name v).get? name).isSome
  rw [Env.get?_insert]
  split
  · rfl
  · exact he

theorem isSome_get?_define_of_mem {e' : Evaluator} (h : (define registry e ds).result = .ok e')
    {name : String} (hname : name ∈ ds.map (·.name)) : (e'.topLevel.get? name).isSome := by
  induction ds generalizing e with
  | nil => cases hname
  | cons d ds ih =>
    obtain ⟨v, _, h⟩ := define_cons_eq_ok h
    rcases List.mem_cons.mp hname with rfl | hname
    · refine isSome_get?_define h ?_
      show ((e.topLevel.insert d.name v).get? d.name).isSome
      rw [Env.get?_insert_self]
      rfl
    · exact ih h hname

end Evaluator

end TypedLambda
