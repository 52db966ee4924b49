import TypedLambda.Proofs.Eval.Soundness

/-!
# Normalization

Without recursion every well typed program has a value, and any large enough limit gives it. The
proof is by reducibility: `Value.Reducible t table v` says that `v` is a value of the type `t`
which, if it is a function, has a reducible result for every reducible argument. Since the table of
top-level values grows from definition to definition, a function has to keep this promise under
every larger table. A well typed term whose free names have reducible values evaluates to a
reducible value (`Term.HasType.converges`), so each definition that uses only earlier ones adds a
reducible value to the table (`Evaluator.define_converges`).
-/

namespace TypedLambda

/-! ## Convergence -/

/-- A term has the value `v` with every number of levels from some number on, so that no limit
beyond it is used up. -/
def Term.Converges (table env : Env Value) (x : Term) (v : Value) : Prop :=
  ∃ levels, ∀ n, levels ≤ n → ∀ exhausted,
    (x.eval ⟨.standard, table⟩ exhausted n env).Ensures (· = v) fun _ => False

namespace Term.Converges

variable {table env : Env Value}

theorem of_step {x : Term} {v : Value} (levels : Nat)
    (h : ∀ n, levels ≤ n → ∀ exhausted,
      (x.step ⟨.standard, table⟩ (Term.eval ⟨.standard, table⟩ exhausted n) env).Ensures (· = v)
        fun _ => False) : x.Converges table env v := by
  refine ⟨levels + 1, fun n hn exhausted => ?_⟩
  obtain ⟨m, rfl⟩ : ∃ m, n = m + 1 := ⟨n - 1, by omega⟩
  exact Term.eval_succ_ensures (h m (by omega) exhausted)

theorem app {func arg body : Term} {captured : Env Value} {param : String} {a v : Value}
    (hfunc : func.Converges table env (.closure captured param body))
    (harg : arg.Converges table env a)
    (hbody : body.Converges table (captured.insert param a) v) :
    (Term.app func arg).Converges table env v := by
  obtain ⟨n₁, hfunc⟩ := hfunc
  obtain ⟨n₂, harg⟩ := harg
  obtain ⟨n₃, hbody⟩ := hbody
  refine of_step (n₁ + n₂ + n₃) fun n hn exhausted => ?_
  refine .bind (hfunc n (by omega) exhausted) ?_
  rintro _ rfl
  refine .bind (harg n (by omega) exhausted) ?_
  rintro _ rfl
  exact hbody n (by omega) exhausted

theorem var {name : String} {v : Value}
    (h : Globals.lookup ⟨.standard, table⟩ env name = .ok v) :
    (Term.var name).Converges table env v :=
  of_step 0 fun _ _ _ => .ofExcept_ok h rfl

theorem bin {op : Operator} {left right : Term} {l r v : Value}
    (hleft : left.Converges table env l) (hright : right.Converges table env r)
    (h : op.apply l r = .ok v) : (Term.bin op left right).Converges table env v := by
  obtain ⟨n₁, hleft⟩ := hleft
  obtain ⟨n₂, hright⟩ := hright
  refine of_step (n₁ + n₂) fun n hn exhausted => ?_
  refine .bind (hleft n (by omega) exhausted) ?_
  rintro _ rfl
  refine .bind (hright n (by omega) exhausted) ?_
  rintro _ rfl
  exact .ofExcept_ok h rfl

theorem ite {cond yes no : Term} {b : Bool} {v : Value}
    (hcond : cond.Converges table env (.bool b))
    (hbranch : (if b then yes else no).Converges table env v) :
    (Term.ite cond yes no).Converges table env v := by
  obtain ⟨n₁, hcond⟩ := hcond
  obtain ⟨n₂, hbranch⟩ := hbranch
  refine of_step (n₁ + n₂) fun n hn exhausted => ?_
  refine .bind (hcond n (by omega) exhausted) ?_
  rintro _ rfl
  cases b with
  | true => exact hbranch n (by omega) exhausted
  | false => exact hbranch n (by omega) exhausted

theorem letIn {name : String} {bound body : Term} {b v : Value}
    (hbound : bound.Converges table env b)
    (hbody : body.Converges table (env.insert name b) v) :
    (Term.letIn name bound body).Converges table env v := by
  obtain ⟨n₁, hbound⟩ := hbound
  obtain ⟨n₂, hbody⟩ := hbody
  refine of_step (n₁ + n₂) fun n hn exhausted => ?_
  refine .bind (hbound n (by omega) exhausted) ?_
  rintro _ rfl
  exact hbody n (by omega) exhausted

end Term.Converges

/-! ## Reducible values -/

/-- The reducible values of a type, under a table and every larger one. -/
def Value.Reducible : Ty → Env Value → Value → Prop
  | .int, _, v => v.kind = .int
  | .bool, _, v => v.kind = .bool
  | .text, _, v => v.kind = .text
  | .fn a r, table, v => ∃ env param body, v = .closure env param body ∧
      ∀ table', table.Grows table' → ∀ arg, Reducible a table' arg →
        ∃ w, body.Converges table' (env.insert param arg) w ∧ Reducible r table' w

namespace Value.Reducible

variable {t : Ty} {table table' : Env Value} {v : Value}

theorem mono (h : Reducible t table v) (hgrows : table.Grows table') : Reducible t table' v := by
  cases t with
  | fn a r =>
    obtain ⟨env, param, body, rfl, happly⟩ := h
    exact ⟨env, param, body, rfl, fun table'' h'' => happly table'' (hgrows.trans h'')⟩
  | _ => exact h

theorem kind_eq (h : Reducible t table v) : v.kind = t.kind := by
  cases t with
  | fn a r =>
    obtain ⟨env, param, body, rfl, _⟩ := h
    rfl
  | _ => exact h

theorem of_kind_eq (ht : t.isFn = false) (h : v.kind = t.kind) : Reducible t table v := by
  cases t with
  | fn a r => cases ht
  | _ => exact h

theorem of_waiting {b : Builtin} (hb : b ∈ Registry.standard) {args : List Value}
    (hwaiting : b.Waiting args v t)
    (hargs : ∀ (i : Nat) w p, args[i]? = some w → b.parameters[i]? = some p →
      Reducible p.2 table w) : Reducible t table v := by
  -- on the type, which loses an arrow with each argument
  induction t generalizing args v table with
  | fn a r _ ih =>
    obtain ⟨env, param, body, rfl⟩ : ∃ env param body, v = .closure env param body := by
      cases hwaiting
      exact ⟨_, _, _, rfl⟩
    refine ⟨env, param, body, rfl, fun table' hgrows arg harg => ?_⟩
    have hargs' : ∀ (i : Nat) w p, (args ++ [arg])[i]? = some w → b.parameters[i]? = some p →
        Reducible p.2 table' w := by
      refine Builtin.forall_concat (fun i w p hw hp => (hargs i w p hw hp).mono hgrows) ?_
      intro p hp
      rw [hwaiting.parameter] at hp
      obtain rfl := Option.some.inj hp
      exact harg
    obtain ⟨w, hstep, hw⟩ := hwaiting.step_standard hb
      fun i w p hw hp => (hargs' i w p hw hp).kind_eq
    refine ⟨w, .of_step 0 fun n _ exhausted => ?_, ?_⟩
    · rw [hstep]
      exact .pure rfl
    · rcases hw with hw | ⟨hfn, hkind⟩
      · exact ih hw hargs'
      · exact of_kind_eq hfn hkind
  | _ => cases hwaiting

end Value.Reducible

/-! ## Terms -/

/-- Look-up, first among the local names and then in the table, finds a reducible value for each of
some names. -/
def Env.Provides (names : List String) (ctx : Env Ty) (table env : Env Value) : Prop :=
  ∀ name ∈ names, ∀ t, ctx.get? name = some t →
    ∃ v, Globals.lookup ⟨.standard, table⟩ env name = .ok v ∧ v.Reducible t table

namespace Env.Provides

variable {names names' : List String} {ctx : Env Ty} {table env : Env Value}

theorem subset (h : Provides names ctx table env) (hsub : ∀ name ∈ names', name ∈ names) :
    Provides names' ctx table env :=
  fun name hname => h name (hsub name hname)

theorem mono (h : Provides names ctx table env) {table' : Env Value}
    (hgrows : table.Grows table') : Provides names ctx table' env := by
  intro name hname t ht
  obtain ⟨v, hv, hred⟩ := h name hname t ht
  refine ⟨v, ?_, hred.mono hgrows⟩
  rw [Globals.lookup] at hv ⊢
  cases hlocal : env.get? name with
  | some w => rwa [hlocal] at hv
  | none =>
    rw [hlocal] at hv
    simp only at hv ⊢
    cases htop : table.get? name with
    | some w =>
      rw [htop] at hv
      rw [hgrows name w htop]
      exact hv
    | none =>
      rw [htop] at hv
      cases hv

/-- A new local name, which the names outside its scope do not count. -/
theorem insert {param : String} (h : Provides (names.filter (· ≠ param)) ctx table env)
    {a : Value} {s : Ty} (ha : a.Reducible s table) :
    Provides names (ctx.insert param s) table (env.insert param a) := by
  intro name hname t ht
  rw [get?_insert] at ht
  rw [Globals.lookup, get?_insert]
  by_cases heq : name = param
  · rw [if_pos heq] at ht
    obtain rfl := Option.some.inj ht
    exact ⟨a, by rw [if_pos heq], ha⟩
  · rw [if_neg heq] at ht
    rw [if_neg heq]
    exact h name (List.mem_filter.mpr ⟨hname, by simpa using heq⟩) t ht

end Env.Provides

/-- **Reducibility of well typed terms**: if its free names have reducible values, a term converges
to a reducible value. -/
theorem Term.HasType.converges {ctx : Env Ty} {x : Term} {t : Ty} (hx : x.HasType ctx t)
    {table env : Env Value} (henv : Env.Provides x.freeVars ctx table env) :
    ∃ v, x.Converges table env v ∧ v.Reducible t table := by
  induction hx generalizing table env with
  | app _ _ ihFunc ihArg =>
    obtain ⟨f, hf, hfred⟩ := ihFunc (henv.subset fun _ => List.mem_append_left _)
    obtain ⟨a, ha, hared⟩ := ihArg (henv.subset fun _ => List.mem_append_right _)
    obtain ⟨captured, param, body, rfl, happly⟩ := hfred
    obtain ⟨v, hv, hvred⟩ := happly table (fun _ _ h => h) a hared
    exact ⟨v, .app hf ha hv, hvred⟩
  | @lam ctx param a r body _ ih =>
    refine ⟨.closure env param body, .of_step 0 fun _ _ _ => .pure rfl, ?_⟩
    refine ⟨env, param, body, rfl, fun table' hgrows arg harg => ?_⟩
    exact ih ((henv.mono hgrows).insert harg)
  | @int _ n => exact ⟨.int n, .of_step 0 fun _ _ _ => .pure rfl, rfl⟩
  | @bool _ b => exact ⟨.bool b, .of_step 0 fun _ _ _ => .pure rfl, rfl⟩
  | @text _ bytes => exact ⟨.text bytes, .of_step 0 fun _ _ _ => .pure rfl, rfl⟩
  | @var _ name t hname =>
    obtain ⟨v, hv, hvred⟩ := henv name List.mem_cons_self t hname
    exact ⟨v, .var hv, hvred⟩
  | bin hop _ _ ihLeft ihRight =>
    obtain ⟨l, hl, hlred⟩ := ihLeft (henv.subset fun _ => List.mem_append_left _)
    obtain ⟨r, hr, hrred⟩ := ihRight (henv.subset fun _ => List.mem_append_right _)
    obtain ⟨v, hv, hkind⟩ := hop.apply hlred.kind_eq hrred.kind_eq
    exact ⟨v, .bin hl hr hv, .of_kind_eq hop.isFn_result hkind⟩
  | ite _ _ _ ihCond ihYes ihNo =>
    have hbranches := henv.subset fun _ => List.mem_append_right _
    obtain ⟨c, hc, hcred⟩ := ihCond (henv.subset fun _ => List.mem_append_left _)
    obtain ⟨b, rfl⟩ := Value.eq_bool_of_kind hcred.kind_eq
    cases b with
    | true =>
      obtain ⟨v, hv, hvred⟩ := ihYes (hbranches.subset fun _ => List.mem_append_left _)
      exact ⟨v, .ite hc hv, hvred⟩
    | false =>
      obtain ⟨v, hv, hvred⟩ := ihNo (hbranches.subset fun _ => List.mem_append_right _)
      exact ⟨v, .ite hc hv, hvred⟩
  | letIn _ _ ihBound ihBody =>
    obtain ⟨b, hb, hbred⟩ := ihBound (henv.subset fun _ => List.mem_append_left _)
    have hbody := henv.subset fun _ => List.mem_append_right _
    obtain ⟨v, hv, hvred⟩ := ihBody (hbody.insert hbred)
    exact ⟨v, .letIn hb hv, hvred⟩

/-! ## Programs -/

/-- The table has a reducible value for every name of the context, but for the names of some
definitions, and none for those. -/
structure Env.ProvidesBut (ds : List Definition) (ctx : Env Ty) (table : Env Value) : Prop where
  bound : ∀ name t, ctx.get? name = some t → name ∉ ds.map (·.name) →
    ∃ v, table.get? name = some v ∧ v.Reducible t table
  fresh : ∀ d ∈ ds, table.get? d.name = none

namespace Env.ProvidesBut

variable {ds : List Definition} {d : Definition} {ctx : Env Ty} {table : Env Value}

theorem provides (h : ProvidesBut ds ctx table) {names : List String}
    (hnames : ∀ name ∈ names, name ∉ ds.map (·.name)) : Provides names ctx table .empty := by
  intro name hname t ht
  obtain ⟨v, hv, hred⟩ := h.bound name t ht (hnames name hname)
  exact ⟨v, by rw [Globals.lookup, get?_empty]; simp only [hv], hred⟩

theorem insert (h : ProvidesBut (d :: ds) ctx table) (hd : d.name ∉ ds.map (·.name))
    (hctx : ctx.get? d.name = some d.type) {v : Value} (hv : v.Reducible d.type table) :
    ProvidesBut ds ctx (table.insert d.name v) := by
  have hgrows := Env.grows_insert (h.fresh d List.mem_cons_self) v
  refine ⟨fun name t ht hname => ?_, fun e he => ?_⟩
  · by_cases heq : name = d.name
    · rw [heq] at ht ⊢
      rw [hctx] at ht
      obtain rfl := Option.some.inj ht
      exact ⟨v, get?_insert_self _ _ _, hv.mono hgrows⟩
    · have hcons : name ∉ (d :: ds).map (·.name) := List.not_mem_cons_of_ne_of_not_mem heq hname
      obtain ⟨w, hw, hred⟩ := h.bound name t ht hcons
      exact ⟨w, hgrows name w hw, hred.mono hgrows⟩
  · have hne : e.name ≠ d.name := fun heq => hd (heq ▸ List.mem_map.mpr ⟨e, he, rfl⟩)
    rw [get?_insert_of_ne hne]
    exact h.fresh e (List.mem_cons_of_mem d he)

end Env.ProvidesBut

theorem Term.Converges.evaluate {table : Env Value} {x : Term} {v : Value}
    (h : x.Converges table .empty v) : ∃ levels, ∀ limit : DepthLimit, levels ≤ limit.depth →
      (Evaluator.evaluate ⟨table, limit⟩ .standard .empty x).result = .ok v := by
  obtain ⟨levels, h⟩ := h
  exact ⟨levels, fun limit hlimit => (h limit.depth hlimit limit.exhausted).run_eq⟩

/-- Definitions that use earlier names only are all evaluated, to the same table under every limit
that is large enough. -/
theorem Evaluator.define_converges {ctx : Env Ty} {ds : List Definition}
    (hnodup : (ds.map (·.name)).Nodup)
    (hds : ∀ d ∈ ds, ctx.get? d.name = some d.type ∧ d.body.HasType ctx d.type)
    (hself : ∀ d ∈ ds, d.name ∉ d.body.freeVars)
    (hlater : ds.Pairwise fun d later => later.name ∉ d.body.freeVars)
    {table : Env Value} (htable : Env.ProvidesBut ds ctx table) :
    ∃ table' levels, Env.ProvidesBut [] ctx table' ∧ ∀ limit : DepthLimit, levels ≤ limit.depth →
      (define .standard ⟨table, limit⟩ ds).result = .ok ⟨table', limit⟩ := by
  induction ds generalizing table with
  | nil => exact ⟨table, 0, htable, fun limit _ => rfl⟩
  | cons d ds ih =>
    rw [List.map_cons, List.nodup_cons] at hnodup
    rw [List.pairwise_cons] at hlater
    obtain ⟨hname, hbody⟩ := hds d List.mem_cons_self
    have hfree : ∀ name ∈ d.body.freeVars, name ∉ (d :: ds).map (·.name) := by
      intro name hfree hmem
      obtain ⟨e, he, rfl⟩ := List.mem_map.mp hmem
      rcases List.mem_cons.mp he with rfl | he
      · exact hself e List.mem_cons_self hfree
      · exact hlater.1 e he hfree
    obtain ⟨v, hv, hred⟩ := hbody.converges (htable.provides hfree)
    obtain ⟨n₁, hv⟩ := hv.evaluate
    obtain ⟨table', n₂, htable', hrest⟩ := ih hnodup.2
      (fun e he => hds e (List.mem_cons_of_mem d he))
      (fun e he => hself e (List.mem_cons_of_mem d he)) hlater.2
      (htable.insert hnodup.1 hname hred)
    refine ⟨table', n₁ + n₂, htable', fun limit hlimit => ?_⟩
    rw [define_cons_ok (hv limit (by omega))]
    exact hrest limit (by omega)

theorem Registry.table_standard_provides {p : Program}
    (hnames : ∀ d ∈ p.definitions, d.name ∉ Registry.standard.map (·.name)) :
    ∃ table, Registry.standard.table = .ok table ∧
      Env.ProvidesBut p.definitions (p.context .standard) table := by
  obtain ⟨table, htable, hbound, hother⟩ := Registry.table_standard
  refine ⟨table, htable, fun name t ht hname => ?_, fun d hd => hother d.name (hnames d hd)⟩
  by_cases hbuiltin : name ∈ Registry.standard.map (·.name)
  · obtain ⟨b, hb, rfl⟩ := List.mem_map.mp hbuiltin
    obtain ⟨v, hv, hwaiting⟩ := hbound b hb
    rw [p.context_get?_builtin hnames hb] at ht
    obtain rfl := Option.some.inj ht
    exact ⟨v, hv, .of_waiting hb hwaiting fun _ _ _ h => by cases h⟩
  · rw [p.context_get?_eq_none hname hbuiltin] at ht
    cases ht

/-- **Normalization.** A program that inference accepts without a mismatch, of distinct definitions
that hide no built-in and that use neither themselves nor later ones, has a value of its type, and
every limit that is large enough gives that value. -/
theorem Program.evaluate_converges {p : Program} {t : Ty}
    (hnodup : (p.definitions.map (·.name)).Nodup)
    (hnames : ∀ d ∈ p.definitions, d.name ∉ Registry.standard.map (·.name))
    (hinfer : p.infer .standard = ⟨[], .ok t⟩)
    (hself : ∀ d ∈ p.definitions, d.name ∉ d.body.freeVars)
    (hlater : p.definitions.Pairwise fun d later => later.name ∉ d.body.freeVars) :
    ∃ v levels, v.HasType (p.context .standard) t ∧
      ∀ limit : DepthLimit, levels ≤ limit.depth →
        (p.evaluate .standard limit).result = .ok v := by
  have hp := Program.hasType_of_infer hinfer
  obtain ⟨table₀, htable₀, hprovides₀⟩ := Registry.table_standard_provides hnames
  obtain ⟨table, n₁, hprovides, hdefine⟩ := Evaluator.define_converges hnodup
    (fun d hd => ⟨p.context_get?_definition hnodup hd, hp.definitions d hd⟩) hself hlater
    hprovides₀
  have hdefs : ∀ limit : DepthLimit, n₁ ≤ limit.depth →
      (Evaluator.ofDefinitions .standard limit p.definitions).result = .ok ⟨table, limit⟩ := by
    intro limit hlimit
    rw [Evaluator.ofDefinitions, htable₀]
    exact hdefine limit hlimit
  obtain ⟨v, hv, _⟩ := hp.main.converges (hprovides.provides fun _ _ => by simp)
  obtain ⟨n₂, hmain⟩ := hv.evaluate
  have hrun : ∀ limit : DepthLimit, n₁ + n₂ ≤ limit.depth →
      (p.evaluate .standard limit).result = .ok v := by
    intro limit hlimit
    rw [Program.evaluate_of_ok (hdefs limit (by omega)), hmain limit (by omega)]
    rfl
  refine ⟨v, n₁ + n₂, ?_, hrun⟩
  exact Program.hasType_of_evaluate hnodup hnames hp (hrun (.levels (n₁ + n₂)) (Nat.le_refl _))

/-- Functions of functions, in definitions that use earlier ones, and a result that is shown. -/
def Program.showQuadruple : Program where
  definitions :=
    [⟨"twice", .fn (.fn .int .int) (.fn .int .int), .lam "f" (.fn .int .int) (.lam "x" .int
      (.app (.var "f") (.app (.var "f") (.var "x"))))⟩,
     ⟨"quadruple", .fn .int .int,
      .app (.var "twice") (.lam "x" .int (.bin .add (.var "x") (.var "x")))⟩]
  main := .letIn "n" (.app (.var "quadruple") (.lit (.int 3)))
    (.ite (.app (.app (.var "greater_than") (.var "n")) (.lit (.int 10)))
      (.app (.var "int_to_string") (.var "n")) (.lit (.text [])))

theorem Program.evaluate_showQuadruple :
    showQuadruple.infer .standard = ⟨[], .ok .text⟩ ∧
    ∃ v levels, v.HasType (showQuadruple.context .standard) .text ∧
      ∀ limit : DepthLimit, levels ≤ limit.depth →
        (showQuadruple.evaluate .standard limit).result = .ok v :=
  ⟨rfl, Program.evaluate_converges (by decide) (by decide) rfl (by decide) (by decide)⟩

end TypedLambda
