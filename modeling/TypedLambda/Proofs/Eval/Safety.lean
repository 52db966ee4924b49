import TypedLambda.Proofs.Eval.Scoping
import TypedLambda.Proofs.Syntax.Image
import TypedLambda.Run

/-!
# Safety of runs

Whatever bytes a file holds and whatever types its program has, a run never accesses the text out of
range and never meets a defect of the tree or of the registry, and the only built-in fault is an
argument of the wrong kind (`runFile_expected`).

The programs that are read are plain: they hold no marker of a built-in and only known operators
(`Program.plain_of_ofFile`). For inference that is enough. Evaluation makes closures, and some of
them hold a marker: those of the built-ins. `Value.Safe` says that a closure has a plain body or is
a standard built-in that waits for its next argument. So a marker is only met when all parameters of
its built-in are bound, by the built-in itself, to what it was applied to, whatever names the
program uses. Evaluation keeps this (`Term.eval_safe`), with no typing assumed.
-/

namespace TypedLambda

/-! ## Plain terms -/

/-- A term holds no marker of a built-in, and its operators are known. -/
def Term.Plain : Term → Prop
  | app func arg => func.Plain ∧ arg.Plain
  | lam _ _ body => body.Plain
  | lit _ => True
  | var _ => True
  | bin op left right => op.isKnown = true ∧ left.Plain ∧ right.Plain
  | ite cond yes no => cond.Plain ∧ yes.Plain ∧ no.Plain
  | letIn _ bound body => bound.Plain ∧ body.Plain
  | builtin _ => False

def Program.Plain (p : Program) : Prop :=
  (∀ d ∈ p.definitions, d.body.Plain) ∧ p.main.Plain

theorem Term.Writable.plain {x : Term} (h : x.Writable) : x.Plain := by
  induction x with
  | app func arg ih₁ ih₂ => exact ⟨ih₁ h.1, ih₂ h.2⟩
  | lam param type body ih => exact ih h.2
  | lit value => exact trivial
  | var name => exact trivial
  | bin op left right ih₁ ih₂ => exact ⟨h.1, ih₁ h.2.1, ih₂ h.2.2⟩
  | ite cond yes no ih₁ ih₂ ih₃ => exact ⟨ih₁ h.1, ih₂ h.2.1, ih₃ h.2.2⟩
  | letIn name bound body ih₁ ih₂ => exact ⟨ih₁ h.2.1, ih₂ h.2.2⟩
  | builtin name => exact h

/-- **What is read from a file is plain.** -/
theorem Program.plain_of_ofFile {fs : FileSystem} {name : String} {p : Program}
    (h : (Program.ofFile fs name).result = .ok p) : p.Plain := by
  obtain ⟨hdefinitions, hmain⟩ := Program.writable_of_ofFile h
  exact ⟨fun d hd => (hdefinitions d hd).2.plain, hmain.plain⟩

/-! ## Inference -/

def TypeFault.Expected : TypeFault → Prop
  | unknownVariable _ => True
  | notFunction _ => True
  | internalNode _ => False
  | unknownOperator _ => False

namespace Checked

variable {ε ε' α β : Type} {P : ε → Prop}

/-- If the computation ends with a fault, then that fault satisfies `P`. -/
def Faults (P : ε → Prop) (x : Checked ε α) : Prop := ∀ e, x.result = .error e → P e

namespace Faults

theorem pure {a : α} : (Pure.pure a : Checked ε α).Faults P := nofun

theorem fail {e : ε} (h : P e) : (Checked.fail e : Checked ε α).Faults P := by
  rintro _ ⟨⟩
  exact h

theorem require {site : Site} {actual expected : Ty} :
    (Checked.require site actual expected).Faults P := nofun

theorem bind {x : Checked ε α} {f : α → Checked ε β} (hx : x.Faults P)
    (hf : ∀ a, (f a).Faults P) : (x >>= f).Faults P := by
  intro e h
  obtain ⟨ms, r⟩ := x
  cases r with
  | error e' =>
    obtain rfl := Except.error.inj h
    exact hx e' rfl
  | ok a => exact hf a e h

theorem mapError {f : ε → ε'} {Q : ε' → Prop} {x : Checked ε α} (hx : x.Faults fun e => Q (f e)) :
    (x.mapError f).Faults Q := by
  intro e' h
  obtain ⟨ms, r⟩ := x
  cases r with
  | error e =>
    obtain rfl := Except.error.inj h
    exact hx e rfl
  | ok a => cases h

end Faults

end Checked

theorem Operator.exists_signature {op : Operator} (h : op.isKnown = true) :
    ∃ operand result, op.signature? = some (operand, result) := by
  cases op <;> first
    | exact ⟨_, _, rfl⟩
    | cases h

theorem Term.infer_expected {ctx : Env Ty} {x : Term} (hx : x.Plain) :
    (x.infer ctx).Faults TypeFault.Expected := by
  induction x generalizing ctx with
  | app func arg ih₁ ih₂ =>
    refine .bind (ih₁ hx.1) fun funcType => .bind (ih₂ hx.2) fun argType => ?_
    cases funcType with
    | fn param result => exact .bind .require fun _ => .pure
    | int | bool | text => exact .fail trivial
  | lam param type body ih => exact .bind (ih hx) fun _ => .pure
  | lit value => exact .pure
  | var name =>
    rw [Term.infer]
    split
    · exact .pure
    · exact .fail trivial
  | bin op left right ih₁ ih₂ =>
    obtain ⟨operand, result, hsig⟩ := Operator.exists_signature hx.1
    rw [Term.infer, hsig]
    exact .bind (ih₁ hx.2.1) fun _ => .bind (ih₂ hx.2.2) fun _ =>
      .bind .require fun _ => .bind .require fun _ => .pure
  | ite cond yes no ih₁ ih₂ ih₃ =>
    exact .bind (ih₁ hx.1) fun _ => .bind .require fun _ => .bind (ih₂ hx.2.1) fun _ =>
      .bind (ih₃ hx.2.2) fun _ => .bind .require fun _ => .pure
  | letIn name bound body ih₁ ih₂ => exact .bind (ih₁ hx.1) fun _ => ih₂ hx.2
  | builtin name => exact hx.elim

theorem Definition.checkAll_expected {ctx : Env Ty} {ds : List Definition}
    (hds : ∀ d ∈ ds, d.body.Plain) :
    (Definition.checkAll ctx ds).Faults fun e => e.fault.Expected := by
  induction ds with
  | nil => exact .pure
  | cons d ds ih =>
    obtain ⟨hd, hds⟩ := List.forall_mem_cons.mp hds
    exact .bind (.bind (.mapError (Term.infer_expected hd)) fun _ => .require) fun _ => ih hds

/-- **Inference of a plain program** ends with an unknown name or what is no function, if at all. -/
theorem Program.infer_expected (registry : Registry) {p : Program} (hp : p.Plain) :
    (p.infer registry).Faults fun e => e.fault.Expected :=
  .bind (Definition.checkAll_expected hp.1) fun _ => .mapError (Term.infer_expected hp.2)

/-! ## Calls of built-ins -/

/-- An argument of a standard built-in is not of the kind of its parameter, which is named after its
position. -/
def BuiltinFault.IsWrongKind (fault : BuiltinFault) : Prop :=
  ∃ b ∈ Registry.standard, ∃ (i : Nat) (type : Ty) (found : Kind),
    b.parameters[i]? = some (argumentName (i + 1), type) ∧ found ≠ type.kind ∧
    fault = .wrongKind b.name type (argumentName (i + 1)) found

/-- The faults of a plain term: no defect, and no other fault of a built-in than an argument of the
wrong kind. -/
structure Fault.Expected (fault : Fault) : Prop where
  isDefect : fault.isDefect = false
  isWrongKind : ∀ f, fault = .builtin f → f.IsWrongKind

namespace Builtin

theorem arguments_of_bound (name : String) {env : Env Value} {params : List (String × Ty)}
    {args : List Value} (hlen : args.length = params.length)
    (hget : ∀ (i : Nat) (v : Value) (p : String × Ty), args[i]? = some v → params[i]? = some p →
      env.get? p.1 = some v) :
    (∀ (i : Nat) (v : Value) (p : String × Ty), args[i]? = some v → params[i]? = some p →
      v.kind = p.2.kind) ∨
    ∃ (i : Nat) (v : Value) (p : String × Ty), args[i]? = some v ∧ params[i]? = some p ∧
      v.kind ≠ p.2.kind ∧
      (∀ j < i, ∀ (w : Value) (q : String × Ty), args[j]? = some w → params[j]? = some q →
        w.kind = q.2.kind) ∧
      arguments name env (params.map (·.1)) (params.map (·.2)) =
        .error (.builtin (.wrongKind name p.2 p.1 v.kind)) := by
  induction params generalizing args with
  | nil => exact .inl fun i v p _ hp => by cases hp
  | cons p params ih =>
    cases args with
    | nil => cases hlen
    | cons v args =>
      have hv := hget 0 v p rfl rfl
      rw [List.map_cons, List.map_cons, arguments, hv]
      by_cases hkind : v.kind = p.2.kind
      · have hfirst : ∀ (w : Value) (q : String × Ty), (v :: args)[0]? = some w →
            (p :: params)[0]? = some q → w.kind = q.2.kind := by
          intro w q hw hq
          obtain rfl := Option.some.inj hw
          obtain rfl := Option.some.inj hq
          exact hkind
        rcases ih (Nat.succ.inj hlen) fun i w q hw hq => hget (i + 1) w q hw hq with
          hrest | ⟨i, w, q, hw, hq, hne, hbefore, herror⟩
        · refine .inl fun i => ?_
          cases i with
          | zero => exact hfirst
          | succ i => exact hrest i
        · refine .inr ⟨i + 1, w, q, hw, hq, hne, fun j hj => ?_, ?_⟩
          · cases j with
            | zero => exact hfirst
            | succ j => exact hbefore j (Nat.lt_of_succ_lt_succ hj)
          · simp only [hkind, herror, if_true]
            rfl
      · refine .inr ⟨0, v, p, rfl, rfl, hkind, fun j hj => absurd hj (Nat.not_lt_zero j), ?_⟩
        simp only [hkind, if_false]

theorem parameter_name {b : Builtin} (harity : ¬ b.arity < 0) {i : Nat} {p : String × Ty}
    (h : b.parameters[i]? = some p) : p.1 = argumentName (i + 1) := by
  obtain ⟨hname, _⟩ := List.getElem?_zip_eq_some.mp h
  rw [argumentNames, List.getElem?_map] at hname
  obtain ⟨j, hj, hp⟩ := Option.map_eq_some_iff.mp hname
  obtain ⟨_, hj⟩ := List.getElem?_eq_some_iff.mp hj
  rw [List.getElem_range] at hj
  rw [← hp, if_neg harity, hj]

theorem call_eq_error {registry : Registry} {b : Builtin} {env : Env Value} {intrinsic : Intrinsic}
    {fault : Fault} (hfind : registry.find? b.name = some b)
    (hintrinsic : Intrinsic.ofName? b.name = some intrinsic) (harity : ¬ b.arity < 0)
    (hargs : arguments b.name env b.argumentNames b.params = .error fault) :
    registry.call env b.name = .error fault := by
  rw [Registry.call, hfind]
  simp only [hintrinsic, harity, if_false, hargs]

theorem standard_cases {b : Builtin} (hb : b ∈ Registry.standard) :
    Registry.standard.find? b.name = some b ∧
    (∃ intrinsic, Intrinsic.ofName? b.name = some intrinsic) ∧ ¬ b.arity < 0 ∧
    (b.parameters.map (·.1)).Nodup ∧ b.parameters.map (·.1) = b.argumentNames ∧
    b.parameters.map (·.2) = b.params := by
  simp only [Registry.standard, List.mem_cons, List.not_mem_nil, or_false] at hb
  rcases hb with rfl | rfl
  · exact ⟨rfl, ⟨_, rfl⟩, by decide, by decide, by decide, by decide⟩
  · exact ⟨rfl, ⟨_, rfl⟩, by decide, by decide, by decide, by decide⟩

/-- **A call of a standard built-in with all its arguments**, of whatever kinds: it has a result
that is no closure, or an argument is of the wrong kind. -/
theorem call_expected {b : Builtin} (hb : b ∈ Registry.standard) {args : List Value}
    (hlen : args.length = b.parameters.length) :
    (∃ w, Registry.standard.call (b.argumentEnv args) b.name = .ok w ∧ w.kind ≠ .closure) ∨
    ∃ fault, Registry.standard.call (b.argumentEnv args) b.name = .error (.builtin fault) ∧
      fault.IsWrongKind := by
  obtain ⟨hfind, ⟨intrinsic, hintrinsic⟩, harity, hnodup, hnames, htypes⟩ := standard_cases hb
  rcases arguments_of_bound b.name hlen fun i v p hv hp =>
    get?_argumentEnv hnodup hlen hv hp with hkind | ⟨i, v, p, _, hp, hne, _, herror⟩
  · obtain ⟨hfn, w, hcall, hw⟩ := call_standard hb hlen hkind
    refine .inl ⟨w, hcall, ?_⟩
    rw [hw]
    cases hresult : b.result with
    | fn a r => rw [hresult] at hfn; cases hfn
    | int | bool | text => nofun
  · rw [hnames, htypes] at herror
    refine .inr
      ⟨_, call_eq_error hfind hintrinsic harity herror, b, hb, i, p.2, v.kind, ?_, hne, ?_⟩
    · rw [hp, ← parameter_name harity hp]
    · rw [← parameter_name harity hp]

end Builtin

/-! ## Safe values -/

/-- A closure has a plain body and captured safe values, or it is a standard built-in that waits for
its next argument. -/
inductive Value.Safe : Value → Prop
  | int {n : Int64} : Safe (.int n)
  | bool {b : Bool} : Safe (.bool b)
  | text {bytes : List UInt8} : Safe (.text bytes)
  | closure {env : Env Value} {param : String} {body : Term} (plain : body.Plain)
      (captured : ∀ name v, env.get? name = some v → Safe v) : Safe (.closure env param body)
  | builtin {b : Builtin} {args : List Value} {v : Value} {t : Ty}
      (registered : b ∈ Registry.standard) (waiting : b.Waiting args v t) : Safe v

theorem Value.Safe.of_kind {v : Value} (h : v.kind ≠ .closure) : v.Safe := by
  cases v with
  | int n => exact .int
  | bool b => exact .bool
  | text bytes => exact .text
  | closure env param body => exact absurd rfl h

def Env.Safe (env : Env Value) : Prop := ∀ name v, env.get? name = some v → v.Safe

theorem Env.Safe.empty : (Env.empty : Env Value).Safe := by
  intro name v h
  rw [get?_empty] at h
  cases h

theorem Env.Safe.insert {env : Env Value} (h : env.Safe) (name : String) {v : Value}
    (hv : v.Safe) : (env.insert name v).Safe := by
  intro other w hw
  rw [get?_insert] at hw
  split at hw
  · obtain rfl := Option.some.inj hw
    exact hv
  · exact h other w hw

/-- A safe closure that is given a safe argument either has a plain body to evaluate or, being a
built-in, does its next step at once. -/
theorem Value.Safe.apply {env : Env Value} {param : String} {body : Term}
    (h : (Value.closure env param body).Safe) {arg : Value} (harg : arg.Safe) :
    (body.Plain ∧ (env.insert param arg).Safe) ∨
    ∀ table eval, (body.step ⟨.standard, table⟩ eval (env.insert param arg)).Ensures Value.Safe
      Fault.Expected := by
  cases h with
  | closure plain captured => exact .inl ⟨plain, Env.Safe.insert captured param harg⟩
  | @builtin b args _ t registered waiting =>
    refine .inr fun table eval => ?_
    obtain ⟨a, r, rfl⟩ : ∃ a r, t = .fn a r := by
      cases waiting
      exact ⟨_, _, rfl⟩
    rcases waiting.step arg with ⟨w, hw, hstep⟩ | ⟨hlen, _, hstep⟩
    · rw [hstep]
      exact .pure (.builtin registered hw)
    · rw [hstep]
      rcases Builtin.call_expected registered hlen with ⟨w, hcall, hw⟩ | ⟨fault, hcall, hwrong⟩
      · exact .ofExcept_ok hcall (.of_kind hw)
      · refine .ofExcept_error hcall ⟨rfl, ?_⟩
        rintro _ ⟨⟩
        exact hwrong

/-! ## Evaluation -/

theorem Operator.apply_cases {op : Operator} (h : op.isKnown = true) (l r : Value) :
    (∃ v, op.apply l r = .ok v ∧ v.kind ≠ .closure) ∨
    ∃ expected, op.apply l r = .error (.operands op expected l.kind r.kind) := by
  cases op with
  | add | sub | mul | eq =>
    simp only [apply, apply.onInts]
    split
    · exact .inl ⟨_, rfl, by rintro ⟨⟩⟩
    · exact .inr ⟨_, rfl⟩
  | or | and =>
    simp only [apply, apply.onBools]
    split
    · exact .inl ⟨_, rfl, by rintro ⟨⟩⟩
    · exact .inr ⟨_, rfl⟩
  | concat =>
    simp only [apply]
    split
    · exact .inl ⟨_, rfl, by rintro ⟨⟩⟩
    · exact .inr ⟨_, rfl⟩
  | unknown _ => cases h

/-- **Evaluation of a plain term**, with any number of levels and under any safe table, gives a safe
value or an expected fault. -/
theorem Term.eval_safe {table : Env Value} {exhausted : Fault} (htable : table.Safe)
    (hexhausted : exhausted.Expected) (n : Nat) {env : Env Value} {x : Term} (henv : env.Safe)
    (hx : x.Plain) :
    (x.eval ⟨.standard, table⟩ exhausted n env).Ensures Value.Safe Fault.Expected := by
  induction n generalizing env x with
  | zero => exact eval_zero_ensures hexhausted
  | succ n ih =>
    apply eval_succ_ensures
    cases x with
    | app func arg =>
      refine .bind (ih henv hx.1) fun f hf => ?_
      cases f with
      | closure captured param body =>
        refine .bind (ih henv hx.2) fun a ha => ?_
        rcases hf.apply ha with ⟨hbody, hinner⟩ | hstep
        · exact ih hinner hbody
        · cases n with
          | zero => exact eval_zero_ensures hexhausted
          | succ n => exact eval_succ_ensures (hstep _ _)
      | int n | bool b | text bytes => exact .fail ⟨rfl, nofun⟩
    | lam param type body => exact .pure (.closure hx henv)
    | lit value => cases value <;> exact .pure (.of_kind nofun)
    | var name =>
      exact Globals.lookup_ensures (henv name) (fun v _ => htable name v)
        fun _ _ => ⟨rfl, nofun⟩
    | bin op left right =>
      refine .bind (ih henv hx.2.1) fun l _ => .bind (ih henv hx.2.2) fun r _ => ?_
      rcases Operator.apply_cases hx.1 l r with ⟨v, hv, hkind⟩ | ⟨expected, hfault⟩
      · exact .ofExcept_ok hv (.of_kind hkind)
      · exact .ofExcept_error hfault ⟨rfl, nofun⟩
    | ite cond yes no =>
      refine .bind (ih henv hx.1) fun c _ => ?_
      split
      · exact ih henv hx.2.1
      · exact ih henv hx.2.2
      · exact .fail ⟨rfl, nofun⟩
    | letIn name bound body =>
      exact .bind (ih henv hx.1) fun b hb => ih (henv.insert name hb) hx.2
    | builtin name => exact hx.elim

/-! ## Programs -/

theorem DepthLimit.exhausted_expected (limit : DepthLimit) : limit.exhausted.Expected := by
  cases limit with
  | levels n => exact ⟨rfl, nofun⟩
  | unlimited fuel => exact ⟨rfl, nofun⟩

theorem Registry.table_standard_safe :
    ∃ table, Registry.standard.table = .ok table ∧ table.Safe := by
  obtain ⟨table, htable, _⟩ := Registry.table_standard
  refine ⟨table, htable, fun name v hv => ?_⟩
  obtain ⟨b, hb, _, hwaiting⟩ := Registry.exists_waiting htable hv
  exact .builtin hb hwaiting

namespace Evaluator

variable {e : Evaluator} {x : Term}

theorem evaluate_safe (he : e.topLevel.Safe) (hx : x.Plain) :
    (∀ v, (e.evaluate .standard .empty x).result = .ok v → v.Safe) ∧
    ∀ fault, (e.evaluate .standard .empty x).result = .error fault → fault.Expected := by
  have hsafe : (x.eval ⟨.standard, e.topLevel⟩ e.limit.exhausted e.limit.depth .empty).Ensures
      Value.Safe Fault.Expected :=
    Term.eval_safe he e.limit.exhausted_expected e.limit.depth Env.Safe.empty hx
  exact ⟨fun v hv => hsafe.of_ok hv, fun fault hfault => hsafe.of_error hfault⟩

theorem define_safe {ds : List Definition} (hds : ∀ d ∈ ds, d.body.Plain) {e' : Evaluator}
    (h : (define .standard e ds).result = .ok e') (he : e.topLevel.Safe) : e'.topLevel.Safe := by
  refine define_keeps (P := fun e => e.topLevel.Safe) h he ?_
  intro d hd e v he hv
  exact he.insert d.name ((evaluate_safe he (hds d hd)).1 v hv)

end Evaluator

/-- **Evaluation of a plain program** ends with an expected fault, if at all. -/
theorem Program.evaluate_expected {p : Program} (hp : p.Plain) (limit : DepthLimit) {e : EvalError}
    (h : (p.evaluate .standard limit).result = .error e) : e.fault.Expected := by
  obtain ⟨table, htable, hsafe⟩ := Registry.table_standard_safe
  have hof := Evaluator.ofDefinitions_of_table htable limit p.definitions
  cases hrun : (Evaluator.ofDefinitions .standard limit p.definitions).result with
  | error err =>
    rw [Program.evaluate_of_error hrun] at h
    obtain rfl := Except.error.inj h
    rw [hof] at hrun
    obtain ⟨before, d, after, e', hsplit, hbefore, hfault, _⟩ := Evaluator.define_eq_error hrun
    have hdefinitions := hp.1
    rw [hsplit, List.forall_mem_append, List.forall_mem_cons] at hdefinitions
    obtain ⟨hearlier, hd, _⟩ := hdefinitions
    have he' := Evaluator.define_safe hearlier hbefore hsafe
    exact (Evaluator.evaluate_safe he' hd).2 _ hfault
  | ok evaluator =>
    rw [Program.evaluate_of_ok hrun] at h
    rw [hof] at hrun
    have hevaluator := Evaluator.define_safe hp.1 hrun hsafe
    cases hmain : (evaluator.evaluate .standard .empty p.main).result with
    | ok v => rw [hmain] at h; cases h
    | error fault =>
      rw [hmain] at h
      obtain rfl := Except.error.inj h
      exact (Evaluator.evaluate_safe hevaluator hp.2).2 fault hmain

/-! ## Runs -/

def ReadError.Expected : ReadError → Prop
  | notOpened _ => True
  | invalid _ _ _ => True
  | failed _ => True
  | crashed _ => False

/-- **Reading a file** never accesses a buffer or a table out of range. -/
theorem Program.ofFile_expected {fs : FileSystem} {name : String} {e : ReadError}
    (h : (Program.ofFile fs name).result = .error e) : e.Expected := by
  cases hopen : Source.openNamed fs name with
  | error _ =>
    rw [Program.ofFile_of_not_open hopen] at h
    cases h
    exact trivial
  | ok file =>
    rw [Program.ofFile_of_open hopen] at h
    simp only [Parsed.program] at h
    split at h
    · cases h
      exact trivial
    · split at h
      · cases h
        exact trivial
      · cases h

/-- The errors of a run, with reading, inference and evaluation free of defects. -/
def RunError.Expected : RunError → Prop
  | reading e => e.Expected
  | typing e => e.fault.Expected
  | evaluation e => e.fault.Expected
  | writing _ => True

theorem Program.run_error_cases {registry : Registry} {limit : DepthLimit}
    {failure : Option WriteFailure} {closes : Nat} {p : Program} {error : RunError}
    (h : (p.run registry limit failure closes).error = some error) :
    (∃ e, (p.infer registry).result = .error e ∧ error = .typing e) ∨
    (∃ e, (p.evaluate registry limit).result = .error e ∧ error = .evaluation e) ∨
    ∃ hostError, error = .writing hostError := by
  simp only [Program.run] at h
  cases hinfer : (p.infer registry).result with
  | error e =>
    simp only [hinfer] at h
    exact .inl ⟨e, rfl, (Option.some.inj h).symm⟩
  | ok type =>
    simp only [hinfer] at h
    split at h
    · exact .inr (.inr ⟨_, (Option.some.inj h).symm⟩)
    · cases hevaluate : (p.evaluate registry limit).result with
      | error e =>
        simp only [hevaluate] at h
        exact .inr (.inl ⟨e, rfl, (Option.some.inj h).symm⟩)
      | ok v =>
        simp only [hevaluate] at h
        split at h
        · exact .inr (.inr ⟨_, (Option.some.inj h).symm⟩)
        · cases h

theorem Program.run_expected {p : Program} (hp : p.Plain) {limit : DepthLimit}
    {failure : Option WriteFailure} {closes : Nat} {error : RunError}
    (h : (p.run .standard limit failure closes).error = some error) : error.Expected := by
  rcases Program.run_error_cases h with ⟨e, hinfer, rfl⟩ | ⟨e, hevaluate, rfl⟩ | ⟨_, rfl⟩
  · exact Program.infer_expected .standard hp e hinfer
  · exact Program.evaluate_expected hp limit hevaluate
  · exact trivial

theorem runFile_of_ok {registry : Registry} {limit : DepthLimit} {failure : Option WriteFailure}
    {fs : FileSystem} {name : String} {p : Program} (h : (Program.ofFile fs name).result = .ok p) :
    runFile registry limit failure fs name =
      p.run registry limit failure (Program.ofFile fs name).closes := by
  rw [runFile]
  simp only [h]

/-- **Safety of runs.** Whatever a file holds, whatever fails in reading or writing, and whatever
the limit, with the standard built-ins: reading accesses its buffer and its table of lines at
indices in range only, and not only in a run but in whatever order tokens are asked for and the file
is closed; inference ends only with an unknown name or a term that is no function, so never at a
marker of a built-in or an unknown operator; evaluation meets no defect of the tree or of the
registry, and a built-in fault is always an argument of another kind than the parameter at its
position. -/
theorem runFile_expected (limit : DepthLimit) (failure : Option WriteFailure) (fs : FileSystem)
    (name : String) :
    (∀ e, (runFile .standard limit failure fs name).error = some e → e.Expected) ∧
    ∀ (file : OpenFile) (calls : List Cursor.Call),
      ∃ replies c, (Cursor.ofFile file >>= fun c => c.performAll calls) = .ok (replies, c) := by
  refine ⟨fun e he => ?_, fun file calls => ?_⟩
  · cases hread : (Program.ofFile fs name).result with
    | ok p =>
      rw [runFile_of_ok hread] at he
      exact Program.run_expected (Program.plain_of_ofFile hread) he
    | error error =>
      rw [runFile] at he
      simp only [hread] at he
      obtain rfl := Option.some.inj he
      exact Program.ofFile_expected hread
  · obtain ⟨c, hc, hrefines⟩ := Cursor.refines_ofFile file
    obtain ⟨c', hcalls, _⟩ := hrefines.performAll calls
    exact ⟨_, c', by rw [hc, Cursor.ok_bind, hcalls]⟩

/-- A function whose parameter is named as that of a built-in calls the built-in with a truth
value. -/
def Program.stringOfBool : Program where
  definitions := []
  main := .app (.lam "param1" .int (.app (.var "int_to_string") (.lit (.bool true))))
    (.lit (.int 5))

theorem runFile_stringOfBool :
    let fault : Fault := .builtin (.wrongKind "int_to_string" .int "param1" .bool)
    (runFile .standard (.levels 100) none (.holding Program.stringOfBool.text) "main.story").error =
      some (.evaluation ⟨none, fault⟩) ∧ fault.Expected := by
  intro fault
  have hwritable : Program.stringOfBool.Writable := by decide +kernel
  have hread := Program.ofFile_text hwritable Source.extensionOf_main
    (FileSystem.openFile_holding _)
  have herror : (runFile .standard (.levels 100) none (.holding Program.stringOfBool.text)
      "main.story").error = some (.evaluation ⟨none, fault⟩) := by
    rw [runFile_of_ok hread]
    rfl
  exact ⟨herror, (runFile_expected _ _ _ _).1 _ herror⟩

end TypedLambda
