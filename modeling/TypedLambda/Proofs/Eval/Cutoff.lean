import Mathlib.Data.Nat.Find
import TypedLambda.Proofs.Eval.Approximation

/-!
# The limit on nesting is a cut-off

An evaluation with fewer levels does what one with more levels does, or stops before it at the first
node that is too deep (`Term.eval_approximates_of_le`). The levels start anew with each definition,
so that whole programs are compared definition by definition (`Program.evaluate_precedes`). What is
comparable in this way has a threshold (`exists_cutBelow`): from there on the limit does not matter,
and below it there is no other outcome than to be too deep.
-/

namespace TypedLambda

/-! ## Fewer and more levels -/

namespace Term

theorem eval_approximates_self (stop : Fault → Prop) (globals : Globals) (exhausted : Fault)
    (n : Nat) (env : Env Value) (x : Term) :
    (x.eval globals exhausted n env).Approximates stop (x.eval globals exhausted n env) := by
  induction n generalizing env x with
  | zero => exact .fail exhausted
  | succ n ih =>
    exact eval_succ_approximates (step_approximates (fun _ _ => .ofExcept _) ih env x)

/-- **Fewer levels** give the outcome of more levels, or use up the levels before. -/
theorem eval_approximates_of_le {n m : Nat} (h : n ≤ m) (globals : Globals)
    (exhausted exhausted' : Fault) (env : Env Value) (x : Term) :
    (x.eval globals exhausted n env).Approximates (· = exhausted)
      (x.eval globals exhausted' m env) := by
  induction n generalizing m env x with
  | zero =>
    have hrecords := (eval_approximates_self (· = exhausted) globals exhausted' m env x).records
    exact ⟨hrecords, fun visited => .inr ⟨exhausted, rfl, rfl, hrecords visited⟩⟩
  | succ n ih =>
    obtain ⟨m, rfl⟩ := Nat.exists_eq_add_one.mpr (Nat.lt_of_lt_of_le n.succ_pos h)
    have hparts := fun env x => ih (Nat.le_of_succ_le_succ h) env x
    exact eval_succ_approximates (step_approximates (fun _ _ => .ofExcept _) hparts env x)

end Term

/-! ## Outcomes that stop early -/

namespace Outcome

variable {ε ε' α β γ : Type} {stop : ε → Prop}

/-- Go on with the result, if there is one. The traces follow one another. -/
def andThen (o : Outcome ε α) (f : α → Outcome ε β) : Outcome ε β :=
  match o.result with
  | .ok a => ⟨o.trace ++ (f a).trace, (f a).result⟩
  | .error e => ⟨o.trace, .error e⟩

def mapError (f : ε → ε') (o : Outcome ε α) : Outcome ε' α := ⟨o.trace, o.result.mapError f⟩

theorem andThen_andThen (o : Outcome ε α) (f : α → Outcome ε β) (g : β → Outcome ε γ) :
    (o.andThen f).andThen g = o.andThen fun a => (f a).andThen g := by
  obtain ⟨trace, r⟩ := o
  cases r with
  | error e => rfl
  | ok a =>
    simp only [andThen]
    cases (f a).result with
    | error e => rfl
    | ok b => simp only [List.append_assoc]

/-- The first outcome is the second, or it stops before it with an error that satisfies `stop`,
having visited first what the second visits first. -/
def Precedes (stop : ε → Prop) (o o' : Outcome ε α) : Prop :=
  o = o' ∨ ∃ e, stop e ∧ o.result = .error e ∧ o.trace <+: o'.trace

theorem Precedes.mapError {stop' : ε' → Prop} {f : ε → ε'} {o o' : Outcome ε α}
    (h : o.Precedes stop o') (hstop : ∀ e, stop e → stop' (f e)) :
    (o.mapError f).Precedes stop' (o'.mapError f) := by
  rcases h with rfl | ⟨e, he, hresult, htrace⟩
  · exact .inl rfl
  · exact .inr ⟨f e, hstop e he, by rw [Outcome.mapError, hresult]; rfl, htrace⟩

theorem trace_prefix_andThen (o : Outcome ε α) (f : α → Outcome ε β) :
    o.trace <+: (o.andThen f).trace := by
  unfold andThen
  split
  · exact List.prefix_append _ _
  · exact List.prefix_rfl

theorem Precedes.andThen {o o' : Outcome ε α} {f f' : α → Outcome ε β} (h : o.Precedes stop o')
    (hf : ∀ a, (f a).Precedes stop (f' a)) : (o.andThen f).Precedes stop (o'.andThen f') := by
  rcases h with rfl | ⟨e, he, hresult, htrace⟩
  · obtain ⟨trace, r⟩ := o
    cases r with
    | error e => exact .inl rfl
    | ok a =>
      rcases hf a with heq | ⟨e, he, hresult, htrace⟩
      · exact .inl (by simp only [Outcome.andThen, heq])
      · exact .inr ⟨e, he, hresult, (List.prefix_append_right_inj trace).mpr htrace⟩
  · have hrun : o.andThen f = ⟨o.trace, .error e⟩ := by simp only [Outcome.andThen, hresult]
    rw [hrun]
    exact .inr ⟨e, he, rfl, htrace.trans (trace_prefix_andThen o' f')⟩

end Outcome

/-! ## Programs under two limits -/

theorem Evaluator.define_cons (registry : Registry) (e : Evaluator) (d : Definition)
    (ds : List Definition) :
    define registry e (d :: ds) =
      ((e.evaluate registry .empty d.body).mapError (⟨some d.name, ·⟩)).andThen fun v =>
        define registry { e with topLevel := e.topLevel.insert d.name v } ds := by
  rw [define, Outcome.andThen, Outcome.mapError]
  cases (e.evaluate registry .empty d.body).result <;> rfl

theorem Program.evaluate_eq_andThen (registry : Registry) (limit : DepthLimit) (p : Program) :
    p.evaluate registry limit =
      (Evaluator.ofDefinitions registry limit p.definitions).andThen fun e =>
        (e.evaluate registry .empty p.main).mapError (⟨none, ·⟩) := by
  rw [Program.evaluate, Outcome.andThen]
  cases (Evaluator.ofDefinitions registry limit p.definitions).result <;> rfl

section

variable {a b : DepthLimit} (hab : a.depth ≤ b.depth)

include hab

theorem Evaluator.evaluate_precedes (table : Env Value) (registry : Registry) (env : Env Value)
    (x : Term) :
    (evaluate ⟨table, a⟩ registry env x).Precedes (· = a.exhausted)
      (evaluate ⟨table, b⟩ registry env x) :=
  (Term.eval_approximates_of_le hab ⟨registry, table⟩ a.exhausted b.exhausted env x).run

theorem Evaluator.define_precedes {registry : Registry} {β : Type}
    {f : Evaluator → Outcome EvalError β}
    (hf : ∀ table, (f ⟨table, a⟩).Precedes (·.fault = a.exhausted) (f ⟨table, b⟩))
    (table : Env Value) (ds : List Definition) :
    ((define registry ⟨table, a⟩ ds).andThen f).Precedes (·.fault = a.exhausted)
      ((define registry ⟨table, b⟩ ds).andThen f) := by
  induction ds generalizing table with
  | nil => exact hf table
  | cons d ds ih =>
    rw [define_cons, define_cons, Outcome.andThen_andThen, Outcome.andThen_andThen]
    have hbody := evaluate_precedes hab table registry .empty d.body
    exact (hbody.mapError fun _ he => he).andThen fun v => ih (table.insert d.name v)

/-- **A program under two limits.** -/
theorem Program.evaluate_precedes (registry : Registry) (p : Program) :
    (p.evaluate registry a).Precedes (·.fault = a.exhausted) (p.evaluate registry b) := by
  rw [Program.evaluate_eq_andThen, Program.evaluate_eq_andThen, Evaluator.ofDefinitions,
    Evaluator.ofDefinitions]
  cases registry.table with
  | error e => exact .inl rfl
  | ok table =>
    refine Evaluator.define_precedes hab (fun table => ?_) table p.definitions
    exact (Evaluator.evaluate_precedes hab table registry .empty p.main).mapError fun _ he => he

end

/-! ## Thresholds -/

/-- The outcome `o` of a computation `run` is cut off below `least` levels. It is the outcome with
that many levels or more, and without a limit if the fuel allows for so many. With fewer levels the
computation is too deep, having visited the beginning of what it visits otherwise. Without a limit
there is no other answer, whatever the fuel. -/
structure CutBelow {ε α : Type} (fault : ε → Fault) (run : DepthLimit → Outcome ε α)
    (o : Outcome ε α) (least : Nat) : Prop where
  pos : 1 ≤ least
  limited : ∀ (fuel : Nat) (m : Int), least ≤ m → run (.ofNumber fuel m) = o
  unlimited : ∀ (fuel : Nat) (m : Int), m ≤ 0 → least ≤ fuel → run (.ofNumber fuel m) = o
  tooDeep : ∀ (fuel : Nat) (m : Int), 1 ≤ m → m < least →
    ∃ e, (run (.ofNumber fuel m)).result = .error e ∧ fault e = .tooDeep ∧
      (run (.ofNumber fuel m)).trace <+: o.trace
  abandoned : ∀ (fuel : Nat) (m : Int), m ≤ 0 → run (.ofNumber fuel m) = o ∨
    ∃ e, (run (.ofNumber fuel m)).result = .error e ∧ fault e = .outOfFuel ∧
      (run (.ofNumber fuel m)).trace <+: o.trace

/-- The computation is not too deep with `k` levels, of which there is one at least. -/
def EndsWithin {ε α : Type} (fault : ε → Fault) (run : DepthLimit → Outcome ε α) (k : Nat) : Prop :=
  1 ≤ k ∧ ∀ e, (run (.levels k)).result = .error e → fault e ≠ .tooDeep

theorem DepthLimit.ofNumber_of_pos {n : Int} (h : 0 < n) (fuel : Nat) :
    ofNumber fuel n = levels n.toNat := by
  rw [ofNumber, if_pos h]

theorem DepthLimit.ofNumber_of_nonpos {n : Int} (h : n ≤ 0) (fuel : Nat) :
    ofNumber fuel n = unlimited fuel := by
  rw [ofNumber, if_neg (Int.not_lt.mpr h)]

section

variable {ε α : Type} {fault : ε → Fault} {run : DepthLimit → Outcome ε α}
  (hrun : ∀ a b : DepthLimit, a.depth ≤ b.depth → (run a).Precedes (fault · = a.exhausted) (run b))

include hrun

theorem eq_of_endsWithin {k : Nat} (hk : EndsWithin fault run k) {b : DepthLimit}
    (hb : k ≤ b.depth) : run b = run (.levels k) := by
  rcases hrun (.levels k) b hb with heq | ⟨e, he, hresult, _⟩
  · exact heq.symm
  · exact absurd he (hk.2 e hresult)

open Classical in
/-- A computation that does under every limit what it does under larger ones, or uses up the limit,
has a threshold if it ends at all. -/
theorem exists_cutBelow {n : Int} (hn : 0 < n) (fuel : Nat)
    (hends : ∀ e, (run (.ofNumber fuel n)).result = .error e → fault e ≠ .tooDeep) :
    ∃ least, CutBelow fault run (run (.ofNumber fuel n)) least := by
  rw [DepthLimit.ofNumber_of_pos hn] at hends ⊢
  have hn' : EndsWithin fault run n.toNat := ⟨by omega, hends⟩
  -- The threshold is the least number of levels at which the computation is not too deep.
  obtain ⟨least, hleast, hle, hmin⟩ : ∃ least, EndsWithin fault run least ∧ least ≤ n.toNat ∧
      ∀ k < least, ¬ EndsWithin fault run k :=
    ⟨Nat.find ⟨_, hn'⟩, Nat.find_spec _, Nat.find_min' _ hn', fun _ => Nat.find_min _⟩
  have ho : run (.levels n.toNat) = run (.levels least) := eq_of_endsWithin hrun hleast hle
  have hpos : 1 ≤ least := hleast.1
  rw [ho]
  refine ⟨least, hpos, ?_, ?_, ?_, ?_⟩
  · intro fuel m hm
    rw [DepthLimit.ofNumber_of_pos (by omega)]
    have hm' : least ≤ m.toNat := by omega
    exact eq_of_endsWithin hrun hleast hm'
  · intro fuel m hm hfuel
    rw [DepthLimit.ofNumber_of_nonpos hm]
    exact eq_of_endsWithin hrun hleast hfuel
  · intro fuel m hm hlt
    rw [DepthLimit.ofNumber_of_pos (by omega)]
    obtain ⟨e, hresult, he⟩ :
        ∃ e, (run (.levels m.toNat)).result = .error e ∧ fault e = .tooDeep := by
      have hm' : 1 ≤ m.toNat := by omega
      simpa [EndsWithin, hm'] using hmin m.toNat (by omega)
    have hlt' : m.toNat ≤ least := by omega
    rcases hrun (.levels m.toNat) (.levels least) hlt' with heq | ⟨_, _, _, htrace⟩
    · exact absurd he (hleast.2 e (heq ▸ hresult))
    · exact ⟨e, hresult, he, htrace⟩
  · intro fuel m hm
    rw [DepthLimit.ofNumber_of_nonpos hm]
    rcases Nat.le_total least fuel with hfuel | hfuel
    · exact .inl (eq_of_endsWithin hrun hleast hfuel)
    · rcases hrun (.unlimited fuel) (.levels least) hfuel with heq | ⟨e, he, hresult, htrace⟩
      · exact .inl heq
      · exact .inr ⟨e, hresult, he, htrace⟩

end

/-- **The limit on nesting is a pure cut-off.** If a term, under any table and in any environment,
ends with a value or a fault under some limit, and the fault is not that of the limit, then there is
a threshold: with at least that many levels, or without a limit, the outcome is the same and so is
the trace; with fewer levels the term is too deep, and its trace is the beginning of that trace. The
same holds for whole programs, whose definitions are evaluated each with all the levels. -/
theorem evaluate_cutBelow (registry : Registry) (fuel : Nat) (n : Int) (hn : 0 < n) :
    (∀ (table env : Env Value) (x : Term),
      (Evaluator.evaluate ⟨table, .ofNumber fuel n⟩ registry env x).result ≠ .error .tooDeep →
      ∃ least, CutBelow id (fun limit => Evaluator.evaluate ⟨table, limit⟩ registry env x)
        (Evaluator.evaluate ⟨table, .ofNumber fuel n⟩ registry env x) least) ∧
    ∀ p : Program,
      (∀ e, (p.evaluate registry (.ofNumber fuel n)).result = .error e → e.fault ≠ .tooDeep) →
      ∃ least, CutBelow EvalError.fault (p.evaluate registry)
        (p.evaluate registry (.ofNumber fuel n)) least := by
  refine ⟨fun table env x hends => ?_, fun p hends => ?_⟩
  · refine exists_cutBelow (fun a b hab => ?_) hn fuel fun e he heq => hends (heq ▸ he)
    exact Evaluator.evaluate_precedes hab table registry env x
  · exact exists_cutBelow (fun a b hab => Program.evaluate_precedes hab registry p) hn fuel hends

/-- A function that calls itself until it comes to zero, applied to three. -/
def Program.countDown : Program where
  definitions := [⟨"down", .fn .int .int, .lam "n" .int
    (.ite (.bin .eq (.var "n") (.lit (.int 0))) (.var "n")
      (.app (.var "down") (.bin .sub (.var "n") (.lit (.int 1)))))⟩]
  main := .app (.var "down") (.lit (.int 3))

theorem evaluate_cutBelow_countDown :
    (0 : Int) < 20 ∧ (Program.countDown.evaluate .standard (.ofNumber 0 20)).result = .ok (.int 0) ∧
    ∃ least, CutBelow EvalError.fault (Program.countDown.evaluate .standard)
      (Program.countDown.evaluate .standard (.ofNumber 0 20)) least ∧ 5 < least := by
  have hresult :
      (Program.countDown.evaluate .standard (.ofNumber 0 20)).result = .ok (.int 0) := rfl
  have hends : ∀ e, (Program.countDown.evaluate .standard (.ofNumber 0 20)).result = .error e →
      e.fault ≠ .tooDeep := by
    intro e he
    rw [hresult] at he
    cases he
  obtain ⟨least, hcut⟩ :=
    (evaluate_cutBelow .standard 0 20 (by decide)).2 Program.countDown hends
  refine ⟨by decide, hresult, least, hcut, Nat.lt_of_not_le fun hle => ?_⟩
  -- With five levels the program is too deep.
  have hsame := hcut.limited 0 5 (by omega)
  have hfault : (Program.countDown.evaluate .standard (.ofNumber 0 5)).result =
      .error ⟨none, .tooDeep⟩ := rfl
  rw [hsame, hresult] at hfault
  cases hfault

end TypedLambda
