import TypedLambda.Proofs.Eval.Ensures

/-!
# Evaluations that stop early

`x.Approximates stop y` says that the traced computation `x` does what `y` does, or ends before it
with a fault that satisfies `stop`, having visited first what `y` visits first. There is one rule
for each way to build a computation. A node approximates another evaluation of the same node if its
parts and its look-ups do (`Term.step_approximates`), so that a statement about two evaluations of
one term is a statement about look-ups and levels.
-/

namespace TypedLambda

namespace Traced

variable {α β : Type}

/-- Each run of the first computation is that of the second or stops short of it. -/
structure Approximates (stop : Fault → Prop) (x y : Traced α) : Prop where
  /-- The second computation keeps the record and only adds to it. -/
  records : ∀ visited, visited <:+ (y visited).2
  eq_or_stops : ∀ visited, x visited = y visited ∨
    ∃ fault, stop fault ∧ (x visited).1 = .error fault ∧ (x visited).2 <:+ (y visited).2

namespace Approximates

variable {stop : Fault → Prop}

theorem ofExcept (r : Except Fault α) :
    (Traced.ofExcept r).Approximates stop (Traced.ofExcept r) :=
  ⟨fun visited => List.suffix_refl visited, fun _ => .inl rfl⟩

theorem pure (a : α) : (Pure.pure a : Traced α).Approximates stop (Pure.pure a) :=
  ofExcept (.ok a)

theorem fail (e : Fault) : (Traced.fail e : Traced α).Approximates stop (Traced.fail e) :=
  ofExcept (.error e)

theorem ofExcept_error {fault : Fault} (h : stop fault) (r : Except Fault α) :
    (Traced.ofExcept (.error fault)).Approximates stop (Traced.ofExcept r) :=
  ⟨fun visited => List.suffix_refl visited,
    fun visited => .inr ⟨fault, h, rfl, List.suffix_refl visited⟩⟩

theorem bind {x y : Traced β} {f g : β → Traced α} (h : x.Approximates stop y)
    (hf : ∀ b, (f b).Approximates stop (g b)) : (x >>= f).Approximates stop (y >>= g) := by
  have hrecords : ∀ visited, (y visited).2 <:+ ((y >>= g) visited).2 := by
    intro visited
    rcases hy : y visited with ⟨r, visited'⟩
    cases r with
    | ok b =>
      rw [bind_of_ok hy]
      exact (hf b).records visited'
    | error e =>
      have hrun : (y >>= g) visited = (.error e, visited') := bind_of_error hy
      exact hrun ▸ List.suffix_refl visited'
  refine ⟨fun visited => (h.records visited).trans (hrecords visited), fun visited => ?_⟩
  rcases h.eq_or_stops visited with heq | ⟨fault, hstop, hfault, hsuffix⟩
  · rcases hy : y visited with ⟨r, visited'⟩
    rw [hy] at heq
    cases r with
    | ok b =>
      rw [bind_of_ok hy, bind_of_ok heq]
      exact (hf b).eq_or_stops visited'
    | error e =>
      rw [bind_of_error hy, bind_of_error heq]
      exact .inl rfl
  · have hx : x visited = (.error fault, (x visited).2) := by rw [← hfault]
    rw [bind_of_error hx]
    exact .inr ⟨fault, hstop, rfl, hsuffix.trans (hrecords visited)⟩

/-- Whole runs: the outcome is the same, or the first trace is the beginning of the second. -/
theorem run {x y : Traced α} (h : x.Approximates stop y) :
    x.run = y.run ∨
      ∃ fault, stop fault ∧ x.run.result = .error fault ∧ x.run.trace <+: y.run.trace := by
  rcases h.eq_or_stops [] with heq | ⟨fault, hstop, hfault, hsuffix⟩
  · exact .inl (by rw [Traced.run, Traced.run, heq])
  · exact .inr ⟨fault, hstop, hfault, List.reverse_prefix.mpr hsuffix⟩

end Approximates

end Traced

/-! ## Nodes and levels -/

namespace Term

variable {stop : Fault → Prop} {registry : Registry} {table table' : Env Value}

theorem step_approximates
    (hlookup : ∀ env name,
      (Traced.ofExcept (Globals.lookup ⟨registry, table⟩ env name)).Approximates stop
        (Traced.ofExcept (Globals.lookup ⟨registry, table'⟩ env name)))
    {eval eval' : Env Value → Term → Traced Value}
    (heval : ∀ env x, (eval env x).Approximates stop (eval' env x)) (env : Env Value) (x : Term) :
    (x.step ⟨registry, table⟩ eval env).Approximates stop
      (x.step ⟨registry, table'⟩ eval' env) := by
  cases x with
  | app func arg =>
    refine .bind (heval env func) fun f => ?_
    cases f with
    | closure captured param body => exact .bind (heval env arg) fun a => heval _ body
    | int n => exact .fail _
    | bool b => exact .fail _
    | text bytes => exact .fail _
  | lam param type body => exact .pure _
  | lit value => exact .pure _
  | var name => exact hlookup env name
  | bin op left right =>
    exact .bind (heval env left) fun l => .bind (heval env right) fun r => .ofExcept _
  | ite cond yes no =>
    refine .bind (heval env cond) fun c => ?_
    split
    · exact heval env yes
    · exact heval env no
    · exact .fail _
  | letIn name bound body => exact .bind (heval env bound) fun b => heval _ body
  | builtin name => exact .ofExcept _

theorem eval_succ_approximates {globals globals' : Globals} {exhausted exhausted' : Fault}
    {n m : Nat} {env : Env Value} {x : Term}
    (h : (x.step globals (eval globals exhausted n) env).Approximates stop
      (x.step globals' (eval globals' exhausted' m) env)) :
    (x.eval globals exhausted (n + 1) env).Approximates stop
      (x.eval globals' exhausted' (m + 1) env) := by
  refine ⟨fun visited => ?_, fun visited => ?_⟩
  · rw [eval_succ]
    exact (List.suffix_cons x visited).trans (h.records (x :: visited))
  · rw [eval_succ, eval_succ]
    exact h.eq_or_stops (x :: visited)

end Term

end TypedLambda
