import TypedLambda.Typing.Checker

/-!
# Checkers only accumulate

Inference on a checker never looks at what is recorded. `Checking.Adds x y` says that the
computation `x` on a checker has the result of `y` and adds the mismatches of `y` to those that are
there, whatever they are. There is one rule for each way to build a computation, so that inference
on a checker adds what `Term.infer` and `Program.infer` find (`Term.inferOn_adds`,
`Program.inferOn_adds`). After any history a call therefore answers as on a fresh checker, and what
is recorded is what fresh checkers would record for the single calls
(`Checker.performAll_accumulates`).
-/

namespace TypedLambda

namespace Checking

variable {ε ε' α β : Type}

theorem bind_of_ok {x : Checking ε α} {f : α → Checking ε β} {c c' : Checker} {a : α}
    (h : x c = (.ok a, c')) : (x >>= f) c = f a c' := by
  simp only [Bind.bind, h]

theorem bind_of_error {x : Checking ε α} {f : α → Checking ε β} {c c' : Checker} {e : ε}
    (h : x c = (.error e, c')) : (x >>= f) c = (.error e, c') := by
  simp only [Bind.bind, h]

/-- On every checker, `x` has the result of `y` and adds the mismatches of `y` at the end. -/
def Adds (x : Checking ε α) (y : Checked ε α) : Prop :=
  ∀ c : Checker, x c = (y.result, ⟨c.recorded ++ y.mismatches⟩)

namespace Adds

theorem pure (a : α) : (Pure.pure a : Checking ε α).Adds (Pure.pure a) := by
  intro c
  show (Except.ok a, c) = (Except.ok a, ⟨c.recorded ++ []⟩)
  rw [List.append_nil]

theorem fail (e : ε) : (Checking.fail e : Checking ε α).Adds (Checked.fail e) := by
  intro c
  show (Except.error e, c) = (Except.error e, ⟨c.recorded ++ []⟩)
  rw [List.append_nil]

theorem require (site : Site) (actual expected : Ty) :
    (Checking.require site actual expected : Checking ε Unit).Adds
      (Checked.require site actual expected) := by
  intro c
  by_cases h : actual = expected
  · simp [Checking.require, Checked.require, h]
  · simp [Checking.require, Checked.require, h, Checker.record]

theorem bind {x : Checking ε α} {y : Checked ε α} {f : α → Checking ε β} {g : α → Checked ε β}
    (hx : x.Adds y) (hf : ∀ a, (f a).Adds (g a)) : (x >>= f).Adds (y >>= g) := by
  intro c
  obtain ⟨ms, r⟩ := y
  have hxc : x c = (r, ⟨c.recorded ++ ms⟩) := hx c
  cases r with
  | error e =>
    -- the fault ends both, and what was recorded before it stays
    exact bind_of_error hxc
  | ok a =>
    rw [bind_of_ok hxc, hf a]
    show _ = ((g a).result, Checker.mk (c.recorded ++ (ms ++ (g a).mismatches)))
    rw [List.append_assoc]

theorem mapError {x : Checking ε α} {y : Checked ε α} (h : x.Adds y) (f : ε → ε') :
    (x.mapError f).Adds (y.mapError f) := by
  intro c
  simp only [Checking.mapError, Checked.mapError, h c]

theorem eq_fresh {x : Checking ε α} {y : Checked ε α} (h : x.Adds y) (c : Checker) :
    x c = ((x .fresh).1, ⟨c.recorded ++ (x .fresh).2.recorded⟩) := by
  have hfresh : x .fresh = (y.result, ⟨y.mismatches⟩) := h .fresh
  rw [h c, hfresh]

end Adds

end Checking

/-! ## Inference on a checker -/

theorem Term.inferOn_adds (ctx : Env Ty) (x : Term) : (x.inferOn ctx).Adds (x.infer ctx) := by
  induction x generalizing ctx with
  | app func arg ihFunc ihArg =>
    refine .bind (ihFunc ctx) fun funcType => .bind (ihArg ctx) fun argType => ?_
    cases funcType with
    | fn param result => exact .bind (.require _ _ _) fun _ => .pure _
    | int | bool | text => exact .fail _
  | lam param type body ih => exact .bind (ih _) fun _ => .pure _
  | lit value => exact .pure _
  | var name =>
    rw [Term.inferOn, Term.infer]
    cases ctx.get? name with
    | some t => exact .pure t
    | none => exact .fail _
  | bin op left right ihLeft ihRight =>
    rw [Term.inferOn, Term.infer]
    cases op.signature? with
    | some sig =>
      exact .bind (ihLeft ctx) fun _ => .bind (ihRight ctx) fun _ =>
        .bind (.require _ _ _) fun _ => .bind (.require _ _ _) fun _ => .pure _
    | none => exact .fail _
  | ite cond yes no ihCond ihYes ihNo =>
    exact .bind (ihCond ctx) fun _ => .bind (.require _ _ _) fun _ => .bind (ihYes ctx) fun _ =>
      .bind (ihNo ctx) fun _ => .bind (.require _ _ _) fun _ => .pure _
  | letIn name bound body ihBound ihBody => exact .bind (ihBound ctx) fun _ => ihBody _
  | builtin name => exact .fail _

theorem Definition.checkAllOn_adds (ctx : Env Ty) (ds : List Definition) :
    (Definition.checkAllOn ctx ds).Adds (Definition.checkAll ctx ds) := by
  induction ds with
  | nil => exact .pure ()
  | cons d ds ih =>
    have hd : (d.checkOn ctx).Adds (d.check ctx) :=
      .bind (.mapError (Term.inferOn_adds ctx d.body) _) fun _ => .require _ _ _
    exact .bind hd fun _ => ih

theorem Program.inferOn_adds (registry : Registry) (p : Program) :
    (p.inferOn registry).Adds (p.infer registry) :=
  .bind (Definition.checkAllOn_adds _ p.definitions) fun _ =>
    .mapError (Term.inferOn_adds _ p.main) _

/-! ## Calls after any history -/

namespace Checker

theorem perform_eq (c : Checker) (call : Call) :
    c.perform call =
      ((fresh.perform call).1, ⟨c.recorded ++ (fresh.perform call).2.recorded⟩) := by
  cases call with
  | term ctx x =>
    simp only [perform]
    rw [(Term.inferOn_adds ctx x).eq_fresh c]
  | program registry p =>
    simp only [perform]
    rw [(Program.inferOn_adds registry p).eq_fresh c]

theorem performAll_eq (c : Checker) (calls : List Call) :
    c.performAll calls =
      (calls.map fun call => (fresh.perform call).1,
        ⟨c.recorded ++ calls.flatMap fun call => (fresh.perform call).2.recorded⟩) := by
  induction calls generalizing c with
  | nil => simp [performAll]
  | cons call calls ih => simp [performAll, perform_eq c call, ih]

/-- **A shared checker only accumulates.** In every sequence of calls on one checker, whether they
end with a type or with a fault, each call answers as it would on a fresh checker. What the checker
has recorded in the end is what fresh checkers would record for the single calls, those that end
with a fault included, one after the other in the order of the calls. -/
theorem performAll_accumulates (calls : List Call) :
    (fresh.performAll calls).1 = calls.map (fun call => (fresh.perform call).1) ∧
    (fresh.performAll calls).2.recorded =
      calls.flatMap fun call => (fresh.perform call).2.recorded := by
  rw [performAll_eq fresh calls]
  exact ⟨rfl, rfl⟩

end Checker

end TypedLambda
