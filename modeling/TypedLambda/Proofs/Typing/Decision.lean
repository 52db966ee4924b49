import TypedLambda.Proofs.Typing.Judgment

/-!
# Inference decides the typing judgment

A term with a type is accepted: inference gives that type and records no mismatch, although it would
go on after one with a type that the term need not have (`Term.HasType.infer_eq`). Together with
`Term.hasType_of_infer` this makes the judgment decidable, and inference being a function, a term
has at most one type.
-/

namespace TypedLambda

/-! ## Accepted parts -/

namespace Checked

variable {ε α β : Type}

theorem accepted_bind (a : α) (f : α → Checked ε β) :
    ((⟨[], .ok a⟩ : Checked ε α) >>= f) = f a := rfl

theorem require_self (site : Site) (t : Ty) :
    (require site t t : Checked ε Unit) = ⟨[], .ok ()⟩ := by
  rw [require, if_pos rfl]

theorem eq_accepted_iff {x : Checked ε α} {a : α} :
    x = ⟨[], .ok a⟩ ↔ x.mismatches = [] ∧ x.result.toOption = some a := by
  obtain ⟨ms, r⟩ := x
  cases r <;> simp [Except.toOption]

end Checked

theorem Operator.HasSignature.signature?_eq {op : Operator} {operand result : Ty}
    (h : op.HasSignature operand result) : op.signature? = some (operand, result) := by
  cases h <;> rfl

/-! ## Typed terms are accepted -/

theorem Term.HasType.infer_eq {ctx : Env Ty} {x : Term} {t : Ty} (h : x.HasType ctx t) :
    x.infer ctx = ⟨[], .ok t⟩ := by
  induction h with
  | app _ _ ihFunc ihArg =>
    rw [Term.infer, ihFunc, Checked.accepted_bind, ihArg, Checked.accepted_bind]
    show (Checked.require _ _ _ >>= _) = _
    rw [Checked.require_self, Checked.accepted_bind]
    rfl
  | lam _ ih =>
    rw [Term.infer, ih, Checked.accepted_bind]
    rfl
  | int | bool | text => rfl
  | var hget =>
    rw [Term.infer, hget]
    rfl
  | bin hsig _ _ ihLeft ihRight =>
    rw [Term.infer, hsig.signature?_eq]
    show (Term.infer _ _ >>= _) = _
    rw [ihLeft, Checked.accepted_bind, ihRight, Checked.accepted_bind, Checked.require_self,
      Checked.accepted_bind, Checked.require_self, Checked.accepted_bind]
    rfl
  | ite _ _ _ ihCond ihYes ihNo =>
    rw [Term.infer, ihCond, Checked.accepted_bind, Checked.require_self, Checked.accepted_bind,
      ihYes, Checked.accepted_bind, ihNo, Checked.accepted_bind, Checked.require_self,
      Checked.accepted_bind]
    rfl
  | letIn _ _ ihBound ihBody => rw [Term.infer, ihBound, Checked.accepted_bind, ihBody]

theorem Term.HasType.unique {ctx : Env Ty} {x : Term} {t t' : Ty} (h : x.HasType ctx t)
    (h' : x.HasType ctx t') : t = t' := by
  have heq : (⟨[], .ok t⟩ : Checked TypeFault Ty) = ⟨[], .ok t'⟩ :=
    h.infer_eq.symm.trans h'.infer_eq
  exact Except.ok.inj (congrArg Checked.result heq)

/-! ## Decision -/

instance Term.decidableHasType (ctx : Env Ty) (x : Term) (t : Ty) : Decidable (x.HasType ctx t) :=
  decidable_of_iff ((x.infer ctx).mismatches = [] ∧ (x.infer ctx).result.toOption = some t)
    ⟨fun h => Term.hasType_of_infer (Checked.eq_accepted_iff.mpr h),
      fun h => Checked.eq_accepted_iff.mp h.infer_eq⟩

-- The bound term of the `let` sees the outer name and its body the inner one.
example : (Term.letIn "x" (.bin .eq (.var "x") (.var "x")) (.lam "y" .int (.var "x"))).HasType
    (Env.empty.insert "x" .int) (.fn .int .bool) := by decide

-- Inference goes on with the type of the first branch, which the term does not have.
example : ¬ (Term.ite (.lit (.bool true)) (.lit (.int 1)) (.lit (.text []))).HasType .empty
    .int := by decide

/-- **Inference decides the typing judgment.** In every context, a term is accepted with a type and
without a mismatch exactly if it has that type by the rules. A term has at most one type, so one
that has a type is accepted with no other. -/
theorem Term.infer_accepts_iff (ctx : Env Ty) (x : Term) :
    (∀ t, x.infer ctx = ⟨[], .ok t⟩ ↔ x.HasType ctx t) ∧
    ∀ t, x.HasType ctx t → ∀ t', x.HasType ctx t' → t' = t :=
  ⟨fun _ => ⟨Term.hasType_of_infer, Term.HasType.infer_eq⟩, fun _ h _ h' => h'.unique h⟩

end TypedLambda
