import TypedLambda.Typing

/-!
# The typing judgment

`Term.HasType ctx x t` says by rules what inference computes: the term `x` has the type `t` in the
context `ctx`. A term that inference accepts without a mismatch has the type it infers
(`Term.hasType_of_infer`), and a program accepted in this way has well typed definitions and a well
typed main term (`Program.hasType_of_infer`).
-/

namespace TypedLambda

/-! ## The rules -/

/-- The types of an operator: that of both operands and that of the result. -/
inductive Operator.HasSignature : Operator → Ty → Ty → Prop
  | add : HasSignature .add .int .int
  | sub : HasSignature .sub .int .int
  | mul : HasSignature .mul .int .int
  | eq : HasSignature .eq .int .bool
  | or : HasSignature .or .bool .bool
  | and : HasSignature .and .bool .bool
  | concat : HasSignature .concat .text .text

/-- The typing rules. The marker of a built-in and an unknown operator have none. -/
inductive Term.HasType : Env Ty → Term → Ty → Prop
  | app {ctx : Env Ty} {func arg : Term} {a r : Ty} :
      HasType ctx func (.fn a r) → HasType ctx arg a → HasType ctx (.app func arg) r
  | lam {ctx : Env Ty} {param : String} {a r : Ty} {body : Term} :
      HasType (ctx.insert param a) body r → HasType ctx (.lam param a body) (.fn a r)
  | int {ctx : Env Ty} {n : Int64} : HasType ctx (.lit (.int n)) .int
  | bool {ctx : Env Ty} {b : Bool} : HasType ctx (.lit (.bool b)) .bool
  | text {ctx : Env Ty} {bytes : List UInt8} : HasType ctx (.lit (.text bytes)) .text
  | var {ctx : Env Ty} {name : String} {t : Ty} :
      ctx.get? name = some t → HasType ctx (.var name) t
  | bin {ctx : Env Ty} {op : Operator} {left right : Term} {operand result : Ty} :
      op.HasSignature operand result → HasType ctx left operand → HasType ctx right operand →
      HasType ctx (.bin op left right) result
  | ite {ctx : Env Ty} {cond yes no : Term} {t : Ty} :
      HasType ctx cond .bool → HasType ctx yes t → HasType ctx no t →
      HasType ctx (.ite cond yes no) t
  | letIn {ctx : Env Ty} {name : String} {bound body : Term} {s t : Ty} :
      HasType ctx bound s → HasType (ctx.insert name s) body t →
      HasType ctx (.letIn name bound body) t

/-- A program has a type: each definition has its declared type and the main term has that type,
all in the context of the whole program. -/
structure Program.HasType (registry : Registry) (p : Program) (t : Ty) : Prop where
  definitions : ∀ d ∈ p.definitions, d.body.HasType (p.context registry) d.type
  main : p.main.HasType (p.context registry) t

/-! ## Accepted computations -/

namespace Checked

variable {ε ε' α β : Type}

theorem bind_eq_accepted {x : Checked ε α} {f : α → Checked ε β} {b : β}
    (h : x >>= f = ⟨[], .ok b⟩) : ∃ a, x = ⟨[], .ok a⟩ ∧ f a = ⟨[], .ok b⟩ := by
  obtain ⟨ms, r⟩ := x
  cases r with
  | error e => exact absurd (congrArg Checked.result h) (by simp [bind])
  | ok a =>
    change (⟨ms ++ (f a).mismatches, (f a).result⟩ : Checked ε β) = ⟨[], .ok b⟩ at h
    rw [Checked.mk.injEq, List.append_eq_nil_iff] at h
    obtain ⟨⟨rfl, hms⟩, hr⟩ := h
    exact ⟨a, rfl, by rw [← hms, ← hr]⟩

theorem require_eq_accepted {site : Site} {actual expected : Ty} {u : Unit}
    (h : (require site actual expected : Checked ε Unit) = ⟨[], .ok u⟩) : actual = expected := by
  by_cases heq : actual = expected
  · exact heq
  · have hms := congrArg Checked.mismatches h
    simp [require, heq] at hms

theorem mapError_eq_accepted {f : ε → ε'} {x : Checked ε α} {a : α}
    (h : x.mapError f = ⟨[], .ok a⟩) : x = ⟨[], .ok a⟩ := by
  obtain ⟨ms, r⟩ := x
  rw [mapError, Checked.mk.injEq] at h
  obtain ⟨rfl, hr⟩ := h
  cases r with
  | error e => cases hr
  | ok b => rw [show b = a from Except.ok.inj hr]

theorem pure_eq_accepted {a b : α} (h : (pure a : Checked ε α) = ⟨[], .ok b⟩) : a = b :=
  Except.ok.inj (congrArg Checked.result h)

end Checked

/-! ## Inference follows the rules -/

theorem Operator.hasSignature_of_signature? {op : Operator} {operand result : Ty}
    (h : op.signature? = some (operand, result)) : op.HasSignature operand result := by
  cases op <;> simp only [signature?, Option.some.injEq, Prod.mk.injEq, reduceCtorEq] at h <;>
    obtain ⟨rfl, rfl⟩ := h <;> constructor

theorem Term.hasType_of_infer {ctx : Env Ty} {x : Term} {t : Ty}
    (h : x.infer ctx = ⟨[], .ok t⟩) : x.HasType ctx t := by
  induction x generalizing ctx t with
  | app func arg ihFunc ihArg =>
    obtain ⟨funcType, hfunc, h⟩ := Checked.bind_eq_accepted h
    obtain ⟨argType, harg, h⟩ := Checked.bind_eq_accepted h
    cases funcType with
    | fn a r =>
      obtain ⟨_, hreq, h⟩ := Checked.bind_eq_accepted h
      obtain rfl := Checked.pure_eq_accepted h
      obtain rfl := Checked.require_eq_accepted hreq
      exact .app (ihFunc hfunc) (ihArg harg)
    | _ => cases h
  | lam param type body ih =>
    obtain ⟨bodyType, hbody, h⟩ := Checked.bind_eq_accepted h
    obtain rfl := Checked.pure_eq_accepted h
    exact .lam (ih hbody)
  | lit value =>
    obtain rfl := Checked.pure_eq_accepted h
    cases value <;> constructor
  | var name =>
    rw [Term.infer] at h
    cases hget : ctx.get? name with
    | none => rw [hget] at h; cases h
    | some s =>
      rw [hget] at h
      obtain rfl := Checked.pure_eq_accepted h
      exact .var hget
  | bin op left right ihLeft ihRight =>
    rw [Term.infer] at h
    cases hsig : op.signature? with
    | none => rw [hsig] at h; cases h
    | some sig =>
      obtain ⟨operand, result⟩ := sig
      rw [hsig] at h
      obtain ⟨leftType, hleft, h⟩ := Checked.bind_eq_accepted h
      obtain ⟨rightType, hright, h⟩ := Checked.bind_eq_accepted h
      obtain ⟨_, hreqLeft, h⟩ := Checked.bind_eq_accepted h
      obtain ⟨_, hreqRight, h⟩ := Checked.bind_eq_accepted h
      obtain rfl := Checked.pure_eq_accepted h
      obtain rfl := Checked.require_eq_accepted hreqLeft
      obtain rfl := Checked.require_eq_accepted hreqRight
      exact .bin (Operator.hasSignature_of_signature? hsig) (ihLeft hleft) (ihRight hright)
  | ite cond yes no ihCond ihYes ihNo =>
    obtain ⟨condType, hcond, h⟩ := Checked.bind_eq_accepted h
    obtain ⟨_, hreqCond, h⟩ := Checked.bind_eq_accepted h
    obtain ⟨yesType, hyes, h⟩ := Checked.bind_eq_accepted h
    obtain ⟨noType, hno, h⟩ := Checked.bind_eq_accepted h
    obtain ⟨_, hreqNo, h⟩ := Checked.bind_eq_accepted h
    obtain rfl := Checked.pure_eq_accepted h
    obtain rfl := Checked.require_eq_accepted hreqCond
    obtain rfl := Checked.require_eq_accepted hreqNo
    exact .ite (ihCond hcond) (ihYes hyes) (ihNo hno)
  | letIn name bound body ihBound ihBody =>
    obtain ⟨boundType, hbound, h⟩ := Checked.bind_eq_accepted h
    exact .letIn (ihBound hbound) (ihBody h)
  | builtin name => cases h

theorem Definition.hasType_of_checkAll {ctx : Env Ty} {ds : List Definition} {u : Unit}
    (h : Definition.checkAll ctx ds = ⟨[], .ok u⟩) : ∀ d ∈ ds, d.body.HasType ctx d.type := by
  induction ds generalizing u with
  | nil => simp
  | cons d ds ih =>
    obtain ⟨_, hd, hds⟩ := Checked.bind_eq_accepted h
    obtain ⟨t, hbody, hreq⟩ := Checked.bind_eq_accepted hd
    obtain rfl := Checked.require_eq_accepted hreq
    intro e he
    rcases List.mem_cons.mp he with rfl | he
    · exact Term.hasType_of_infer (Checked.mapError_eq_accepted hbody)
    · exact ih hds e he

theorem Program.hasType_of_infer {registry : Registry} {p : Program} {t : Ty}
    (h : p.infer registry = ⟨[], .ok t⟩) : p.HasType registry t := by
  obtain ⟨_, hds, hmain⟩ := Checked.bind_eq_accepted h
  exact ⟨Definition.hasType_of_checkAll hds,
    Term.hasType_of_infer (Checked.mapError_eq_accepted hmain)⟩

end TypedLambda
