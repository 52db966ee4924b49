import TypedLambda.Proofs.Eval.Renaming
import TypedLambda.Proofs.Eval.Scoping

/-!
# Inference and names

Inference does not depend on the names that a term binds, nor on what a context says of names that
are not free in the term. Terms that differ in bound names have the same outcome in contexts that
agree on the free names: the same type or fault, and the same mismatches in the same order
(`Term.Renamed.infer_eq`). In particular the outcome is a function of the types of the free names
(`Term.infer_congr`).
-/

namespace TypedLambda

/-! ## Contexts along a renaming -/

/-- Two contexts give linked names the same type. Names without a type are linked to themselves
only, since a fault mentions them. -/
structure Env.SameTypes (r : Renaming) (ctx₁ ctx₂ : Env Ty) : Prop where
  types : ∀ a b, r.links a b → ctx₁.get? a = ctx₂.get? b
  untyped : ∀ a b, r.links a b → ctx₁.get? a = none → a = b

theorem Env.SameTypes.insert {r : Renaming} {ctx₁ ctx₂ : Env Ty} (h : SameTypes r ctx₁ ctx₂)
    (a b : String) (t : Ty) : SameTypes (r.under a b) (ctx₁.insert a t) (ctx₂.insert b t) := by
  refine ⟨?_, ?_⟩
  · rintro x y (⟨rfl, rfl⟩ | ⟨hx, hy, hxy⟩)
    · simp
    · rw [get?_insert_of_ne hx, get?_insert_of_ne hy]
      exact h.types x y hxy
  · rintro x y (⟨rfl, rfl⟩ | ⟨hx, hy, hxy⟩) hnone
    · simp at hnone
    · rw [get?_insert_of_ne hx] at hnone
      exact h.untyped x y hxy hnone

theorem Env.sameTypes_on {names : List String} {ctx₁ ctx₂ : Env Ty}
    (h : ∀ name ∈ names, ctx₁.get? name = ctx₂.get? name) :
    SameTypes (Renaming.identity.on names) ctx₁ ctx₂ := by
  refine ⟨?_, fun _ _ hab _ => hab.2⟩
  rintro a _ ⟨ha, rfl⟩
  exact h a ha

/-! ## Two inferences side by side -/

/-- The two inferences stay in step: below two binders they go on in contexts that agree along the
renaming there. -/
theorem Term.Renamed.infer_eq {r : Renaming} {x₁ x₂ : Term} {ctx₁ ctx₂ : Env Ty}
    (h : x₁.Renamed (· = ·) r x₂) (hctx : ctx₁.SameTypes r ctx₂) :
    x₁.infer ctx₁ = x₂.infer ctx₂ := by
  induction h generalizing ctx₁ ctx₂ with
  | app _ _ ihFunc ihArg => rw [Term.infer, Term.infer, ihFunc hctx, ihArg hctx]
  | @lam r param₁ param₂ type₁ type₂ body₁ body₂ htype _ ih =>
    subst htype
    rw [Term.infer, Term.infer, ih (hctx.insert param₁ param₂ type₁)]
  | lit => rfl
  | @var r name₁ name₂ hname =>
    have htype := hctx.types name₁ name₂ hname
    rw [Term.infer, Term.infer, ← htype]
    cases hget : ctx₁.get? name₁ with
    | some t => rfl
    | none => rw [hctx.untyped name₁ name₂ hname hget]
  | bin _ _ ihLeft ihRight => rw [Term.infer, Term.infer, ihLeft hctx, ihRight hctx]
  | ite _ _ _ ihCond ihYes ihNo =>
    rw [Term.infer, Term.infer, ihCond hctx, ihYes hctx, ihNo hctx]
  | @letIn r name₁ name₂ bound₁ bound₂ body₁ body₂ _ _ ihBound ihBody =>
    have hbody : ∀ t, body₁.infer (ctx₁.insert name₁ t) = body₂.infer (ctx₂.insert name₂ t) :=
      fun t => ihBody (hctx.insert name₁ name₂ t)
    rw [Term.infer, Term.infer, ihBound hctx]
    simp only [hbody]
  | builtin => rfl

theorem Term.Renamed.refl {annotated : Ty → Ty → Prop} (hannotated : ∀ t, annotated t t)
    {r : Renaming} (x : Term) (hr : ∀ name ∈ x.freeVars, r.links name name) :
    x.Renamed annotated r x := by
  have hunder : ∀ {r : Renaming} {binder : String} {names : List String},
      (∀ name ∈ names.filter (· ≠ binder), r.links name name) →
      ∀ name ∈ names, (r.under binder binder).links name name := by
    intro r binder names hr name hname
    by_cases hbinder : name = binder
    · exact .inl ⟨hbinder, hbinder⟩
    · have hfree : name ∈ names.filter (· ≠ binder) :=
        List.mem_filter.mpr ⟨hname, by simpa using hbinder⟩
      exact .inr ⟨hbinder, hbinder, hr name hfree⟩
  induction x generalizing r with
  | app func arg ihFunc ihArg =>
    obtain ⟨hfunc, harg⟩ := List.forall_mem_append.mp hr
    exact .app (ihFunc hfunc) (ihArg harg)
  | lam param type body ih => exact .lam (hannotated type) (ih (hunder hr))
  | lit value => exact .lit
  | var name => exact .var (hr name List.mem_cons_self)
  | bin op left right ihLeft ihRight =>
    obtain ⟨hleft, hright⟩ := List.forall_mem_append.mp hr
    exact .bin (ihLeft hleft) (ihRight hright)
  | ite cond yes no ihCond ihYes ihNo =>
    obtain ⟨hcond, hbranches⟩ := List.forall_mem_append.mp hr
    obtain ⟨hyes, hno⟩ := List.forall_mem_append.mp hbranches
    exact .ite (ihCond hcond) (ihYes hyes) (ihNo hno)
  | letIn name bound body ihBound ihBody =>
    obtain ⟨hbound, hbody⟩ := List.forall_mem_append.mp hr
    exact .letIn (ihBound hbound) (ihBody (hunder hbody))
  | builtin name => exact .builtin

theorem Term.infer_congr {x : Term} {ctx₁ ctx₂ : Env Ty}
    (h : ∀ name ∈ x.freeVars, ctx₁.get? name = ctx₂.get? name) : x.infer ctx₁ = x.infer ctx₂ := by
  have hx : x.Renamed (· = ·) (Renaming.identity.on x.freeVars) x :=
    .refl (fun _ => rfl) x fun _ hname => ⟨hname, rfl⟩
  exact hx.infer_eq (Env.sameTypes_on h)

/-- **Inference is blind to bound names and to unused ones.** Let two terms differ only in the names
that they bind, and let two contexts agree on their free names, which have the same type in both or
none in either. Then inference has the same outcome for both: the same type or the same fault, and
the same mismatches in the same order. If that outcome is a type, all free names have one. -/
theorem Term.infer_renamed {x₁ x₂ : Term} {ctx₁ ctx₂ : Env Ty}
    (hx : x₁.Renamed (· = ·) .identity x₂)
    (hctx : ∀ name ∈ x₁.freeVars, ctx₁.get? name = ctx₂.get? name) :
    x₁.infer ctx₁ = x₂.infer ctx₂ ∧
      ∀ t, (x₁.infer ctx₁).result = .ok t → ∀ name ∈ x₁.freeVars, (ctx₁.get? name).isSome := by
  have hon : x₁.Renamed (· = ·) (Renaming.identity.on x₁.freeVars) x₂ :=
    hx.restrict fun _ _ ha hab => ⟨ha, hab⟩
  exact ⟨hon.infer_eq (Env.sameTypes_on hctx), fun _ ht => Term.isSome_get?_of_infer ht⟩

/-- The sum of a text from a free function and of a parameter, with names for what it binds. -/
def Term.textPlusNumber (name param : String) : Term :=
  .letIn name (.app (.var "f") (.lit (.bool true)))
    (.lam param .int (.bin .add (.var name) (.var param)))

/-- The two names are exchanged, and the second context has types for them. -/
theorem Term.infer_textPlusNumber :
    let x₁ := Term.textPlusNumber "x" "y"
    let x₂ := Term.textPlusNumber "y" "x"
    let ctx₁ := Env.empty.insert "f" (.fn .bool .text)
    let ctx₂ := ((Env.empty.insert "x" .int).insert "f" (.fn .bool .text)).insert "y" .bool
    (x₁.infer ctx₁ = x₂.infer ctx₂ ∧
      ∀ t, (x₁.infer ctx₁).result = .ok t → ∀ name ∈ x₁.freeVars, (ctx₁.get? name).isSome) ∧
    x₁.infer ctx₁ = ⟨[⟨.leftOperand .add, .int, .text⟩], .ok (.fn .int .int)⟩ := by
  intro x₁ x₂ ctx₁ ctx₂
  have hx : x₁.Renamed (· = ·) .identity x₂ := by
    refine .letIn (.app (.var ?_) .lit) (.lam rfl (.bin (.var ?_) (.var ?_)))
    · rfl
    · exact .inr ⟨by decide, by decide, .inl ⟨rfl, rfl⟩⟩
    · exact .inl ⟨rfl, rfl⟩
  have hctx : ∀ name ∈ x₁.freeVars, ctx₁.get? name = ctx₂.get? name := by decide
  exact ⟨Term.infer_renamed hx hctx, rfl⟩

end TypedLambda
