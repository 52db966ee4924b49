import TypedLambda.Proofs.Eval.Ensures

/-!
# Lexical scoping

Names that a term binds are of no consequence. `Term.Renamed` relates two terms that differ in such
names, and `Value.Equiv` two values: closures are equivalent if their bodies are related by a
renaming along which their environments agree. Evaluating related terms in environments that agree
gives equivalent values or the same fault, and visits the same kinds of nodes in the same order
(`Evaluator.evaluate_renamed`).

The proof is a simulation. `Term.Alike` is what the two evaluations have in common before each node,
`Term.Alike.node` hands it down to the parts of the node, and `Term.eval_matches` runs it over the
levels.
-/

namespace TypedLambda

/-! ## Terms up to the names they bind -/

/-- A correspondence between the names of two terms: a name on either side has at most one partner
on the other. -/
structure Renaming where
  links : String → String → Prop
  consistent : ∀ {a b c d : String}, links a b → links c d → (a = c ↔ b = d)

namespace Renaming

def identity : Renaming where
  links a b := a = b
  consistent hab hcd := by rw [hab, hcd]

/-- The correspondence below two binders, which hide what their names stood for before. -/
def under (r : Renaming) (a b : String) : Renaming where
  links x y := (x = a ∧ y = b) ∨ (x ≠ a ∧ y ≠ b ∧ r.links x y)
  consistent := by
    rintro x y x' y' (⟨rfl, rfl⟩ | ⟨hx, hy, hxy⟩) (⟨rfl, rfl⟩ | ⟨hx', hy', hxy'⟩)
    · exact ⟨fun _ => rfl, fun _ => rfl⟩
    · exact ⟨fun h => absurd h.symm hx', fun h => absurd h.symm hy'⟩
    · exact ⟨fun h => absurd h hx, fun h => absurd h hy⟩
    · exact r.consistent hxy hxy'

def on (r : Renaming) (names : List String) : Renaming where
  links x y := x ∈ names ∧ r.links x y
  consistent h h' := r.consistent h.2 h'.2

end Renaming

/-- The second term is the first with other names for what it binds; free names are renamed along
`r`, and the annotations of parameters are related by `annotated`. -/
inductive Term.Renamed (annotated : Ty → Ty → Prop) : Renaming → Term → Term → Prop
  | app {r : Renaming} {func₁ func₂ arg₁ arg₂ : Term} :
      Renamed annotated r func₁ func₂ → Renamed annotated r arg₁ arg₂ →
      Renamed annotated r (.app func₁ arg₁) (.app func₂ arg₂)
  | lam {r : Renaming} {param₁ param₂ : String} {type₁ type₂ : Ty} {body₁ body₂ : Term} :
      annotated type₁ type₂ → Renamed annotated (r.under param₁ param₂) body₁ body₂ →
      Renamed annotated r (.lam param₁ type₁ body₁) (.lam param₂ type₂ body₂)
  | lit {r : Renaming} {value : Literal} : Renamed annotated r (.lit value) (.lit value)
  | var {r : Renaming} {name₁ name₂ : String} :
      r.links name₁ name₂ → Renamed annotated r (.var name₁) (.var name₂)
  | bin {r : Renaming} {op : Operator} {left₁ left₂ right₁ right₂ : Term} :
      Renamed annotated r left₁ left₂ → Renamed annotated r right₁ right₂ →
      Renamed annotated r (.bin op left₁ right₁) (.bin op left₂ right₂)
  | ite {r : Renaming} {cond₁ cond₂ yes₁ yes₂ no₁ no₂ : Term} :
      Renamed annotated r cond₁ cond₂ → Renamed annotated r yes₁ yes₂ →
      Renamed annotated r no₁ no₂ →
      Renamed annotated r (.ite cond₁ yes₁ no₁) (.ite cond₂ yes₂ no₂)
  | letIn {r : Renaming} {name₁ name₂ : String} {bound₁ bound₂ body₁ body₂ : Term} :
      Renamed annotated r bound₁ bound₂ → Renamed annotated (r.under name₁ name₂) body₁ body₂ →
      Renamed annotated r (.letIn name₁ bound₁ body₁) (.letIn name₂ bound₂ body₂)
  | builtin {r : Renaming} {name : String} :
      Renamed annotated r (.builtin name) (.builtin name)

theorem Term.Renamed.restrict {annotated : Ty → Ty → Prop} {r r' : Renaming} {x₁ x₂ : Term}
    (h : x₁.Renamed annotated r x₂)
    (hr : ∀ a b, a ∈ x₁.freeVars → r.links a b → r'.links a b) : x₁.Renamed annotated r' x₂ := by
  -- below a binder, a free name other than the bound one is free above it
  have hunder : ∀ {r r' : Renaming} {name₁ name₂ : String} {names : List String},
      (∀ a b, a ∈ names.filter (· ≠ name₁) → r.links a b → r'.links a b) →
      ∀ a b, a ∈ names → (r.under name₁ name₂).links a b → (r'.under name₁ name₂).links a b := by
    rintro r r' name₁ name₂ names hr a b ha (hbound | ⟨hne₁, hne₂, hab⟩)
    · exact .inl hbound
    · exact .inr ⟨hne₁, hne₂, hr a b (List.mem_filter.mpr ⟨ha, by simpa using hne₁⟩) hab⟩
  induction h generalizing r' with
  | app _ _ ihFunc ihArg =>
    exact .app (ihFunc fun a b ha => hr a b (List.mem_append_left _ ha))
      (ihArg fun a b ha => hr a b (List.mem_append_right _ ha))
  | lam htype _ ih => exact .lam htype (ih (hunder hr))
  | lit => exact .lit
  | var hab => exact .var (hr _ _ List.mem_cons_self hab)
  | bin _ _ ihLeft ihRight =>
    exact .bin (ihLeft fun a b ha => hr a b (List.mem_append_left _ ha))
      (ihRight fun a b ha => hr a b (List.mem_append_right _ ha))
  | ite _ _ _ ihCond ihYes ihNo =>
    exact .ite (ihCond fun a b ha => hr a b (List.mem_append_left _ ha))
      (ihYes fun a b ha => hr a b (List.mem_append_right _ (List.mem_append_left _ ha)))
      (ihNo fun a b ha => hr a b (List.mem_append_right _ (List.mem_append_right _ ha)))
  | letIn _ _ ihBound ihBody =>
    exact .letIn (ihBound fun a b ha => hr a b (List.mem_append_left _ ha))
      (ihBody (hunder fun a b ha => hr a b (List.mem_append_right _ ha)))
  | builtin => exact .builtin

def Term.MarkerFree : Term → Prop
  | app func arg => func.MarkerFree ∧ arg.MarkerFree
  | lam _ _ body => body.MarkerFree
  | lit _ => True
  | var _ => True
  | bin _ left right => left.MarkerFree ∧ right.MarkerFree
  | ite cond yes no => cond.MarkerFree ∧ yes.MarkerFree ∧ no.MarkerFree
  | letIn _ bound body => bound.MarkerFree ∧ body.MarkerFree
  | builtin _ => False

inductive Term.Form where
  | app
  | lam
  | lit
  | var
  | bin
  | ite
  | letIn
  | builtin
deriving DecidableEq

def Term.form : Term → Form
  | app _ _ => .app
  | lam _ _ _ => .lam
  | lit _ => .lit
  | var _ => .var
  | bin _ _ _ => .bin
  | ite _ _ _ => .ite
  | letIn _ _ _ => .letIn
  | builtin _ => .builtin

/-! ## Values up to the names they bind -/

/-- The same number, truth value or text, or functions that do the same. Functions of a program have
bodies that differ in the names they bind, those of the captured values included. A marker reads the
names of its arguments, so that the body around one has to be the same body. -/
inductive Value.Equiv : Value → Value → Prop
  | int {n : Int64} : Equiv (.int n) (.int n)
  | bool {b : Bool} : Equiv (.bool b) (.bool b)
  | text {bytes : List UInt8} : Equiv (.text bytes) (.text bytes)
  /-- The environments agree along `r`: of two linked names both or none are bound, to equivalent
  values, and names that are not bound are the same. -/
  | renamed {r : Renaming} {env₁ env₂ : Env Value} {param₁ param₂ : String} {body₁ body₂ : Term}
      (markerFree : body₁.MarkerFree)
      (bodies : body₁.Renamed (fun _ _ => True) (r.under param₁ param₂) body₂)
      (bound : ∀ a b, r.links a b → ((env₁.get? a).isSome ↔ (env₂.get? b).isSome))
      (unbound : ∀ a b, r.links a b → env₁.get? a = none → a = b)
      (values : ∀ a b v w, r.links a b → env₁.get? a = some v → env₂.get? b = some w →
        Equiv v w) :
      Equiv (.closure env₁ param₁ body₁) (.closure env₂ param₂ body₂)
  | same {env₁ env₂ : Env Value} {param : String} {body : Term}
      (bound : ∀ a, (env₁.get? a).isSome ↔ (env₂.get? a).isSome)
      (values : ∀ a v w, env₁.get? a = some v → env₂.get? a = some w → Equiv v w) :
      Equiv (.closure env₁ param body) (.closure env₂ param body)

/-- The environments agree along a renaming. -/
structure Env.Agree (r : Renaming) (env₁ env₂ : Env Value) : Prop where
  bound : ∀ a b, r.links a b → ((env₁.get? a).isSome ↔ (env₂.get? b).isSome)
  unbound : ∀ a b, r.links a b → env₁.get? a = none → a = b
  values : ∀ a b v w, r.links a b → env₁.get? a = some v → env₂.get? b = some w → v.Equiv w

namespace Env.Agree

variable {r r' : Renaming} {env₁ env₂ : Env Value}

/-- Linked names are bound to equivalent values, or they are one name that neither binds. -/
theorem get? (h : Agree r env₁ env₂) {a b : String} (hab : r.links a b) :
    (∃ v w, env₁.get? a = some v ∧ env₂.get? b = some w ∧ v.Equiv w) ∨
      (a = b ∧ env₁.get? a = none ∧ env₂.get? b = none) := by
  have hbound := h.bound a b hab
  cases hv : env₁.get? a with
  | some v =>
    rw [hv] at hbound
    obtain ⟨w, hw⟩ := Option.isSome_iff_exists.mp (hbound.mp rfl)
    exact .inl ⟨v, w, rfl, hw, h.values a b v w hab hv hw⟩
  | none =>
    cases hw : env₂.get? b with
    | some w =>
      rw [hv, hw] at hbound
      cases hbound.mpr rfl
    | none => exact .inr ⟨h.unbound a b hab hv, rfl, rfl⟩

theorem insert (h : Agree r env₁ env₂) (a b : String) {v w : Value} (hvw : v.Equiv w) :
    Agree (r.under a b) (env₁.insert a v) (env₂.insert b w) := by
  refine ⟨?_, ?_, ?_⟩
  · rintro x y (⟨rfl, rfl⟩ | ⟨hx, hy, hxy⟩)
    · rw [get?_insert_self, get?_insert_self]
      exact Iff.rfl
    · rw [get?_insert_of_ne hx, get?_insert_of_ne hy]
      exact h.bound x y hxy
  · rintro x y (⟨rfl, rfl⟩ | ⟨hx, hy, hxy⟩) hnone
    · rw [get?_insert_self] at hnone
      cases hnone
    · rw [get?_insert_of_ne hx] at hnone
      exact h.unbound x y hxy hnone
  · rintro x y v' w' (⟨rfl, rfl⟩ | ⟨hx, hy, hxy⟩) hv' hw'
    · rw [get?_insert_self] at hv' hw'
      obtain rfl := Option.some.inj hv'
      obtain rfl := Option.some.inj hw'
      exact hvw
    · rw [get?_insert_of_ne hx] at hv'
      rw [get?_insert_of_ne hy] at hw'
      exact h.values x y v' w' hxy hv' hw'

theorem mono (h : Agree r env₁ env₂) (hr : ∀ a b, r'.links a b → r.links a b) :
    Agree r' env₁ env₂ :=
  ⟨fun a b hab => h.bound a b (hr a b hab), fun a b hab => h.unbound a b (hr a b hab),
    fun a b v w hab => h.values a b v w (hr a b hab)⟩

theorem insert_same (h : Agree .identity env₁ env₂) (a : String) {v w : Value} (hvw : v.Equiv w) :
    Agree .identity (env₁.insert a v) (env₂.insert a w) := by
  refine (h.insert a a hvw).mono ?_
  rintro x _ rfl
  by_cases hx : x = a
  · exact .inl ⟨hx, hx⟩
  · exact .inr ⟨hx, hx, rfl⟩

end Env.Agree

theorem Value.sizeOf_lt_of_get? {env : Env Value} {name : String} {v : Value}
    (h : env.get? name = some v) (param : String) (body : Term) :
    sizeOf v < sizeOf (Value.closure env param body) := by
  obtain ⟨entries⟩ := env
  have hmem : sizeOf v < sizeOf entries := by
    induction entries with
    | nil => cases h
    | cons e rest ih =>
      obtain ⟨other, w⟩ := e
      have hsize : sizeOf ((other, w) :: rest) = 1 + (1 + sizeOf other + sizeOf w) + sizeOf rest :=
        rfl
      by_cases heq : name = other
      · have hw : w = v := by simpa [Env.get?, Env.lookupEntry, heq] using h
        rw [← hw]
        omega
      · have hlt := ih (by simpa [Env.get?, Env.lookupEntry, heq] using h)
        omega
  rw [Value.closure.sizeOf_spec, Env.mk.sizeOf_spec]
  omega

theorem Value.Equiv.refl (v : Value) : v.Equiv v := by
  -- on the size, which is smaller for what a closure captured
  induction hsize : sizeOf v using Nat.strongRecOn generalizing v with
  | ind size ih =>
    cases v with
    | int n => exact .int
    | bool b => exact .bool
    | text bytes => exact .text
    | closure env param body =>
      refine .same (fun _ => Iff.rfl) fun a v w hv hw => ?_
      rw [hv] at hw
      obtain rfl := Option.some.inj hw
      exact ih (sizeOf v) (hsize ▸ Value.sizeOf_lt_of_get? hv param body) v rfl

/-! ## What operators and calls see of a value -/

/-- A value without what is inside of a closure. -/
def Value.surface : Value → Value
  | closure _ _ _ => .closure .empty "" (.builtin "")
  | v => v

theorem Value.kind_surface (v : Value) : v.surface.kind = v.kind := by
  cases v <;> rfl

theorem Value.Equiv.surface_eq {v w : Value} (h : v.Equiv w) : v.surface = w.surface := by
  cases h <;> rfl

theorem Env.Agree.surface_eq {env₁ env₂ : Env Value} (h : Agree .identity env₁ env₂)
    (name : String) : (env₁.get? name).map Value.surface = (env₂.get? name).map Value.surface := by
  rcases h.get? (rfl : name = name) with ⟨v, w, hv, hw, hvw⟩ | ⟨_, hv, hw⟩
  · rw [hv, hw, Option.map_some, Option.map_some, hvw.surface_eq]
  · rw [hv, hw]

theorem Operator.apply_surface (op : Operator) (l r : Value) :
    op.apply l.surface r.surface = op.apply l r := by
  cases l <;> cases r <;> cases op <;> rfl

theorem Operator.apply_equiv (op : Operator) {l₁ r₁ l₂ r₂ : Value} (hl : l₁.Equiv l₂)
    (hr : r₁.Equiv r₂) : op.apply l₁ r₁ = op.apply l₂ r₂ := by
  rw [← op.apply_surface l₁ r₁, ← op.apply_surface l₂ r₂, hl.surface_eq, hr.surface_eq]

theorem Intrinsic.run?_surface (intrinsic : Intrinsic) (args : List Value) :
    intrinsic.run? (args.map Value.surface) = intrinsic.run? args := by
  cases intrinsic with
  | intToString =>
    cases args with
    | nil => rfl
    | cons v args => cases v <;> rfl
  | greaterThan =>
    cases args with
    | nil => rfl
    | cons v args =>
      cases args with
      | nil => cases v <;> rfl
      | cons w args => cases v <;> cases w <;> rfl

theorem Builtin.arguments_surface {env₁ env₂ : Env Value}
    (h : ∀ name, (env₁.get? name).map Value.surface = (env₂.get? name).map Value.surface)
    (name : String) (params : List String) (types : List Ty) :
    (arguments name env₁ params types).map (List.map Value.surface) =
      (arguments name env₂ params types).map (List.map Value.surface) := by
  have hcons : ∀ (v : Value) (r : Except Fault (List Value)),
      (r.map (v :: ·)).map (List.map Value.surface) =
        (r.map (List.map Value.surface)).map (v.surface :: ·) := by
    intro v r
    cases r <;> rfl
  induction params generalizing types with
  | nil => rfl
  | cons param params ih =>
    have hparam := h param
    simp only [arguments]
    cases hv : env₁.get? param with
    | none =>
      cases hw : env₂.get? param with
      | none => rfl
      | some w => rw [hv, hw] at hparam; cases hparam
    | some v =>
      cases hw : env₂.get? param with
      | none => rw [hv, hw] at hparam; cases hparam
      | some w =>
        rw [hv, hw] at hparam
        have hsurface : v.surface = w.surface := Option.some.inj hparam
        have hkind : v.kind = w.kind := by rw [← v.kind_surface, hsurface, w.kind_surface]
        cases types with
        | nil => rfl
        | cons t types =>
          simp only [hkind]
          split
          · rw [hcons, hcons, ih types, hsurface]
          · rfl

theorem Registry.call_agree (registry : Registry) {env₁ env₂ : Env Value}
    (h : Env.Agree .identity env₁ env₂) (name : String) :
    registry.call env₁ name = registry.call env₂ name := by
  unfold Registry.call
  split
  · rfl
  · next b _ =>
    split
    · rfl
    · next intrinsic _ =>
      split
      · rfl
      · have hargs := Builtin.arguments_surface h.surface_eq name b.argumentNames b.params
        cases h₁ : Builtin.arguments name env₁ b.argumentNames b.params with
        | error fault =>
          cases h₂ : Builtin.arguments name env₂ b.argumentNames b.params with
          | error fault' =>
            rw [h₁, h₂] at hargs
            obtain rfl : fault = fault' := Except.error.inj hargs
            rfl
          | ok args => rw [h₁, h₂] at hargs; cases hargs
        | ok args =>
          cases h₂ : Builtin.arguments name env₂ b.argumentNames b.params with
          | error fault => rw [h₁, h₂] at hargs; cases hargs
          | ok args' =>
            rw [h₁, h₂] at hargs
            have hsurface : args.map Value.surface = args'.map Value.surface :=
              Except.ok.inj hargs
            have hrun : intrinsic.run? args = intrinsic.run? args' := by
              rw [← intrinsic.run?_surface args, hsurface, intrinsic.run?_surface]
            simp only [hrun]

/-! ## Two computations side by side -/

/-- Both have a value, and these are equivalent, or both have the same fault. -/
inductive Value.EquivResult : Except Fault Value → Except Fault Value → Prop
  | ok {v w : Value} : v.Equiv w → EquivResult (.ok v) (.ok w)
  | error {fault : Fault} : EquivResult (.error fault) (.error fault)

theorem Value.EquivResult.refl (r : Except Fault Value) : EquivResult r r := by
  cases r with
  | ok v => exact .ok (.refl v)
  | error fault => exact .error

theorem Value.EquivResult.ok_or_error {r₁ r₂ : Except Fault Value} (h : EquivResult r₁ r₂) :
    (∃ v w, r₁ = .ok v ∧ r₂ = .ok w ∧ v.Equiv w) ∨
      ∃ fault, r₁ = .error fault ∧ r₂ = .error fault := by
  cases h with
  | ok hvw => exact .inl ⟨_, _, rfl, rfl, hvw⟩
  | error => exact .inr ⟨_, rfl, rfl⟩

namespace Traced

/-- From records with the same kinds of nodes the two computations come to equivalent results, and
to records with the same kinds of nodes. -/
def Matches (x y : Traced Value) : Prop :=
  ∀ visited₁ visited₂ : List Term, visited₁.map Term.form = visited₂.map Term.form →
    Value.EquivResult (x visited₁).1 (y visited₂).1 ∧
      (x visited₁).2.map Term.form = (y visited₂).2.map Term.form

theorem Matches.ofExcept {r₁ r₂ : Except Fault Value} (h : Value.EquivResult r₁ r₂) :
    (Traced.ofExcept r₁).Matches (Traced.ofExcept r₂) :=
  fun _ _ hvisited => ⟨h, hvisited⟩

theorem Matches.pure {v w : Value} (h : v.Equiv w) :
    (Pure.pure v : Traced Value).Matches (Pure.pure w) :=
  .ofExcept (.ok h)

theorem Matches.fail (fault : Fault) :
    (Traced.fail fault : Traced Value).Matches (Traced.fail fault) :=
  .ofExcept .error

theorem Matches.bind {x y : Traced Value} {f g : Value → Traced Value} (h : x.Matches y)
    (hf : ∀ v w, v.Equiv w → (f v).Matches (g w)) : (x >>= f).Matches (y >>= g) := by
  intro visited₁ visited₂ hvisited
  obtain ⟨hresult, hrecord⟩ := h visited₁ visited₂ hvisited
  rcases hx : x visited₁ with ⟨r₁, visited₁'⟩
  rcases hy : y visited₂ with ⟨r₂, visited₂'⟩
  rw [hx, hy] at hresult hrecord
  cases hresult with
  | ok hvw =>
    rw [bind_of_ok hx, bind_of_ok hy]
    exact hf _ _ hvw visited₁' visited₂' hrecord
  | error =>
    rw [bind_of_error hx, bind_of_error hy]
    exact ⟨.error, hrecord⟩

end Traced

/-! ## The simulation -/

/-- What two evaluations start from: terms without markers that are related by a renaming along
which the environments agree, or one term in environments that agree on all names. -/
inductive Term.Alike (env₁ env₂ : Env Value) : Term → Term → Prop
  | renamed {r : Renaming} {x₁ x₂ : Term} (markerFree : x₁.MarkerFree)
      (renamed : x₁.Renamed (fun _ _ => True) r x₂) (agree : Env.Agree r env₁ env₂) :
      Alike env₁ env₂ x₁ x₂
  | same {x : Term} (agree : Env.Agree .identity env₁ env₂) : Alike env₁ env₂ x x

theorem Value.Equiv.alike_bodies {env₁ env₂ : Env Value} {param₁ param₂ : String}
    {body₁ body₂ : Term}
    (h : (Value.closure env₁ param₁ body₁).Equiv (.closure env₂ param₂ body₂)) {v w : Value}
    (hvw : v.Equiv w) :
    Term.Alike (env₁.insert param₁ v) (env₂.insert param₂ w) body₁ body₂ := by
  cases h with
  | renamed markerFree bodies bound unbound values =>
    exact .renamed markerFree bodies (Env.Agree.insert ⟨bound, unbound, values⟩ _ _ hvw)
  | same bound values =>
    refine .same (Env.Agree.insert_same ⟨?_, fun _ _ hab _ => hab, ?_⟩ _ hvw)
    · rintro a _ rfl
      exact bound a
    · rintro a _ v w rfl
      exact values a v w

/-- What two nodes have in common, in terms of their parts. -/
inductive Term.AlikeNode (env₁ env₂ : Env Value) : Term → Term → Prop
  | app {func₁ func₂ arg₁ arg₂ : Term} :
      Alike env₁ env₂ func₁ func₂ → Alike env₁ env₂ arg₁ arg₂ →
      AlikeNode env₁ env₂ (.app func₁ arg₁) (.app func₂ arg₂)
  | lam {param₁ param₂ : String} {type₁ type₂ : Ty} {body₁ body₂ : Term} :
      (Value.closure env₁ param₁ body₁).Equiv (.closure env₂ param₂ body₂) →
      AlikeNode env₁ env₂ (.lam param₁ type₁ body₁) (.lam param₂ type₂ body₂)
  | lit {value : Literal} : AlikeNode env₁ env₂ (.lit value) (.lit value)
  | var {r : Renaming} {name₁ name₂ : String} :
      Env.Agree r env₁ env₂ → r.links name₁ name₂ → AlikeNode env₁ env₂ (.var name₁) (.var name₂)
  | bin {op : Operator} {left₁ left₂ right₁ right₂ : Term} :
      Alike env₁ env₂ left₁ left₂ → Alike env₁ env₂ right₁ right₂ →
      AlikeNode env₁ env₂ (.bin op left₁ right₁) (.bin op left₂ right₂)
  | ite {cond₁ cond₂ yes₁ yes₂ no₁ no₂ : Term} :
      Alike env₁ env₂ cond₁ cond₂ → Alike env₁ env₂ yes₁ yes₂ → Alike env₁ env₂ no₁ no₂ →
      AlikeNode env₁ env₂ (.ite cond₁ yes₁ no₁) (.ite cond₂ yes₂ no₂)
  | letIn {name₁ name₂ : String} {bound₁ bound₂ body₁ body₂ : Term} :
      Alike env₁ env₂ bound₁ bound₂ →
      (∀ v w, v.Equiv w → Alike (env₁.insert name₁ v) (env₂.insert name₂ w) body₁ body₂) →
      AlikeNode env₁ env₂ (.letIn name₁ bound₁ body₁) (.letIn name₂ bound₂ body₂)
  | builtin {name : String} :
      Env.Agree .identity env₁ env₂ → AlikeNode env₁ env₂ (.builtin name) (.builtin name)

theorem Term.Alike.node {env₁ env₂ : Env Value} {x₁ x₂ : Term} (h : Alike env₁ env₂ x₁ x₂) :
    AlikeNode env₁ env₂ x₁ x₂ := by
  cases h with
  | renamed markerFree renamed agree =>
    cases renamed with
    | app hfunc harg =>
      exact .app (.renamed markerFree.1 hfunc agree) (.renamed markerFree.2 harg agree)
    | lam _ hbody =>
      exact .lam (.renamed markerFree hbody agree.bound agree.unbound agree.values)
    | lit => exact .lit
    | var hname => exact .var agree hname
    | bin hleft hright =>
      exact .bin (.renamed markerFree.1 hleft agree) (.renamed markerFree.2 hright agree)
    | ite hcond hyes hno =>
      exact .ite (.renamed markerFree.1 hcond agree) (.renamed markerFree.2.1 hyes agree)
        (.renamed markerFree.2.2 hno agree)
    | letIn hbound hbody =>
      exact .letIn (.renamed markerFree.1 hbound agree) fun v w hvw =>
        .renamed markerFree.2 hbody (agree.insert _ _ hvw)
    | builtin => exact markerFree.elim
  | same agree =>
    cases x₁ with
    | app func arg => exact .app (.same agree) (.same agree)
    | lam param type body =>
      exact .lam (.same (fun a => agree.bound a a rfl) fun a v w => agree.values a a v w rfl)
    | lit value => exact .lit
    | var name => exact .var agree rfl
    | bin op left right => exact .bin (.same agree) (.same agree)
    | ite cond yes no => exact .ite (.same agree) (.same agree) (.same agree)
    | letIn name bound body =>
      exact .letIn (.same agree) fun v w hvw => .same (agree.insert_same name hvw)
    | builtin name => exact .builtin agree

theorem Term.AlikeNode.form_eq {env₁ env₂ : Env Value} {x₁ x₂ : Term}
    (h : AlikeNode env₁ env₂ x₁ x₂) : x₁.form = x₂.form := by
  cases h <;> rfl

theorem Globals.lookup_equiv (globals : Globals) {r : Renaming} {env₁ env₂ : Env Value}
    (h : Env.Agree r env₁ env₂) {a b : String} (hab : r.links a b) :
    Value.EquivResult (globals.lookup env₁ a) (globals.lookup env₂ b) := by
  rcases h.get? hab with ⟨v, w, hv, hw, hvw⟩ | ⟨rfl, hv, hw⟩
  · rw [lookup, lookup, hv, hw]
    exact .ok hvw
  · rw [lookup, lookup, hv, hw]
    exact .refl _

theorem Term.eval_matches (globals : Globals) (exhausted : Fault) (n : Nat)
    {env₁ env₂ : Env Value} {x₁ x₂ : Term} (h : Alike env₁ env₂ x₁ x₂) :
    (x₁.eval globals exhausted n env₁).Matches (x₂.eval globals exhausted n env₂) := by
  induction n generalizing env₁ env₂ x₁ x₂ with
  | zero => exact .fail exhausted
  | succ n ih =>
    have hstep : (x₁.step globals (eval globals exhausted n) env₁).Matches
        (x₂.step globals (eval globals exhausted n) env₂) := by
      cases h.node with
      | app hfunc harg =>
        refine .bind (ih hfunc) fun f g hfg => ?_
        cases hfg with
        | renamed markerFree bodies bound unbound values =>
          exact .bind (ih harg) fun v w hvw =>
            ih (Value.Equiv.alike_bodies (.renamed markerFree bodies bound unbound values) hvw)
        | same bound values =>
          exact .bind (ih harg) fun v w hvw =>
            ih (Value.Equiv.alike_bodies (.same bound values) hvw)
        | int | bool | text => exact .fail _
      | lam hclosure => exact .pure hclosure
      | lit => exact .pure (.refl _)
      | var hagree hname => exact .ofExcept (globals.lookup_equiv hagree hname)
      | bin hleft hright =>
        refine .bind (ih hleft) fun l₁ l₂ hl => .bind (ih hright) fun r₁ r₂ hr => ?_
        rw [Operator.apply_equiv _ hl hr]
        exact .ofExcept (.refl _)
      | ite hcond hyes hno =>
        refine .bind (ih hcond) fun c₁ c₂ hc => ?_
        cases hc with
        | @bool b =>
          cases b with
          | true => exact ih hyes
          | false => exact ih hno
        | int | text | renamed | same => exact .fail _
      | letIn hbound hbody => exact .bind (ih hbound) fun v w hvw => ih (hbody v w hvw)
      | builtin hagree =>
        show (Traced.ofExcept (globals.registry.call env₁ _)).Matches _
        rw [globals.registry.call_agree hagree]
        exact .ofExcept (.refl _)
    intro visited₁ visited₂ hvisited
    rw [eval_succ, eval_succ]
    refine hstep _ _ ?_
    rw [List.map_cons, List.map_cons, h.node.form_eq, hvisited]

/-- **Lexical scoping.** Let two terms without markers differ only in the names that they bind and
in the annotations of parameters, and let two environments bind the same of their free names, to
equivalent values. Then the same evaluator gives equivalent values for them or the same fault, and
visits nodes of the same kinds in the same order. -/
theorem Evaluator.evaluate_renamed (e : Evaluator) (registry : Registry) {x₁ x₂ : Term}
    {env₁ env₂ : Env Value} (hx : x₁.Renamed (fun _ _ => True) .identity x₂)
    (hmarkers : x₁.MarkerFree)
    (hbound : ∀ name ∈ x₁.freeVars, ((env₁.get? name).isSome ↔ (env₂.get? name).isSome))
    (hvalues : ∀ name ∈ x₁.freeVars, ∀ v w, env₁.get? name = some v → env₂.get? name = some w →
      v.Equiv w) :
    ((∃ v w, (e.evaluate registry env₁ x₁).result = .ok v ∧
        (e.evaluate registry env₂ x₂).result = .ok w ∧ v.Equiv w) ∨
      ∃ fault, (e.evaluate registry env₁ x₁).result = .error fault ∧
        (e.evaluate registry env₂ x₂).result = .error fault) ∧
    (e.evaluate registry env₁ x₁).trace.map Term.form =
      (e.evaluate registry env₂ x₂).trace.map Term.form := by
  have hagree : Env.Agree (Renaming.identity.on x₁.freeVars) env₁ env₂ := by
    refine ⟨?_, fun _ _ hab _ => hab.2, ?_⟩
    · rintro a _ ⟨ha, rfl⟩
      exact hbound a ha
    · rintro a _ v w ⟨ha, rfl⟩
      exact hvalues a ha v w
  have hon : x₁.Renamed (fun _ _ => True) (Renaming.identity.on x₁.freeVars) x₂ :=
    hx.restrict fun a b ha hab => ⟨ha, hab⟩
  obtain ⟨hresult, hrecord⟩ := Term.eval_matches ⟨registry, e.topLevel⟩ e.limit.exhausted
    e.limit.depth (.renamed hmarkers hon hagree) [] [] rfl
  refine ⟨hresult.ok_or_error, ?_⟩
  show (List.reverse _).map Term.form = (List.reverse _).map Term.form
  rw [List.map_reverse, List.map_reverse, hrecord]

/-- A comparison with the value of a free function, with names for what it binds. -/
def Term.aboveResult (name param : String) (type : Ty) : Term :=
  .letIn name (.lit (.int 1))
    (.app (.lam param type (.app (.app (.var "greater_than") (.var name)) (.var param)))
      (.app (.var "f") (.var name)))

/-- A closure that adds two, with names for its parameter and for what it captured. -/
def Value.addTwo (param captured : String) : Value :=
  .closure (Env.empty.insert captured (.int 2)) param (.bin .add (.var param) (.var captured))

/-- One of the names collides with a built-in, another with a name bound further out. -/
theorem Evaluator.evaluate_aboveResult :
    let x₁ := Term.aboveResult "x" "y" .int
    let x₂ := Term.aboveResult "int_to_string" "x" .bool
    let env₁ := Env.empty.insert "f" (Value.addTwo "n" "k")
    let env₂ := (Env.empty.insert "f" (Value.addTwo "k" "m")).insert "y" (.bool true)
    ∃ e, (ofDefinitions .standard (.levels 20) []).result = .ok e ∧
      ((∃ v w, (e.evaluate .standard env₁ x₁).result = .ok v ∧
          (e.evaluate .standard env₂ x₂).result = .ok w ∧ v.Equiv w) ∨
        ∃ fault, (e.evaluate .standard env₁ x₁).result = .error fault ∧
          (e.evaluate .standard env₂ x₂).result = .error fault) ∧
      (e.evaluate .standard env₁ x₁).trace.map Term.form =
        (e.evaluate .standard env₂ x₂).trace.map Term.form := by
  intro x₁ x₂ env₁ env₂
  have hadd : (Value.addTwo "n" "k").Equiv (.addTwo "k" "m") := by
    have hempty : Env.Agree .identity .empty .empty :=
      ⟨by rintro a _ rfl; exact Iff.rfl, fun _ _ hab _ => hab, nofun⟩
    have hcaptured := hempty.insert "k" "m" (Value.Equiv.refl (.int 2))
    refine .renamed ⟨trivial, trivial⟩ (.bin (.var (.inl ⟨rfl, rfl⟩)) (.var (.inr ?_)))
      hcaptured.bound hcaptured.unbound hcaptured.values
    exact ⟨by decide, by decide, .inl ⟨rfl, rfl⟩⟩
  have hx : x₁.Renamed (fun _ _ => True) .identity x₂ := by
    refine .letIn .lit (.app (.lam trivial (.app (.app (.var ?_) (.var ?_)) (.var ?_)))
      (.app (.var ?_) (.var ?_)))
    · exact .inr ⟨by decide, by decide, .inr ⟨by decide, by decide, rfl⟩⟩
    · exact .inr ⟨by decide, by decide, .inl ⟨rfl, rfl⟩⟩
    · exact .inl ⟨rfl, rfl⟩
    · exact .inr ⟨by decide, by decide, rfl⟩
    · exact .inl ⟨rfl, rfl⟩
  have hmarkers : x₁.MarkerFree := ⟨trivial, ⟨⟨trivial, trivial⟩, trivial⟩, trivial, trivial⟩
  have hfree : ∀ name ∈ x₁.freeVars, name = "greater_than" ∨ name = "f" := by decide
  refine ⟨_, rfl, Evaluator.evaluate_renamed _ .standard hx hmarkers (fun name hname => ?_)
    fun name hname v w hv hw => ?_⟩
  · rcases hfree name hname with rfl | rfl
    · decide
    · decide
  · rcases hfree name hname with rfl | rfl
    · cases hv
    · obtain rfl := Option.some.inj hv
      obtain rfl := Option.some.inj hw
      exact hadd

end TypedLambda
