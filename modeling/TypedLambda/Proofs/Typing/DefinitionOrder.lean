import TypedLambda.Proofs.Eval.Safety
import TypedLambda.Proofs.Typing.Renaming

/-!
# The order of definitions in inference

All definitions are checked in one context, and distinct names make that context independent of
their order (`Program.context_get?_of_perm`). So is the check of each definition. The checks come
one after the other and a fault cuts them short, but whether one of them has a fault does not depend
on the order, and if none has, then the mismatches are those of the single checks put together
(`Program.infer_of_checks`).
-/

namespace TypedLambda

/-! ## One context for all orders -/

theorem Env.get?_insertAll_of_perm {α : Type} {bs cs : List (String × α)}
    (hnodup : (bs.map (·.1)).Nodup) (hperm : bs.Perm cs) (env : Env α) (name : String) :
    (env.insertAll bs).get? name = (env.insertAll cs).get? name := by
  have hnames : (bs.map (·.1)).Perm (cs.map (·.1)) := hperm.map _
  by_cases hname : name ∈ bs.map (·.1)
  · obtain ⟨b, hb, rfl⟩ := List.mem_map.mp hname
    rw [get?_insertAll_of_mem hnodup hb,
      get?_insertAll_of_mem (hnames.nodup_iff.mp hnodup) (hperm.mem_iff.mp hb)]
  · have hname' : name ∉ cs.map (·.1) := fun hmem => hname (hnames.mem_iff.mpr hmem)
    rw [get?_insertAll_of_not_mem hname, get?_insertAll_of_not_mem hname']

section

variable {registry : Registry} {p q : Program}

theorem Program.context_get?_of_perm (hnodup : (p.definitions.map (·.name)).Nodup)
    (hperm : p.definitions.Perm q.definitions) (name : String) :
    (p.context registry).get? name = (q.context registry).get? name := by
  refine Env.get?_insertAll_of_perm ?_ (hperm.map _) _ name
  rwa [List.map_map]

theorem Definition.check_congr {ctx₁ ctx₂ : Env Ty}
    (h : ∀ name, ctx₁.get? name = ctx₂.get? name) (d : Definition) :
    d.check ctx₁ = d.check ctx₂ := by
  rw [Definition.check, Definition.check, Term.infer_congr fun name _ => h name]

/-! ## The checks of a program -/

theorem Checked.bind_of_ok {ε α β : Type} {x : Checked ε α} {a : α} (h : x.result = .ok a)
    (f : α → Checked ε β) : x >>= f = ⟨x.mismatches ++ (f a).mismatches, (f a).result⟩ := by
  obtain ⟨ms, r⟩ := x
  obtain rfl : r = .ok a := h
  rfl

theorem Definition.result_check_of_checkAll {ctx : Env Ty} {ds : List Definition} {u : Unit}
    (h : (Definition.checkAll ctx ds).result = .ok u) :
    ∀ d ∈ ds, (d.check ctx).result = .ok () := by
  induction ds with
  | nil => exact List.forall_mem_nil _
  | cons d ds ih =>
    obtain ⟨_, hd, hds⟩ := Checked.bind_result_eq_ok h
    exact List.forall_mem_cons.mpr ⟨hd, ih hds⟩

theorem Definition.checkAll_of_checks {ctx : Env Ty} {ds : List Definition}
    (h : ∀ d ∈ ds, (d.check ctx).result = .ok ()) :
    Definition.checkAll ctx ds = ⟨ds.flatMap fun d => (d.check ctx).mismatches, .ok ()⟩ := by
  induction ds with
  | nil => rfl
  | cons d ds ih =>
    obtain ⟨hd, hds⟩ := List.forall_mem_cons.mp h
    rw [Definition.checkAll, Checked.bind_of_ok hd, ih hds, List.flatMap_cons]

theorem Program.infer_of_checks {t : Ty}
    (hds : ∀ d ∈ p.definitions, (d.check (p.context registry)).result = .ok ())
    (hmain : (p.main.infer (p.context registry)).result = .ok t) :
    p.infer registry =
      ⟨p.definitions.flatMap (fun d => (d.check (p.context registry)).mismatches) ++
        (p.main.infer (p.context registry)).mismatches, .ok t⟩ := by
  have hresult : ((p.main.infer (p.context registry)).mapError
      (TypeError.mk none)).result = .ok t := by
    rw [Checked.mapError, hmain]
    rfl
  show Definition.checkAll _ _ >>= _ = _
  rw [Definition.checkAll_of_checks hds, Checked.bind_of_ok rfl, hresult]
  rfl

theorem Program.checks_of_infer {t : Ty} (h : (p.infer registry).result = .ok t) :
    (∀ d ∈ p.definitions, (d.check (p.context registry)).result = .ok ()) ∧
      (p.main.infer (p.context registry)).result = .ok t := by
  obtain ⟨_, hds, hmain⟩ := Checked.bind_result_eq_ok h
  exact ⟨Definition.result_check_of_checkAll hds, Checked.mapError_result_eq_ok hmain⟩

theorem Program.infer_ok_of_perm (hnodup : (p.definitions.map (·.name)).Nodup)
    (hperm : p.definitions.Perm q.definitions) (hmain : p.main = q.main) {t : Ty}
    (h : (p.infer registry).result = .ok t) :
    (q.infer registry).result = .ok t ∧
      (p.infer registry).mismatches.Perm (q.infer registry).mismatches := by
  have hctx : ∀ name, (p.context registry).get? name = (q.context registry).get? name :=
    Program.context_get?_of_perm hnodup hperm
  have hcheck : ∀ d, Definition.check (p.context registry) d = d.check (q.context registry) :=
    Definition.check_congr hctx
  have hterm : p.main.infer (p.context registry) = q.main.infer (q.context registry) := by
    rw [hmain]
    exact Term.infer_congr fun name _ => hctx name
  obtain ⟨hdsOk, hmainOk⟩ := Program.checks_of_infer h
  have hdsOk' : ∀ d ∈ q.definitions, (d.check (q.context registry)).result = .ok () := by
    intro d hd
    rw [← hcheck d]
    exact hdsOk d (hperm.mem_iff.mpr hd)
  rw [Program.infer_of_checks hdsOk hmainOk, Program.infer_of_checks hdsOk' (hterm ▸ hmainOk)]
  refine ⟨rfl, ?_⟩
  simp only [hcheck, hterm]
  exact (hperm.flatMap_right _).append_right _

end

/-! ## Unknown operators

A tree may hold operators that the language does not have. Only such an operator makes inference end
with a defect of the tree. -/

def Term.operators : Term → List Operator
  | app func arg => func.operators ++ arg.operators
  | lam _ _ body => body.operators
  | lit _ => []
  | var _ => []
  | bin op left right => op :: (left.operators ++ right.operators)
  | ite cond yes no => cond.operators ++ (yes.operators ++ no.operators)
  | letIn _ bound body => bound.operators ++ body.operators
  | builtin _ => []

def Program.operators (p : Program) : List Operator :=
  p.definitions.flatMap (·.body.operators) ++ p.main.operators

/-- If the fault is an operator, then it is an unknown one of the given operators. -/
def TypeFault.OperatorIn (operators : List Operator) (fault : TypeFault) : Prop :=
  ∀ op, fault = .unknownOperator op → op ∈ operators ∧ op.isKnown = false

theorem Operator.isKnown_of_signature?_none {op : Operator} (h : op.signature? = none) :
    op.isKnown = false := by
  cases op with
  | unknown n => rfl
  | _ => cases h

theorem Term.infer_operatorIn {operators : List Operator} {ctx : Env Ty} {x : Term}
    (hx : ∀ op ∈ x.operators, op ∈ operators) :
    (x.infer ctx).Faults (TypeFault.OperatorIn operators) := by
  have hother : ∀ {fault : TypeFault}, (∀ op, fault ≠ .unknownOperator op) →
      fault.OperatorIn operators := fun hne op hop => absurd hop (hne op)
  induction x generalizing ctx with
  | app func arg ihFunc ihArg =>
    obtain ⟨hfunc, harg⟩ := List.forall_mem_append.mp hx
    refine .bind (ihFunc hfunc) fun funcType => .bind (ihArg harg) fun argType => ?_
    cases funcType with
    | fn param result => exact .bind .require fun _ => .pure
    | int | bool | text => exact .fail (hother (by rintro _ ⟨⟩))
  | lam param type body ih => exact .bind (ih hx) fun _ => .pure
  | lit value => exact .pure
  | var name =>
    rw [Term.infer]
    split
    · exact .pure
    · exact .fail (hother (by rintro _ ⟨⟩))
  | bin op left right ihLeft ihRight =>
    obtain ⟨hop, hparts⟩ := List.forall_mem_cons.mp hx
    obtain ⟨hleft, hright⟩ := List.forall_mem_append.mp hparts
    rw [Term.infer]
    cases hsig : op.signature? with
    | some sig =>
      exact .bind (ihLeft hleft) fun _ => .bind (ihRight hright) fun _ =>
        .bind .require fun _ => .bind .require fun _ => .pure
    | none =>
      refine .fail ?_
      rintro _ ⟨⟩
      exact ⟨hop, op.isKnown_of_signature?_none hsig⟩
  | ite cond yes no ihCond ihYes ihNo =>
    obtain ⟨hcond, hbranches⟩ := List.forall_mem_append.mp hx
    obtain ⟨hyes, hno⟩ := List.forall_mem_append.mp hbranches
    exact .bind (ihCond hcond) fun _ => .bind .require fun _ => .bind (ihYes hyes) fun _ =>
      .bind (ihNo hno) fun _ => .bind .require fun _ => .pure
  | letIn name bound body ihBound ihBody =>
    obtain ⟨hbound, hbody⟩ := List.forall_mem_append.mp hx
    exact .bind (ihBound hbound) fun _ => ihBody hbody
  | builtin name => exact .fail (hother (by rintro _ ⟨⟩))

theorem Definition.checkAll_operatorIn {operators : List Operator} {ctx : Env Ty}
    {ds : List Definition} (hds : ∀ d ∈ ds, ∀ op ∈ d.body.operators, op ∈ operators) :
    (Definition.checkAll ctx ds).Faults fun e => e.fault.OperatorIn operators := by
  induction ds with
  | nil => exact .pure
  | cons d ds ih =>
    obtain ⟨hd, hrest⟩ := List.forall_mem_cons.mp hds
    have hbody : (d.body.infer ctx).Faults (TypeFault.OperatorIn operators) :=
      Term.infer_operatorIn hd
    exact .bind (.bind (.mapError hbody) fun _ => .require) fun _ => ih hrest

theorem Program.infer_operatorIn (registry : Registry) {p : Program} {operators : List Operator}
    (hp : ∀ op ∈ p.operators, op ∈ operators) :
    (p.infer registry).Faults fun e => e.fault.OperatorIn operators := by
  obtain ⟨hds, hmain⟩ := List.forall_mem_append.mp hp
  have hterm : (p.main.infer (p.context registry)).Faults (TypeFault.OperatorIn operators) :=
    Term.infer_operatorIn hmain
  refine .bind (Definition.checkAll_operatorIn fun d hd op hop => hds op ?_) fun _ =>
    .mapError hterm
  exact List.mem_flatMap.mpr ⟨d, hd, hop⟩

/-! ## Any order -/

/-- **The order of definitions does not matter to inference.** Let the names of a program's
definitions be distinct. Then inference ends with a fault in one order of the definitions exactly if
it does in any other. If it does not, then both orders have the same type, and the mismatches of
one are a permutation of those of the other. A fault is the defect of an unknown operator only if
the program holds that operator. -/
theorem Program.infer_perm (registry : Registry) (p : Program) {ds : List Definition}
    (hnodup : (p.definitions.map (·.name)).Nodup) (hperm : p.definitions.Perm ds) :
    let q : Program := { p with definitions := ds }
    ((∃ e, (p.infer registry).result = .error e) ↔ ∃ e, (q.infer registry).result = .error e) ∧
    (∀ t, (p.infer registry).result = .ok t →
      (q.infer registry).result = .ok t ∧
        (p.infer registry).mismatches.Perm (q.infer registry).mismatches) ∧
    ∀ e, (p.infer registry).result = .error e ∨ (q.infer registry).result = .error e →
      e.fault.OperatorIn p.operators := by
  intro q
  have hnodup' : (q.definitions.map (·.name)).Nodup := (hperm.map _).nodup_iff.mp hnodup
  have hoperators : ∀ op ∈ q.operators, op ∈ p.operators := by
    intro op hop
    exact (List.Perm.append_right _ (hperm.flatMap_right _)).mem_iff.mpr hop
  refine ⟨⟨?_, ?_⟩, fun t => Program.infer_ok_of_perm (q := q) hnodup hperm rfl, ?_⟩
  · rintro ⟨e, he⟩
    cases hq : (q.infer registry).result with
    | error e' => exact ⟨e', rfl⟩
    | ok t =>
      have hp := (Program.infer_ok_of_perm (q := p) hnodup' hperm.symm rfl hq).1
      rw [he] at hp
      cases hp
  · rintro ⟨e, he⟩
    cases hp : (p.infer registry).result with
    | error e' => exact ⟨e', rfl⟩
    | ok t =>
      have hq := (Program.infer_ok_of_perm (q := q) hnodup hperm rfl hp).1
      rw [he] at hq
      cases hq
  · rintro e (he | he)
    · exact Program.infer_operatorIn registry (fun _ hop => hop) e he
    · exact Program.infer_operatorIn registry hoperators e he

/-- Two definitions that do not have their declared types and use each other. -/
def Program.crossedTypes : Program where
  definitions := [⟨"a", .int, .var "b"⟩, ⟨"b", .bool, .bin .concat (.var "a") (.lit (.text []))⟩]
  main := .ite (.var "a") (.var "b") (.lit (.bool true))

theorem Program.infer_crossedTypes :
    let p := Program.crossedTypes
    let q : Program := { p with definitions := p.definitions.reverse }
    (((∃ e, (p.infer .standard).result = .error e) ↔ ∃ e, (q.infer .standard).result = .error e) ∧
    (∀ t, (p.infer .standard).result = .ok t →
      (q.infer .standard).result = .ok t ∧
        (p.infer .standard).mismatches.Perm (q.infer .standard).mismatches) ∧
    ∀ e, (p.infer .standard).result = .error e ∨ (q.infer .standard).result = .error e →
      e.fault.OperatorIn p.operators) ∧
    (p.infer .standard).result = .ok .bool ∧
    (p.infer .standard).mismatches ≠ (q.infer .standard).mismatches := by
  intro p q
  have hnodup : (p.definitions.map (·.name)).Nodup := by decide
  have hperm : p.definitions.Perm p.definitions.reverse := (List.reverse_perm _).symm
  exact ⟨Program.infer_perm .standard p hnodup hperm, rfl, by decide⟩

end TypedLambda
