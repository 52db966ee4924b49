import TypedLambda.Proofs.Eval.DefinitionOrder
import TypedLambda.Proofs.Eval.Scoping

/-!
# Names that are defined more than once

Inference types every use of a name by the last definition of it, while evaluation finds the value
that the name has by then, which may be that of an earlier definition or of a built-in. Where these
differ in type, a program without a mismatch can go wrong (`Program.evaluate_textFromNumber`). It
does not if each definition uses settled names only: names that from there on have no values but of
the type they have in the end (`Program.UsesSettled`, `Program.evaluate_of_usesSettled`). That is so
of definitions that keep the type of what they define anew (`Program.usesSettled_of_type_eq`).

The values of names that are not settled are in the table, but nobody looks them up. The table
without them (`Env.settledPart`) fits the context of the program, evaluation under it does not miss
them, and so it is the evaluation under the whole table (`Evaluator.evaluate_settledPart`).
-/

namespace TypedLambda

/-! ## Some of the names -/

namespace Env

variable {α : Type}

def restrict (keep : String → Bool) (env : Env α) : Env α :=
  ⟨env.entries.filter fun e => keep e.1⟩

theorem get?_restrict (keep : String → Bool) (env : Env α) (name : String) :
    (env.restrict keep).get? name = if keep name then env.get? name else none := by
  obtain ⟨entries⟩ := env
  show lookupEntry name (entries.filter fun e => keep e.1) =
    if keep name then lookupEntry name entries else none
  induction entries with
  | nil => simp [lookupEntry]
  | cons e rest ih =>
    obtain ⟨other, a⟩ := e
    rw [List.filter_cons, lookupEntry]
    by_cases heq : name = other
    · by_cases hkeep : keep other = true
      · simp [lookupEntry, heq, hkeep]
      · rw [if_neg hkeep, ih]
        simp [heq, hkeep]
    · by_cases hkeep : keep other = true
      · rw [if_pos hkeep, lookupEntry, if_neg heq, if_neg heq, ih]
      · rw [if_neg hkeep, if_neg heq, ih]

end Env

/-! ## Settled names -/

/-- A name has from now on only values of the type that it has in the context: it has no type now
or that one, and so in each of the definitions to come. -/
def Env.Settled (ctx current : Env Ty) (ds : List Definition) (name : String) : Prop :=
  (current.get? name = none ∨ current.get? name = ctx.get? name) ∧
    ∀ d ∈ ds, d.name = name → ctx.get? name = some d.type

instance (ctx current : Env Ty) (ds : List Definition) (name : String) :
    Decidable (Env.Settled ctx current ds name) :=
  inferInstanceAs (Decidable (_ ∧ _))

/-- Each definition uses only names that are settled when it is evaluated. -/
def Definition.UseSettled (ctx : Env Ty) : Env Ty → List Definition → Prop
  | _, [] => True
  | current, d :: ds =>
    (∀ name ∈ d.body.freeVars, Env.Settled ctx current (d :: ds) name) ∧
      UseSettled ctx (current.insert d.name d.type) ds

instance Definition.decidableUseSettled (ctx : Env Ty) :
    (current : Env Ty) → (ds : List Definition) → Decidable (UseSettled ctx current ds)
  | _, [] => inferInstanceAs (Decidable True)
  | current, d :: ds =>
    @instDecidableAnd _ _ inferInstance
      (decidableUseSettled ctx (current.insert d.name d.type) ds)

def Program.UsesSettled (p : Program) : Prop :=
  Definition.UseSettled (p.context .standard) Registry.standard.types p.definitions

instance (p : Program) : Decidable p.UsesSettled :=
  inferInstanceAs (Decidable (Definition.UseSettled _ _ _))

namespace Env

variable {ctx current : Env Ty} {d : Definition} {ds : List Definition} {name : String}

theorem Settled.step (h : Settled ctx current (d :: ds) name) :
    Settled ctx (current.insert d.name d.type) ds name := by
  refine ⟨?_, fun d' hd' => h.2 d' (List.mem_cons_of_mem d hd')⟩
  rw [get?_insert]
  by_cases heq : name = d.name
  · rw [if_pos heq]
    exact .inr (h.2 d List.mem_cons_self heq.symm).symm
  · rw [if_neg heq]
    exact h.1

def settledPart {α : Type} (ctx current : Env Ty) (ds : List Definition) (env : Env α) : Env α :=
  env.restrict fun name => decide (Settled ctx current ds name)

theorem get?_settledPart {α : Type} {env : Env α} {a : α} :
    (settledPart ctx current ds env).get? name = some a ↔
      Settled ctx current ds name ∧ env.get? name = some a := by
  rw [settledPart, get?_restrict]
  by_cases h : Settled ctx current ds name
  · simp [h]
  · simp [h]

theorem isSome_get?_settledPart {α : Type} {env : Env α} :
    ((settledPart ctx current ds env).get? name).isSome ↔
      Settled ctx current ds name ∧ (env.get? name).isSome := by
  simp only [Option.isSome_iff_exists, get?_settledPart, exists_and_left]

end Env

/-! ## Tables -/

theorem Value.Scoped.mono {ctx ctx' : Env Ty} {v : Value} (h : v.Scoped ctx)
    (hle : ∀ name, (ctx.get? name).isSome → (ctx'.get? name).isSome) : v.Scoped ctx' := by
  induction h with
  | int => exact .int
  | bool => exact .bool
  | text => exact .text
  | closure free _ ih =>
    exact .closure (fun name hname => (free name hname).imp_right (hle name)) ih

/-- A table before some definitions: its values have the types that the names have by now, and use
only names of the context that are settled. -/
structure Env.FitsBefore (ctx current : Env Ty) (ds : List Definition) (table : Env Value) :
    Prop where
  typed : ∀ name v, table.get? name = some v → ∃ t, current.get? name = some t ∧ v.HasType ctx t
  known : table.Scoped (settledPart ctx current ds ctx)

namespace Env.FitsBefore

variable {ctx current : Env Ty} {d : Definition} {ds : List Definition} {table : Env Value}

/-- **One definition** later, with a value of its type. -/
theorem insert (h : FitsBefore ctx current (d :: ds) table) {v : Value} (hv : v.HasType ctx d.type)
    (hscoped : v.Scoped (settledPart ctx current (d :: ds) ctx)) :
    FitsBefore ctx (current.insert d.name d.type) ds (table.insert d.name v) := by
  have hle : ∀ name, ((settledPart ctx current (d :: ds) ctx).get? name).isSome →
      ((settledPart ctx (current.insert d.name d.type) ds ctx).get? name).isSome := by
    intro name hname
    rw [isSome_get?_settledPart] at hname ⊢
    exact ⟨hname.1.step, hname.2⟩
  refine ⟨fun name w hw => ?_, ?_⟩
  · rw [get?_insert] at hw ⊢
    by_cases heq : name = d.name
    · rw [if_pos heq] at hw ⊢
      obtain rfl := Option.some.inj hw
      exact ⟨d.type, rfl, hv⟩
    · rw [if_neg heq] at hw ⊢
      exact h.typed name w hw
  · have htable : table.Scoped (settledPart ctx (current.insert d.name d.type) ds ctx) :=
      fun name w hw => (h.known name w hw).mono hle
    exact htable.insert d.name (hscoped.mono hle)

theorem fitsTable (h : FitsBefore ctx current ds table) :
    FitsTable ctx (settledPart ctx current ds table) := by
  intro name v hv
  obtain ⟨hsettled, hv⟩ := get?_settledPart.mp hv
  obtain ⟨t, ht, htyped⟩ := h.typed name v hv
  refine ⟨t, ?_, htyped⟩
  rcases hsettled.1 with hnone | hsame
  · rw [hnone] at ht
    cases ht
  · rw [← hsame, ht]

theorem scoped_settledPart (h : FitsBefore ctx current ds table) :
    (settledPart ctx current ds table).Scoped (settledPart ctx current ds ctx) :=
  fun name v hv => h.known name v (get?_settledPart.mp hv).2

end Env.FitsBefore

/-! ## Evaluation -/

namespace Evaluator

variable {ctx current : Env Ty} {ds : List Definition} {table : Env Value} (limit : DepthLimit)

theorem evaluate_settledPart (h : Env.FitsBefore ctx current ds table) {x : Term}
    (hfree : ∀ name ∈ x.freeVars, ((Env.settledPart ctx current ds ctx).get? name).isSome) :
    evaluate ⟨Env.settledPart ctx current ds table, limit⟩ .standard .empty x =
      evaluate ⟨table, limit⟩ .standard .empty x := by
  have hgrows : (Env.settledPart ctx current ds table).Grows table :=
    fun name v hv => (Env.get?_settledPart.mp hv).2
  rcases (Term.eval_approximates_of_grows hgrows limit.exhausted limit.depth .empty x).run with
    heq | ⟨_, ⟨name, rfl, hnone, hsome⟩, hfault, _⟩
  · exact heq
  · -- the name that is missed would be a settled one, and these are not missing
    obtain ⟨hknown, _⟩ :=
      (evaluate_scoped (e := ⟨_, limit⟩) h.scoped_settledPart hfree).2 name hfault
    obtain ⟨hsettled, _⟩ := Env.isSome_get?_settledPart.mp hknown
    have hkept := Env.isSome_get?_settledPart.mpr ⟨hsettled, hsome⟩
    rw [hnone] at hkept
    cases hkept

theorem evaluate_settled (h : Env.FitsBefore ctx current ds table) {x : Term} {t : Ty}
    (hx : x.HasType ctx t)
    (hfree : ∀ name ∈ x.freeVars, ((Env.settledPart ctx current ds ctx).get? name).isSome) :
    (∀ v, (evaluate ⟨table, limit⟩ .standard .empty x).result = .ok v →
      v.HasType ctx t ∧ v.Scoped (Env.settledPart ctx current ds ctx)) ∧
    ∀ fault, (evaluate ⟨table, limit⟩ .standard .empty x).result = .error fault →
      fault = limit.exhausted ∨ ∃ name, fault = .unbound name := by
  rw [← evaluate_settledPart limit h hfree]
  have hsound := Term.eval_sound h.fitsTable limit.exhausted limit.depth Env.Fits.empty hx
  refine ⟨fun v hv => ⟨hsound.of_ok hv, ?_⟩, fun fault hfault => ?_⟩
  · exact (evaluate_scoped (e := ⟨_, limit⟩) h.scoped_settledPart hfree).1 v hv
  · exact (hsound.of_error hfault).imp_right fun ⟨name, heq, _⟩ => ⟨name, heq⟩

/-- **All definitions**, if each is well typed and uses settled names only. -/
theorem define_settled
    (hds : ∀ d ∈ ds, d.body.HasType ctx d.type ∧
      ∀ name ∈ d.body.freeVars, (ctx.get? name).isSome)
    (hsettled : Definition.UseSettled ctx current ds) (h : Env.FitsBefore ctx current ds table) :
    (∀ e, (define .standard ⟨table, limit⟩ ds).result = .ok e → e.limit = limit ∧
      Env.FitsBefore ctx (current.insertAll (ds.map fun d => (d.name, d.type))) [] e.topLevel) ∧
    ∀ err, (define .standard ⟨table, limit⟩ ds).result = .error err →
      err.fault = limit.exhausted ∨ ∃ name, err.fault = .unbound name := by
  induction ds generalizing current table with
  | nil =>
    refine ⟨fun e he => ?_, fun err herr => (by cases herr)⟩
    obtain rfl := Except.ok.inj he
    exact ⟨rfl, h⟩
  | cons d ds ih =>
    obtain ⟨⟨hbody, hnames⟩, hds⟩ := List.forall_mem_cons.mp hds
    obtain ⟨hfree, hsettled⟩ := hsettled
    obtain ⟨hvalue, hfault⟩ := evaluate_settled limit h hbody fun name hname =>
      Env.isSome_get?_settledPart.mpr ⟨hfree name hname, hnames name hname⟩
    cases hrun : (evaluate ⟨table, limit⟩ .standard .empty d.body).result with
    | ok v =>
      obtain ⟨htyped, hscoped⟩ := hvalue v hrun
      rw [define_cons_ok hrun]
      exact ih hds hsettled (h.insert htyped hscoped)
    | error fault =>
      rw [define_cons_error hrun]
      refine ⟨fun e he => (by cases he), fun err herr => ?_⟩
      obtain rfl := Except.error.inj herr
      exact hfault fault hrun

end Evaluator

/-! ## Programs -/

theorem Program.isSome_context_of_infer {p : Program} {t : Ty}
    (h : (p.infer .standard).result = .ok t) :
    (∀ d ∈ p.definitions, ∀ name ∈ d.body.freeVars, ((p.context .standard).get? name).isSome) ∧
    ∀ name ∈ p.main.freeVars, ((p.context .standard).get? name).isSome := by
  obtain ⟨_, hchecked, hmain⟩ := Checked.bind_result_eq_ok h
  refine ⟨fun d hd => ?_, Term.isSome_get?_of_infer (Checked.mapError_result_eq_ok hmain)⟩
  obtain ⟨s, hs⟩ := Definition.infer_of_checkAll hchecked d hd
  exact Term.isSome_get?_of_infer hs

theorem Registry.get?_types_standard {b : Builtin} (hb : b ∈ Registry.standard) :
    Registry.standard.types.get? b.name = some b.type :=
  Env.get?_insertAll_of_mem (b := (b.name, b.type)) (by decide) (List.mem_map.mpr ⟨b, hb, rfl⟩) _

theorem Registry.table_standard_fitsBefore (ctx : Env Ty) (ds : List Definition) : ∃ table,
    Registry.standard.table = .ok table ∧
    Env.FitsBefore ctx Registry.standard.types ds table := by
  obtain ⟨table, htable, hscoped, _⟩ :=
    Registry.table_standard_scoped (Env.settledPart ctx Registry.standard.types ds ctx)
  refine ⟨table, htable, fun name v hv => ?_, hscoped⟩
  obtain ⟨b, hb, rfl, hwaiting⟩ := Registry.exists_waiting htable hv
  exact ⟨b.type, Registry.get?_types_standard hb, .builtin hb hwaiting fun _ _ _ h => by cases h⟩

theorem Definition.useSettled_of_type_eq {ctx current : Env Ty} {ds : List Definition}
    (hds : ∀ d ∈ ds, ctx.get? d.name = some d.type)
    (hcurrent : ∀ name, current.get? name = none ∨ current.get? name = ctx.get? name) :
    UseSettled ctx current ds := by
  have hsettled : ∀ name, Env.Settled ctx current ds name := by
    intro name
    refine ⟨hcurrent name, ?_⟩
    rintro d hd rfl
    exact hds d hd
  induction ds generalizing current with
  | nil => exact trivial
  | cons d ds ih =>
    have hstep := fun name => (hsettled name).step
    exact ⟨fun name _ => hsettled name,
      ih (fun d' hd' => hds d' (List.mem_cons_of_mem d hd')) (fun name => (hstep name).1) hstep⟩

/-- Definitions that keep the type of what they define anew use settled names only. -/
theorem Program.usesSettled_of_type_eq {p : Program}
    (hdefinitions : ∀ d ∈ p.definitions, (p.context .standard).get? d.name = some d.type)
    (hbuiltins : ∀ d ∈ p.definitions, ∀ b ∈ Registry.standard, b.name = d.name → b.type = d.type) :
    p.UsesSettled := by
  refine Definition.useSettled_of_type_eq hdefinitions fun name => ?_
  by_cases hname : name ∈ p.definitions.map (·.name)
  · obtain ⟨d, hd, rfl⟩ := List.mem_map.mp hname
    by_cases hbuiltin : d.name ∈ Registry.standard.map (·.name)
    · obtain ⟨b, hb, heq⟩ := List.mem_map.mp hbuiltin
      refine .inr ?_
      rw [hdefinitions d hd, ← hbuiltins d hd b hb heq, ← heq]
      exact Registry.get?_types_standard hb
    · refine .inl ?_
      rw [Registry.types, Env.get?_insertAll_of_not_mem (by rwa [List.map_map]), Env.get?_empty]
  · refine .inr ?_
    rw [Program.context, Env.get?_insertAll_of_not_mem (by rwa [List.map_map])]

/-- The first definition of `x` is a number, the last one a text, and between the two `x` is used
as a text. -/
def Program.textFromNumber : Program where
  definitions :=
    [⟨"x", .int, .lit (.int 1)⟩,
     ⟨"y", .text, .bin .concat (.var "x") (.lit (.text [0x61]))⟩,
     ⟨"x", .text, .lit (.text [0x62])⟩]
  main := .var "y"

/-- **A program without a mismatch can go wrong.** -/
theorem Program.evaluate_textFromNumber :
    textFromNumber.infer .standard = ⟨[], .ok .text⟩ ∧
    (textFromNumber.evaluate .standard (.levels 100)).result =
      .error ⟨some "y", .operands .concat .text .int .text⟩ :=
  ⟨rfl, rfl⟩

/-- **Soundness with names that are defined more than once.** A program that inference accepts
without a mismatch, whatever names it defines and how often, evaluates to a value of its type or
stops at the limit or at an unbound name, provided that each definition uses settled names only. -/
theorem Program.evaluate_of_usesSettled {p : Program} {t : Ty} (limit : DepthLimit)
    (hinfer : p.infer .standard = ⟨[], .ok t⟩) (hsettled : p.UsesSettled) :
    (∀ v, (p.evaluate .standard limit).result = .ok v → v.HasType (p.context .standard) t) ∧
    ∀ e, (p.evaluate .standard limit).result = .error e →
      e.fault = limit.exhausted ∨ ∃ name, e.fault = .unbound name := by
  have hp := Program.hasType_of_infer hinfer
  obtain ⟨hdefs, hmain⟩ := p.isSome_context_of_infer (t := t) (by rw [hinfer])
  obtain ⟨table, htable, hfits⟩ :=
    Registry.table_standard_fitsBefore (p.context .standard) p.definitions
  obtain ⟨hok, herror⟩ := Evaluator.define_settled limit
    (fun d hd => ⟨hp.definitions d hd, hdefs d hd⟩) hsettled hfits
  rw [← Evaluator.ofDefinitions_of_table htable] at hok herror
  cases hrun : (Evaluator.ofDefinitions .standard limit p.definitions).result with
  | error err =>
    rw [Program.evaluate_of_error hrun]
    refine ⟨fun v hv => (by cases hv), fun e he => ?_⟩
    obtain rfl := Except.error.inj he
    exact herror err hrun
  | ok evaluator =>
    obtain ⟨table', limit'⟩ := evaluator
    obtain ⟨rfl, hfits'⟩ := hok _ hrun
    -- all definitions are evaluated, so that every name has the type of its last definition
    have hfree : ∀ name ∈ p.main.freeVars,
        ((Env.settledPart (p.context .standard) (p.context .standard) []
          (p.context .standard)).get? name).isSome :=
      fun name hname => Env.isSome_get?_settledPart.mpr ⟨⟨.inr rfl, nofun⟩, hmain name hname⟩
    obtain ⟨hvalue, hfault⟩ := Evaluator.evaluate_settled limit' hfits' hp.main hfree
    rw [Program.evaluate_of_ok hrun]
    cases hresult : (Evaluator.evaluate ⟨table', limit'⟩ .standard .empty p.main).result with
    | ok w =>
      refine ⟨fun v hv => ?_, fun e he => (by cases he)⟩
      obtain rfl := Except.ok.inj hv
      exact (hvalue w hresult).1
    | error fault =>
      refine ⟨fun v hv => (by cases hv), fun e he => ?_⟩
      obtain rfl := Except.error.inj he
      exact hfault fault hresult

/-- A name that is no longer what it was at first, two definitions that use it, one of which defines
it anew, and a built-in that becomes a number. -/
def Program.countedAnew : Program where
  definitions :=
    [⟨"x", .bool, .lit (.bool true)⟩,
     ⟨"x", .int, .lit (.int 1)⟩,
     ⟨"greater_than", .fn .int (.fn .int .bool), .lam "m" .int (.lam "n" .int
       (.bin .eq (.var "m") (.bin .add (.var "n") (.var "x"))))⟩,
     ⟨"x", .int, .bin .add (.var "x") (.lit (.int 1))⟩,
     ⟨"int_to_string", .int, .lit (.int 0)⟩]
  main := .app (.app (.var "greater_than") (.var "x")) (.var "int_to_string")

theorem Program.evaluate_countedAnew :
    countedAnew.infer .standard = ⟨[], .ok .bool⟩ ∧ countedAnew.UsesSettled ∧
    (∀ v, (countedAnew.evaluate .standard (.levels 100)).result = .ok v →
      v.HasType (countedAnew.context .standard) .bool) ∧
    ∀ e, (countedAnew.evaluate .standard (.levels 100)).result = .error e →
      e.fault = .tooDeep ∨ ∃ name, e.fault = .unbound name := by
  have hsettled : countedAnew.UsesSettled := by decide
  exact ⟨rfl, hsettled, evaluate_of_usesSettled (.levels 100) rfl hsettled⟩

end TypedLambda
