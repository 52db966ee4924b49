import Mathlib.Data.List.Nodup
import TypedLambda.Proofs.Eval.DefinitionOrder
import TypedLambda.Proofs.Eval.Safety

/-!
# Built-ins of any arity

The arguments of a built-in are found by their names, and their types by taking the declared type
apart, while the closures that take them are nested. For a registry whose entries are declared as
their intrinsics demand (`Builtin.Implements`) the three agree at each position: each parameter has
its own name (`Builtin.nodup_argumentNames`) and type (`Ty.length_uncurry`), after `k` arguments
the built-in waits for the next with exactly those bound (`Builtin.eval_applied`), and after the
last it is called (`Builtin.eval_applied_all`).
-/

namespace TypedLambda

/-! ## Declared entries -/

def Ty.arrows : Ty → Nat
  | fn _ result => result.arrows + 1
  | _ => 0

def Intrinsic.reads : Intrinsic → Nat
  | intToString => 1
  | greaterThan => 2

/-- The entry has the name of the intrinsic, its type has an arrow for each argument, and the
arguments that the intrinsic looks at are integers. -/
structure Builtin.Implements (b : Builtin) (intrinsic : Intrinsic) : Prop where
  ofName? : Intrinsic.ofName? b.name = some intrinsic
  reads_le : intrinsic.reads ≤ b.arity
  arity_le : b.arity ≤ b.type.arrows
  param_eq : ∀ i < intrinsic.reads, b.params[i]? = some .int

theorem Ty.length_uncurry {t : Ty} {n : Nat} (h : n ≤ t.arrows) :
    (t.uncurry n).1.length = n := by
  induction t generalizing n with
  | fn arg result _ ih =>
    rw [uncurry]
    split
    · next hn => exact (Int.natCast_eq_zero.mp hn).symm
    · next hn =>
      have hpred : (n : Int) - 1 = ((n - 1 : Nat) : Int) := by omega
      rw [arrows] at h
      simp only [hpred, List.length_cons]
      rw [ih (by omega)]
      omega
  | int | bool | text =>
    have hn : n = 0 := Nat.le_zero.mp h
    subst hn
    rfl

theorem argumentName_injective : Function.Injective argumentName := by
  intro i j h
  exact Numeral.toString_injective ((String.append_right_inj _).mp h)

theorem Intrinsic.reads_pos (intrinsic : Intrinsic) : 0 < intrinsic.reads := by
  cases intrinsic <;> decide

theorem Intrinsic.exists_run? {intrinsic : Intrinsic} {args : List Value}
    (h : ∀ i < intrinsic.reads, ∃ n, args[i]? = some (.int n)) :
    ∃ v, intrinsic.run? args = some v := by
  cases intrinsic with
  | intToString =>
    obtain ⟨m, hm⟩ := h 0 Nat.one_pos
    rw [← List.head?_eq_getElem?, List.head?_eq_some_iff] at hm
    obtain ⟨rest, rfl⟩ := hm
    exact ⟨_, rfl⟩
  | greaterThan =>
    obtain ⟨m, hm⟩ := h 0 Nat.two_pos
    obtain ⟨n, hn⟩ := h 1 Nat.one_lt_two
    rw [← List.head?_eq_getElem?, List.head?_eq_some_iff] at hm
    obtain ⟨rest, rfl⟩ := hm
    rw [List.getElem?_cons_succ, ← List.head?_eq_getElem?, List.head?_eq_some_iff] at hn
    obtain ⟨rest', rfl⟩ := hn
    exact ⟨_, rfl⟩

theorem Env.get?_insertAll_empty {α : Type} {bs : List (String × α)}
    (hnodup : (bs.map (·.1)).Nodup) {name : String} {a : α} :
    (empty.insertAll bs).get? name = some a ↔ (name, a) ∈ bs := by
  constructor
  · intro h
    by_cases hname : name ∈ bs.map (·.1)
    · obtain ⟨⟨_, a'⟩, hmem, rfl⟩ := List.mem_map.mp hname
      rw [get?_insertAll_of_mem hnodup hmem] at h
      obtain rfl := Option.some.inj h
      exact hmem
    · rw [get?_insertAll_of_not_mem hname, get?_empty] at h
      cases h
  · intro h
    exact get?_insertAll_of_mem hnodup h empty

namespace Builtin

variable {b : Builtin} {intrinsic : Intrinsic}

theorem argumentEnv_nil (b : Builtin) : b.argumentEnv [] = .empty := by
  rw [argumentEnv, List.zip_nil_right, Env.insertAll_nil]

theorem argumentNames_eq (h : ¬ b.arity < 0) :
    b.argumentNames = (List.range b.arity.toNat).map fun i : Nat => argumentName (i + 1) := by
  have habs : b.arity.natAbs = b.arity.toNat := by omega
  rw [argumentNames, habs]
  simp only [h, if_false]

theorem nodup_argumentNames (h : ¬ b.arity < 0) : b.argumentNames.Nodup := by
  rw [argumentNames_eq h]
  refine List.nodup_range.map fun i j hij => ?_
  have hpos := argumentName_injective hij
  omega

namespace Implements

theorem arity_pos (h : b.Implements intrinsic) : 0 < b.arity := by
  have hreads := intrinsic.reads_pos
  have hle := h.reads_le
  omega

theorem not_arity_neg (h : b.Implements intrinsic) : ¬ b.arity < 0 := by
  have hpos := h.arity_pos
  omega

theorem length_params (h : b.Implements intrinsic) : b.params.length = b.arity.toNat := by
  have hpos := h.arity_pos
  have harity : b.arity = (b.arity.toNat : Int) := by omega
  rw [params, harity]
  exact Ty.length_uncurry (by have hle := h.arity_le; omega)

theorem length_argumentNames (h : b.Implements intrinsic) :
    b.argumentNames.length = b.params.length := by
  rw [h.length_params, argumentNames_eq h.not_arity_neg, List.length_map, List.length_range]

theorem map_fst_parameters (h : b.Implements intrinsic) :
    b.parameters.map (·.1) = b.argumentNames :=
  List.map_fst_zip (Nat.le_of_eq h.length_argumentNames)

theorem map_snd_parameters (h : b.Implements intrinsic) :
    b.parameters.map (·.2) = b.params :=
  List.map_snd_zip (Nat.le_of_eq h.length_argumentNames.symm)

theorem length_parameters (h : b.Implements intrinsic) : b.parameters.length = b.arity.toNat := by
  rw [← h.length_params, ← h.map_snd_parameters, List.length_map]

theorem exists_closure? (h : b.Implements intrinsic) :
    ∃ v t, b.closure? = some v ∧ b.Waiting [] v t := by
  have hlength := h.length_argumentNames
  have hpos : 0 < b.params.length := by
    have harity := h.arity_pos
    rw [h.length_params]
    omega
  obtain ⟨first, others, hnames⟩ := List.exists_cons_of_length_pos (hlength ▸ hpos)
  obtain ⟨type, types, hparams⟩ := List.exists_cons_of_length_pos hpos
  have hothers : others.length ≤ types.length := by
    rw [hnames, hparams, List.length_cons, List.length_cons] at hlength
    omega
  have hsplit : b.parameters = (first, type) :: others.zip types := by
    rw [parameters, hnames, hparams, List.zip_cons_cons]
  refine ⟨_, _, ?_, .mk hsplit⟩
  rw [closure?, hnames, hparams, argumentEnv_nil]
  simp only [List.drop_succ_cons, List.drop_zero, if_pos hothers]
  rfl

theorem get?_argumentEnv_iff (h : b.Implements intrinsic) {args : List Value}
    (hle : args.length ≤ b.arity.toNat) {name : String} {v : Value} :
    (b.argumentEnv args).get? name = some v ↔
      ∃ j : Nat, argumentName (j + 1) = name ∧ args[j]? = some v := by
  have hnodup : ((b.argumentNames.zip args).map (·.1)).Nodup := by
    rw [List.zip_eq_zip_take_min, List.map_fst_zip (by simp)]
    exact (nodup_argumentNames h.not_arity_neg).sublist (List.take_sublist _ _)
  rw [argumentEnv, h.map_fst_parameters, Env.get?_insertAll_empty hnodup, List.mem_iff_getElem?]
  refine exists_congr fun j => ?_
  rw [List.getElem?_zip_eq_some, argumentNames_eq h.not_arity_neg]
  refine and_congr_left fun hv => ?_
  have hj : j < b.arity.toNat := by
    obtain ⟨hj, _⟩ := List.getElem?_eq_some_iff.mp hv
    omega
  rw [List.getElem?_map, List.getElem?_range hj]
  exact Option.some_inj

end Implements

end Builtin

/-! ## The table -/

namespace Registry

variable {registry : Registry}

theorem find?_of_mem (hnodup : (registry.map (·.name)).Nodup) {b : Builtin} (hb : b ∈ registry) :
    registry.find? b.name = some b := by
  induction registry with
  | nil => cases hb
  | cons c registry ih =>
    rw [List.map_cons, List.nodup_cons] at hnodup
    rcases List.mem_cons.mp hb with rfl | hb
    · exact List.find?_cons_of_pos (by simp)
    · have hne : c.name ≠ b.name := fun heq => hnodup.1 (heq ▸ List.mem_map_of_mem hb)
      exact (List.find?_cons_of_neg (by simpa using hne)).trans (ih hnodup.2 hb)

theorem exists_closures (hnodup : (registry.map (·.name)).Nodup)
    (hclosure : ∀ b ∈ registry, ∃ v, b.closure? = some v) (table : Env Value) :
    ∃ table', Registry.closures table registry = .ok table' ∧
      ∀ b ∈ registry, table'.get? b.name = b.closure? := by
  induction registry generalizing table with
  | nil => exact ⟨table, rfl, nofun⟩
  | cons b registry ih =>
    rw [List.map_cons, List.nodup_cons] at hnodup
    obtain ⟨⟨v, hv⟩, hothers⟩ := List.forall_mem_cons.mp hclosure
    obtain ⟨table', htable, hget⟩ := ih hnodup.2 hothers (table.insert b.name v)
    have hclosures : Registry.closures table (b :: registry) = .ok table' := by
      rw [Registry.closures, hv]
      exact htable
    refine ⟨table', hclosures, List.forall_mem_cons.mpr ⟨?_, hget⟩⟩
    rw [get?_closures htable hnodup.1, Env.get?_insert_self, hv]

theorem exists_table (hnodup : (registry.map (·.name)).Nodup)
    (himplements : ∀ b ∈ registry, ∃ intrinsic, b.Implements intrinsic) :
    ∃ table, registry.table = .ok table ∧
      ∀ b ∈ registry, ∃ v t, table.get? b.name = some v ∧ b.Waiting [] v t := by
  have hclosure : ∀ b ∈ registry, ∃ v t, b.closure? = some v ∧ b.Waiting [] v t := by
    intro b hb
    obtain ⟨_, h⟩ := himplements b hb
    exact h.exists_closure?
  have hsome : ∀ b ∈ registry, ∃ v, b.closure? = some v := by
    intro b hb
    obtain ⟨v, _, hv, _⟩ := hclosure b hb
    exact ⟨v, hv⟩
  obtain ⟨table, htable, hget⟩ := exists_closures hnodup hsome .empty
  have hnone : registry.notImplemented = [] := by
    refine List.map_eq_nil_iff.mpr (List.filter_eq_nil_iff.mpr fun b hb => ?_)
    obtain ⟨_, h⟩ := himplements b hb
    simp [h.ofName?]
  refine ⟨table, by rw [Registry.table, hnone]; exact htable, fun b hb => ?_⟩
  obtain ⟨v, t, hv, hwaiting⟩ := hclosure b hb
  exact ⟨v, t, (hget b hb).trans hv, hwaiting⟩

end Registry

/-! ## Application to variables -/

def Term.applied (func : Term) (xs : List String) : Term :=
  xs.foldl (fun f x => .app f (.var x)) func

theorem Term.applied_concat (func : Term) (xs : List String) (x : String) :
    func.applied (xs ++ [x]) = .app (func.applied xs) (.var x) := by
  rw [applied, applied, List.foldl_concat]

section Evaluation

variable {globals : Globals} {exhausted : Fault} {env : Env Value} {n : Nat}
  {post : Value → Prop} {fault : Fault → Prop}

theorem Term.eval_app_ensures {func arg body : Term} {captured : Env Value} {param : String}
    {a : Value}
    (hfunc : (func.eval globals exhausted n env).Ensures (· = .closure captured param body) fault)
    (harg : (arg.eval globals exhausted n env).Ensures (· = a) fault)
    (hbody : (body.eval globals exhausted n (captured.insert param a)).Ensures post fault) :
    ((app func arg).eval globals exhausted (n + 1) env).Ensures post fault := by
  refine eval_succ_ensures (.bind hfunc ?_)
  rintro _ rfl
  refine .bind harg ?_
  rintro _ rfl
  exact hbody

theorem Term.eval_var_ensures {x : String} {v : Value} (hx : env.get? x = some v) :
    ((var x).eval globals exhausted (n + 1) env).Ensures (· = v) fault := by
  have hlookup : globals.lookup env x = .ok v := by rw [Globals.lookup, hx]
  exact eval_succ_ensures (.ofExcept_ok hlookup rfl)

namespace Builtin

variable {b : Builtin} {xs : List String} {vs : List Value}

/-- **One more argument**: the built-in waits for the next, or is called. -/
theorem Waiting.eval_app {args : List Value} {w v : Value} {t : Ty} (hw : b.Waiting args w t)
    {func arg : Term}
    (hfunc : (func.eval globals exhausted (n + 1) env).Ensures (· = w) fault)
    (harg : (arg.eval globals exhausted (n + 1) env).Ensures (· = v) fault) :
    (∃ w' t', b.Waiting (args ++ [v]) w' t' ∧
      ((Term.app func arg).eval globals exhausted (n + 2) env).Ensures (· = w') fault) ∨
    (args ++ [v]).length = b.parameters.length ∧
      ∀ post,
        (Traced.ofExcept (globals.registry.call (b.argumentEnv (args ++ [v])) b.name)).Ensures post
          fault →
        ((Term.app func arg).eval globals exhausted (n + 2) env).Ensures post fault := by
  cases hw with
  | mk split =>
    rcases (Waiting.mk split).step v with ⟨w', hw', hstep⟩ | ⟨hlength, _, hstep⟩
    · refine .inl ⟨w', _, hw', Term.eval_app_ensures hfunc harg (Term.eval_succ_ensures ?_)⟩
      rw [hstep]
      exact .pure rfl
    · refine .inr ⟨hlength, fun post hcall => ?_⟩
      refine Term.eval_app_ensures hfunc harg (Term.eval_succ_ensures ?_)
      rwa [hstep]

theorem Waiting.length_lt {args : List Value} {w : Value} {t : Ty} (hw : b.Waiting args w t) :
    args.length < b.parameters.length := by
  cases hw with
  | mk split =>
    refine Nat.lt_of_not_le fun hle => ?_
    rw [List.drop_of_length_le hle] at split
    cases split

theorem exists_take_succ (hbound : xs.map env.get? = vs.map some) {k : Nat} (hk : k < vs.length) :
    ∃ x v, xs.take (k + 1) = xs.take k ++ [x] ∧ vs.take (k + 1) = vs.take k ++ [v] ∧
      env.get? x = some v := by
  have hget := congrArg (·[k]?) hbound
  simp only [List.getElem?_map, List.getElem?_eq_getElem hk, Option.map_some,
    Option.map_eq_some_iff] at hget
  obtain ⟨x, hx, hvalue⟩ := hget
  refine ⟨x, vs[k], ?_, ?_, hvalue⟩
  · rw [List.take_add_one, hx]
    rfl
  · rw [List.take_add_one, List.getElem?_eq_getElem hk]
    rfl

/-- **After some of its arguments** a built-in waits for the next. -/
theorem eval_applied {first : Value} {type : Ty}
    (htop : globals.topLevel.get? b.name = some first) (hfirst : b.Waiting [] first type)
    (hfree : env.get? b.name = none) (hbound : xs.map env.get? = vs.map some) {k : Nat}
    (hk : k < b.parameters.length) (hvs : k ≤ vs.length) (hn : k < n) :
    ∃ w t, b.Waiting (vs.take k) w t ∧
      ((Term.applied (.var b.name) (xs.take k)).eval globals exhausted n env).Ensures (· = w)
        fault := by
  induction k generalizing n with
  | zero =>
    obtain ⟨n, rfl⟩ := Nat.exists_eq_add_one.mpr hn
    have hlookup : globals.lookup env b.name = .ok first := by
      rw [Globals.lookup, hfree, htop]
    exact ⟨first, type, hfirst, Term.eval_succ_ensures (.ofExcept_ok hlookup rfl)⟩
  | succ k ih =>
    obtain ⟨n, rfl⟩ : ∃ m, n = m + 2 := ⟨n - 2, by omega⟩
    obtain ⟨w, t, hw, hfunc⟩ := ih (n := n + 1) (by omega) (by omega) (by omega)
    obtain ⟨x, v, hx, hargs, hvalue⟩ := exists_take_succ hbound hvs
    rw [hx, hargs, Term.applied_concat]
    rcases hw.eval_app hfunc (Term.eval_var_ensures hvalue) with hnext | ⟨hlength, _⟩
    · exact hnext
    · rw [← hargs, List.length_take_of_le hvs] at hlength
      omega

/-- **After all of its arguments** a built-in is called. -/
theorem eval_applied_all {first : Value} {type : Ty}
    (htop : globals.topLevel.get? b.name = some first) (hfirst : b.Waiting [] first type)
    (hfree : env.get? b.name = none) (hbound : xs.map env.get? = vs.map some)
    (hlength : vs.length = b.parameters.length) (hn : vs.length < n)
    (hcall : (Traced.ofExcept (globals.registry.call (b.argumentEnv vs) b.name)).Ensures post
      fault) :
    ((Term.applied (.var b.name) xs).eval globals exhausted n env).Ensures post fault := by
  have hpos : 0 < b.parameters.length := hfirst.length_lt
  have hxs : xs.length = vs.length := by
    have hlengths := congrArg List.length hbound
    rwa [List.length_map, List.length_map] at hlengths
  obtain ⟨k, hk⟩ : ∃ k, vs.length = k + 1 := ⟨vs.length - 1, by omega⟩
  obtain ⟨n, rfl⟩ : ∃ m, n = m + 2 := ⟨n - 2, by omega⟩
  have hpartial : ∃ w t, b.Waiting (vs.take k) w t ∧
      ((Term.applied (.var b.name) (xs.take k)).eval globals exhausted (n + 1) env).Ensures (· = w)
        fault :=
    eval_applied htop hfirst hfree hbound (by omega) (by omega) (by omega)
  obtain ⟨w, t, hw, hfunc⟩ := hpartial
  obtain ⟨x, v, hx, hargs, hvalue⟩ := exists_take_succ hbound (k := k) (by omega)
  rw [List.take_of_length_le (by omega)] at hx hargs
  rw [hx, Term.applied_concat]
  rcases hw.eval_app hfunc (Term.eval_var_ensures hvalue) with ⟨_, _, hnext, _⟩ | ⟨_, hcalls⟩
  · have hlt := hnext.length_lt
    rw [← hargs] at hlt
    omega
  · rw [← hargs] at hcalls
    exact hcalls post hcall

end Builtin

end Evaluation

/-! ## Registries -/

/-- The argument at a position is of the kind that its type demands. -/
def Builtin.Suits (b : Builtin) (args : List Value) (i : Nat) : Prop :=
  args[i]?.map Value.kind = b.params[i]?.map Ty.kind

instance (b : Builtin) (args : List Value) (i : Nat) : Decidable (b.Suits args i) :=
  inferInstanceAs (Decidable (_ = _))

theorem Builtin.suits_iff {b : Builtin} {args : List Value} {i : Nat} {v : Value} {t : Ty}
    (hv : args[i]? = some v) (ht : b.params[i]? = some t) :
    b.Suits args i ↔ v.kind = t.kind := by
  rw [Suits, hv, ht]
  exact Option.some_inj

namespace Builtin.Implements

variable {registry : Registry} {b : Builtin} {intrinsic : Intrinsic} {args : List Value}

theorem getElem?_params (h : b.Implements intrinsic) {i : Nat} {p : String × Ty}
    (hp : b.parameters[i]? = some p) : b.params[i]? = some p.2 := by
  rw [← h.map_snd_parameters, List.getElem?_map, hp]
  rfl

theorem get?_argument (h : b.Implements intrinsic) (hlength : args.length = b.parameters.length)
    {i : Nat} {v : Value} {p : String × Ty} (hv : args[i]? = some v)
    (hp : b.parameters[i]? = some p) : (b.argumentEnv args).get? p.1 = some v := by
  refine get?_argumentEnv ?_ hlength hv hp
  rw [h.map_fst_parameters]
  exact nodup_argumentNames h.not_arity_neg

theorem call_of_suits (h : b.Implements intrinsic) (hfind : registry.find? b.name = some b)
    (hlength : args.length = b.parameters.length) (hsuits : ∀ i < args.length, b.Suits args i) :
    ∃ w, intrinsic.run? args = some w ∧ registry.call (b.argumentEnv args) b.name = .ok w := by
  have hints : ∀ i < intrinsic.reads, ∃ n, args[i]? = some (.int n) := by
    intro i hi
    have hreads := h.reads_le
    have hlt : i < args.length := by
      rw [hlength, h.length_parameters]
      omega
    have hkind := (suits_iff (List.getElem?_eq_getElem hlt) (h.param_eq i hi)).mp (hsuits i hlt)
    obtain ⟨n, hn⟩ := Value.eq_int_of_kind hkind
    exact ⟨n, by rw [List.getElem?_eq_getElem hlt, hn]⟩
  obtain ⟨w, hrun⟩ := Intrinsic.exists_run? hints
  have hargs : arguments b.name (b.argumentEnv args) (b.parameters.map (·.1))
      (b.parameters.map (·.2)) = .ok args := by
    refine arguments_eq_ok hlength fun i v p hv hp => ⟨h.get?_argument hlength hv hp, ?_⟩
    obtain ⟨hi, _⟩ := List.getElem?_eq_some_iff.mp hv
    exact (suits_iff hv (h.getElem?_params hp)).mp (hsuits i hi)
  rw [h.map_fst_parameters, h.map_snd_parameters] at hargs
  exact ⟨w, hrun, call_eq_ok hfind h.ofName? h.not_arity_neg hargs hrun⟩

theorem call_of_not_suits (h : b.Implements intrinsic) (hfind : registry.find? b.name = some b)
    (hlength : args.length = b.parameters.length) {i : Nat} (hi : i < args.length)
    (hnot : ¬ b.Suits args i) (hbefore : ∀ j < i, b.Suits args j) :
    ∃ v t, args[i]? = some v ∧ b.params[i]? = some t ∧
      registry.call (b.argumentEnv args) b.name =
        .error (.builtin (.wrongKind b.name t (argumentName (i + 1)) v.kind)) := by
  have hfound := arguments_of_bound b.name hlength fun j w q => h.get?_argument hlength
  rw [h.map_fst_parameters, h.map_snd_parameters] at hfound
  obtain ⟨p, hp⟩ : ∃ p, b.parameters[i]? = some p := ⟨_, List.getElem?_eq_getElem (hlength ▸ hi)⟩
  have hkind : args[i].kind ≠ p.2.kind := fun heq =>
    hnot ((suits_iff (List.getElem?_eq_getElem hi) (h.getElem?_params hp)).mpr heq)
  rcases hfound with hall | ⟨j, v, q, hv, hq, hne, hsame, herror⟩
  · exact absurd (hall i _ p (List.getElem?_eq_getElem hi) hp) hkind
  · -- It is the same argument, since both are the first.
    obtain rfl : j = i := by
      rcases Nat.lt_trichotomy j i with hj | hj | hj
      · exact absurd ((suits_iff hv (h.getElem?_params hq)).mp (hbefore j hj)) hne
      · exact hj
      · exact absurd (hsame i hj _ p (List.getElem?_eq_getElem hi) hp) hkind
    rw [parameter_name h.not_arity_neg hq] at herror
    exact ⟨v, q.2, hv, h.getElem?_params hq,
      call_eq_error hfind h.ofName? h.not_arity_neg herror⟩

theorem closure_of_waiting (h : b.Implements intrinsic) {w : Value} {t : Ty}
    (hw : b.Waiting args w t) :
    ∃ captured body, w = .closure captured (argumentName (args.length + 1)) body ∧
      ∀ name v, captured.get? name = some v ↔
        ∃ j : Nat, argumentName (j + 1) = name ∧ args[j]? = some v := by
  have hle : args.length ≤ b.arity.toNat := by
    rw [← h.length_parameters]
    exact Nat.le_of_lt hw.length_lt
  cases hw with
  | @mk param _ _ split =>
    have hparam : param = argumentName (args.length + 1) :=
      parameter_name h.not_arity_neg (Waiting.mk split).parameter
    rw [hparam]
    exact ⟨_, _, rfl, fun name v => h.get?_argumentEnv_iff hle⟩

end Builtin.Implements

/-- **Curried built-ins of any arity.** Let the entries of a registry have distinct names and be
declared as their intrinsics demand, and let the variables `xs` be bound to as many values as the
entry `d` has arguments. In the evaluator of no definitions, with a level for each argument and one
more, or with so much fuel where there is no limit: applied to the first `k` of the variables, `d`
is a closure that takes its next parameter and has exactly the first `k` parameters bound, to those
values in order. Applied to all of them, it gives what its intrinsic computes from the values if
each is of the kind that its type demands, and otherwise reports the first that is not. -/
theorem evaluate_curried {registry : Registry} (hnodup : (registry.map (·.name)).Nodup)
    (himplements : ∀ b ∈ registry, ∃ intrinsic, b.Implements intrinsic)
    {d : Builtin} (hd : d ∈ registry) {env : Env Value} (hfree : env.get? d.name = none)
    {xs : List String} {vs : List Value} (hbound : xs.map env.get? = vs.map some)
    (harity : vs.length = d.arity) {limit : DepthLimit} (hdepth : vs.length < limit.depth) :
    ∃ e intrinsic, (Evaluator.ofDefinitions registry limit []).result = .ok e ∧
      Intrinsic.ofName? d.name = some intrinsic ∧
      (∀ k < vs.length, ∃ captured body,
        (e.evaluate registry env (.applied (.var d.name) (xs.take k))).result =
          .ok (.closure captured (argumentName (k + 1)) body) ∧
        ∀ name v, captured.get? name = some v ↔
          ∃ j < k, argumentName (j + 1) = name ∧ vs[j]? = some v) ∧
      ((∀ i < vs.length, d.Suits vs i) →
        ∃ w, intrinsic.run? vs = some w ∧
          (e.evaluate registry env (.applied (.var d.name) xs)).result = .ok w) ∧
      ∀ i < vs.length, ¬ d.Suits vs i → (∀ j < i, d.Suits vs j) →
        ∃ v t, vs[i]? = some v ∧ d.params[i]? = some t ∧
          (e.evaluate registry env (.applied (.var d.name) xs)).result =
            .error (.builtin (.wrongKind d.name t (argumentName (i + 1)) v.kind)) := by
  obtain ⟨intrinsic, himpl⟩ := himplements d hd
  obtain ⟨table, htable, hwaiting⟩ := Registry.exists_table hnodup himplements
  obtain ⟨first, type, htop, hfirst⟩ := hwaiting d hd
  have hfind := Registry.find?_of_mem hnodup hd
  have hlength : vs.length = d.parameters.length := by
    rw [himpl.length_parameters]
    omega
  have hcalled : (Evaluator.evaluate ⟨table, limit⟩ registry env (.applied (.var d.name) xs)).result
      = registry.call (d.argumentEnv vs) d.name :=
    Traced.Ensures.result_eq
      (Builtin.eval_applied_all htop hfirst hfree hbound hlength hdepth (.ofExcept _))
  refine ⟨⟨table, limit⟩, intrinsic, ?_, himpl.ofName?, fun k hk => ?_, fun hsuits => ?_,
    fun i hi hnot hbefore => ?_⟩
  · rw [Evaluator.ofDefinitions_of_table htable]
    rfl
  · have hwaits : ∃ w t, d.Waiting (vs.take k) w t ∧
        ((Term.applied (.var d.name) (xs.take k)).eval ⟨registry, table⟩ limit.exhausted limit.depth
          env).Ensures (· = w) fun _ => False :=
      Builtin.eval_applied htop hfirst hfree hbound (by omega) (by omega) (by omega)
    obtain ⟨w, t, hw, heval⟩ := hwaits
    obtain ⟨captured, body, rfl, hcaptured⟩ := himpl.closure_of_waiting hw
    rw [List.length_take_of_le (Nat.le_of_lt hk)] at heval
    refine ⟨captured, body, heval.run_eq, fun name v => (hcaptured name v).trans ?_⟩
    refine exists_congr fun j => ?_
    rw [List.getElem?_take, and_left_comm]
    split <;> simp [*]
  · obtain ⟨w, hrun, hcall⟩ := himpl.call_of_suits hfind hlength hsuits
    exact ⟨w, hrun, hcalled.trans hcall⟩
  · obtain ⟨v, t, hv, ht, hcall⟩ := himpl.call_of_not_suits hfind hlength hi hnot hbefore
    exact ⟨v, t, hv, ht, hcalled.trans hcall⟩

/-- A registry with an entry that takes a function after the numbers that it compares. -/
def Registry.wide : Registry :=
  [⟨"int_to_string", 1, .curried [.int] .text⟩,
   ⟨"greater_than", 3, .curried [.int, .int, .fn .int .bool] .text⟩]

theorem Registry.implements_wide : ∀ b ∈ wide, ∃ intrinsic, b.Implements intrinsic := by
  refine List.forall_mem_cons.mpr ⟨⟨.intToString, ?_⟩, List.forall_mem_singleton.mpr
    ⟨.greaterThan, ?_⟩⟩
  · exact ⟨rfl, by decide, by decide, by decide⟩
  · exact ⟨rfl, by decide, by decide, by decide⟩

/-- Two of three arguments do not suit, and the first of these is reported. -/
theorem evaluate_curried_wide :
    let vs : List Value := [.int 2, .text [], .bool true]
    let env : Env Value := .insertAll .empty (["x", "y", "z"].zip vs)
    (Registry.wide.map (·.name)).Nodup ∧
      (∀ b ∈ Registry.wide, ∃ intrinsic, b.Implements intrinsic) ∧
      env.get? "greater_than" = none ∧ ["x", "y", "z"].map env.get? = vs.map some ∧
      vs.length < (DepthLimit.unlimited 4).depth ∧
      ∃ e, (Evaluator.ofDefinitions .wide (.unlimited 4) []).result = .ok e ∧
        (∃ captured body,
          (e.evaluate .wide env (.applied (.var "greater_than") ["x", "y"])).result =
            .ok (.closure captured "param3" body) ∧ captured.get? "param2" = some (.text [])) ∧
        (e.evaluate .wide env (.applied (.var "greater_than") ["x", "y", "z"])).result =
          .error (.builtin (.wrongKind "greater_than" .int "param2" .text)) := by
  intro vs env
  have hnodup : (Registry.wide.map (·.name)).Nodup := by decide
  have hfree : env.get? "greater_than" = none := rfl
  have hbound : ["x", "y", "z"].map env.get? = vs.map some := rfl
  have hdepth : vs.length < (DepthLimit.unlimited 4).depth := by decide
  obtain ⟨e, intrinsic, he, _, hpartial, _, herror⟩ :=
    evaluate_curried hnodup Registry.implements_wide
      (List.mem_cons_of_mem _ List.mem_cons_self) hfree hbound rfl hdepth
  refine ⟨hnodup, Registry.implements_wide, hfree, hbound, hdepth, e, he, ?_, ?_⟩
  · obtain ⟨captured, body, hresult, hcaptured⟩ := hpartial 2 (by decide)
    exact ⟨captured, body, hresult, (hcaptured _ _).mpr ⟨1, by decide, rfl, rfl⟩⟩
  · obtain ⟨v, t, hv, ht, hresult⟩ := herror 1 (by decide) (by decide) (by decide)
    obtain rfl := Option.some.inj hv
    obtain rfl := Option.some.inj ht
    exact hresult

end TypedLambda
