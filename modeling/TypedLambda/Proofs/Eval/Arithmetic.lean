import Mathlib.Data.Int.ModEq
import TypedLambda.Proofs.Eval.Cutoff

/-!
# Arithmetic modulo a power of two

An arithmetic term is built from integer literals, local names of integers, sums, differences,
products and `let`. Its integer over the unbounded integers is `Term.integer?`, and how deeply its
evaluation nests is `Term.height`. Every inner result wraps around at 64 bits, and so does what a
`let` binds; since wrapping around (`Int64.ofInt`) respects the operations, the value is the integer
of the whole term, wrapped around once (`Term.eval_integer`). No other fault can come up, so a limit
matters exactly if it is below the height.
-/

namespace TypedLambda

/-! ## Wrapping around -/

theorem ofInt_eq_ofInt_iff {a b : Int} :
    Int64.ofInt a = Int64.ofInt b ↔ a ≡ b [ZMOD 2 ^ 64] := by
  rw [← Int64.toInt_inj, Int64.toInt_ofInt, Int64.toInt_ofInt]
  constructor
  · intro h
    have hmod := congrArg (· % (Int64.size : Int)) h
    simp only [Int.bmod_emod] at hmod
    exact hmod
  · intro h
    rw [← Int.emod_bmod a, ← Int.emod_bmod b]
    exact congrArg (Int.bmod · Int64.size) h

theorem eq_toInt_ofInt_iff {k z : Int} :
    k = (Int64.ofInt z).toInt ↔ -2 ^ 63 ≤ k ∧ k < 2 ^ 63 ∧ k ≡ z [ZMOD 2 ^ 64] := by
  constructor
  · rintro rfl
    refine ⟨Int64.le_toInt _, Int64.toInt_lt _, ?_⟩
    rw [← ofInt_eq_ofInt_iff, Int64.ofInt_toInt]
  · rintro ⟨hle, hlt, hmod⟩
    rw [← ofInt_eq_ofInt_iff.mpr hmod, Int64.toInt_ofInt_of_le hle hlt]

/-! ## Arithmetic terms -/

def Operator.integer? (m n : Int) : Operator → Option Int
  | add => some (m + n)
  | sub => some (m - n)
  | mul => some (m * n)
  | _ => none

def Env.integer? (env : Env Value) (name : String) : Option Int :=
  match env.get? name with
  | some (.int n) => some n.toInt
  | _ => none

namespace Term

/-- The integer of an arithmetic term without any bound, by the integers of the names that it
uses. -/
def integer? (integers : String → Option Int) : Term → Option Int
  | lit (.int n) => some n.toInt
  | var name => integers name
  | bin op left right =>
    (left.integer? integers).bind fun m => (right.integer? integers).bind fun n => op.integer? m n
  | letIn name bound body =>
    (bound.integer? integers).bind fun m =>
      body.integer? fun other => if other = name then some m else integers other
  | _ => none

/-- The number of nodes on a longest way down from the top of a term. -/
def height : Term → Nat
  | app func arg => 1 + max func.height arg.height
  | lam _ _ body => 1 + body.height
  | lit _ => 1
  | var _ => 1
  | bin _ left right => 1 + max left.height right.height
  | ite cond yes no => 1 + max cond.height (max yes.height no.height)
  | letIn _ bound body => 1 + max bound.height body.height
  | builtin _ => 1

theorem height_pos (x : Term) : 0 < x.height := by
  cases x <;> rw [height] <;> omega

end Term

theorem Operator.apply_integer {op : Operator} {m n z : Int} (h : op.integer? m n = some z) :
    op.apply (.int (.ofInt m)) (.int (.ofInt n)) = .ok (.int (.ofInt z)) := by
  cases op with
  | add =>
    obtain rfl := Option.some.inj h
    rw [Int64.ofInt_add]
    rfl
  | sub =>
    obtain rfl := Option.some.inj h
    rw [Int64.ofInt_sub]
    rfl
  | mul =>
    obtain rfl := Option.some.inj h
    rw [Int64.ofInt_mul]
    rfl
  | _ => cases h

/-- The environment binds each name to its integer, wrapped around. -/
def Env.Wraps (env : Env Value) (integers : String → Option Int) : Prop :=
  ∀ name z, integers name = some z → env.get? name = some (.int (.ofInt z))

theorem Env.wraps_integer (env : Env Value) : env.Wraps env.integer? := by
  intro name z h
  unfold integer? at h
  split at h
  · next n hn =>
    obtain rfl := Option.some.inj h
    rw [hn, Int64.ofInt_toInt]
  · cases h

theorem Env.Wraps.insert {env : Env Value} {integers : String → Option Int} (h : env.Wraps integers)
    (name : String) (m : Int) :
    (env.insert name (.int (.ofInt m))).Wraps
      fun other => if other = name then some m else integers other := by
  intro other z (hz : (if other = name then some m else integers other) = some z)
  rw [Env.get?_insert]
  by_cases heq : other = name
  · rw [if_pos heq] at hz ⊢
    rw [Option.some.inj hz]
  · rw [if_neg heq] at hz ⊢
    exact h other z hz

/-! ## Levels -/

/-- With `n` levels the computation has the value `v` if they are as many as its height, and uses
them up if they are fewer. -/
def Traced.NeedsLevels (x : Traced Value) (n height : Nat) (exhausted : Fault) (v : Value) : Prop :=
  x.Ensures (fun w => height ≤ n ∧ w = v) fun e => n < height ∧ e = exhausted

namespace Traced.NeedsLevels

variable {x : Traced Value} {n height : Nat} {exhausted : Fault} {v : Value}

theorem part (h : x.NeedsLevels n height exhausted v) {total : Nat} (htotal : height < total) :
    x.Ensures (fun w => height ≤ n ∧ w = v) fun e => n + 1 < total ∧ e = exhausted :=
  h.mono (fun _ hw => hw) fun _ he => ⟨by omega, he.2⟩

theorem result_eq_ok (h : x.NeedsLevels n height exhausted v) (hle : height ≤ n) :
    x.run.result = .ok v := by
  cases hrun : x.run.result with
  | ok w => rw [(h.of_ok hrun).2]
  | error e => exact absurd (h.of_error hrun).1 (Nat.not_lt.mpr hle)

theorem result_eq_error (h : x.NeedsLevels n height exhausted v) (hlt : n < height) :
    x.run.result = .error exhausted := by
  cases hrun : x.run.result with
  | ok w => exact absurd (h.of_ok hrun).1 (Nat.not_le.mpr hlt)
  | error e => rw [(h.of_error hrun).2]

end Traced.NeedsLevels

namespace Term

variable {globals : Globals} {exhausted : Fault} {env : Env Value}

theorem eval_zero_needsLevels (x : Term) (v : Value) :
    (x.eval globals exhausted 0 env).NeedsLevels 0 x.height exhausted v :=
  eval_zero_ensures ⟨x.height_pos, rfl⟩

theorem eval_bin_needsLevels {op : Operator} {left right : Term} {l r v : Value} {n : Nat}
    (hleft : (left.eval globals exhausted n env).NeedsLevels n left.height exhausted l)
    (hright : (right.eval globals exhausted n env).NeedsLevels n right.height exhausted r)
    (hop : op.apply l r = .ok v) :
    ((bin op left right).eval globals exhausted (n + 1) env).NeedsLevels (n + 1)
      (bin op left right).height exhausted v := by
  have hheight : (bin op left right).height = 1 + max left.height right.height := rfl
  refine eval_succ_ensures (.bind (hleft.part (by omega)) ?_)
  rintro _ ⟨hleft, rfl⟩
  refine .bind (hright.part (by omega)) ?_
  rintro _ ⟨hright, rfl⟩
  exact .ofExcept_ok hop ⟨by omega, rfl⟩

theorem eval_letIn_needsLevels {name : String} {bound body : Term} {b v : Value} {n : Nat}
    (hbound : (bound.eval globals exhausted n env).NeedsLevels n bound.height exhausted b)
    (hbody : (body.eval globals exhausted n (env.insert name b)).NeedsLevels n body.height
      exhausted v) :
    ((letIn name bound body).eval globals exhausted (n + 1) env).NeedsLevels (n + 1)
      (letIn name bound body).height exhausted v := by
  have hheight : (letIn name bound body).height = 1 + max bound.height body.height := rfl
  refine eval_succ_ensures (.bind (hbound.part (by omega)) ?_)
  rintro _ ⟨hbound, rfl⟩
  exact hbody.mono (fun _ hw => ⟨by omega, hw.2⟩) fun _ he => ⟨by omega, he.2⟩

/-! ## Values -/

/-- **The value of an arithmetic term** is its integer, wrapped around, and the levels that it needs
are its height. -/
theorem eval_integer {integers : String → Option Int} {x : Term} {z : Int}
    (henv : env.Wraps integers) (h : x.integer? integers = some z) (n : Nat) :
    (x.eval globals exhausted n env).NeedsLevels n x.height exhausted (.int (.ofInt z)) := by
  -- On the levels, since the parts of a node are evaluated with one level less.
  induction n generalizing integers env x z with
  | zero => exact eval_zero_needsLevels x _
  | succ n ih =>
    cases x with
    | lit value =>
      cases value with
      | int k =>
        obtain rfl := Option.some.inj h
        exact eval_succ_ensures (.pure ⟨Nat.le_add_left 1 n, by rw [Int64.ofInt_toInt]; rfl⟩)
      | _ => cases h
    | var name =>
      have hlookup : globals.lookup env name = .ok (.int (.ofInt z)) := by
        rw [Globals.lookup, henv name z h]
      exact eval_succ_ensures (.ofExcept_ok hlookup ⟨Nat.le_add_left 1 n, rfl⟩)
    | bin op left right =>
      obtain ⟨a, ha, h⟩ := Option.bind_eq_some_iff.mp h
      obtain ⟨b, hb, hop⟩ := Option.bind_eq_some_iff.mp h
      exact eval_bin_needsLevels (ih henv ha) (ih henv hb) (Operator.apply_integer hop)
    | letIn name bound body =>
      obtain ⟨a, ha, hbody⟩ := Option.bind_eq_some_iff.mp h
      exact eval_letIn_needsLevels (ih henv ha) (ih (henv.insert name a) hbody)
    | _ => cases h

theorem eval_eq_integer {integers : String → Option Int} {x y : Term} {a b : Int}
    (henv : env.Wraps integers) (hx : x.integer? integers = some a)
    (hy : y.integer? integers = some b) (n : Nat) :
    ((bin .eq x y).eval globals exhausted n env).NeedsLevels n (bin .eq x y).height exhausted
      (.bool (decide (a ≡ b [ZMOD 2 ^ 64]))) := by
  cases n with
  | zero => exact eval_zero_needsLevels _ _
  | succ n =>
    refine eval_bin_needsLevels (eval_integer henv hx n) (eval_integer henv hy n) ?_
    have hcongr : (Int64.ofInt a == Int64.ofInt b) = decide (a ≡ b [ZMOD 2 ^ 64]) := by
      rw [Bool.eq_iff_iff, beq_iff_eq, decide_eq_true_eq, ofInt_eq_ofInt_iff]
    rw [← hcongr]
    rfl

end Term

/-! ## Limits -/

/-- Without a limit, or with at least as many levels as the term is high, it has the value `v`; with
fewer levels it is too deep. Where there is no limit, the fuel allows for so many levels. -/
def Term.ValuedAtHeight (registry : Registry) (table env : Env Value) (x : Term) (v : Value) :
    Prop :=
  ∀ (fuel : Nat) (m : Int),
    (m ≤ 0 ∧ x.height ≤ fuel ∨ x.height ≤ m →
      (Evaluator.evaluate ⟨table, .ofNumber fuel m⟩ registry env x).result = .ok v) ∧
    (0 < m → m < x.height →
      (Evaluator.evaluate ⟨table, .ofNumber fuel m⟩ registry env x).result = .error .tooDeep)

theorem Term.valuedAtHeight {registry : Registry} {table env : Env Value} {x : Term} {v : Value}
    (h : ∀ exhausted n,
      (x.eval ⟨registry, table⟩ exhausted n env).NeedsLevels n x.height exhausted v) :
    x.ValuedAtHeight registry table env v := by
  refine fun fuel m => ⟨?_, fun hpos hlt => ?_⟩
  · rintro (⟨hnonpos, hfuel⟩ | hle)
    · rw [DepthLimit.ofNumber_of_nonpos hnonpos]
      exact (h .outOfFuel fuel).result_eq_ok hfuel
    · have hpos := x.height_pos
      rw [DepthLimit.ofNumber_of_pos (by omega)]
      exact (h .tooDeep m.toNat).result_eq_ok (by omega)
  · rw [DepthLimit.ofNumber_of_pos hpos]
    exact (h .tooDeep m.toNat).result_eq_error (by omega)

/-- **Arithmetic is exact modulo `2 ^ 64`, at an exact depth.** From its height on, an arithmetic
term has for its value the one number of 64 bits that is congruent to its integer, and so two such
terms are equal if and only if their integers are congruent. -/
theorem evaluate_arithmetic (registry : Registry) (table env : Env Value) :
    (∀ (x : Term) (z : Int), x.integer? env.integer? = some z →
      ∃ w : Int64, x.ValuedAtHeight registry table env (.int w) ∧
        ∀ k : Int, k = w.toInt ↔ -2 ^ 63 ≤ k ∧ k < 2 ^ 63 ∧ k ≡ z [ZMOD 2 ^ 64]) ∧
    ∀ (x y : Term) (a b : Int), x.integer? env.integer? = some a →
      y.integer? env.integer? = some b →
      ∃ truth, (Term.bin .eq x y).ValuedAtHeight registry table env (.bool truth) ∧
        (truth = true ↔ a ≡ b [ZMOD 2 ^ 64]) := by
  refine ⟨fun x z hz => ⟨.ofInt z, ?_, fun k => eq_toInt_ofInt_iff⟩, fun x y a b ha hb => ?_⟩
  · exact Term.valuedAtHeight fun _ n => Term.eval_integer env.wraps_integer hz n
  · refine ⟨_, Term.valuedAtHeight fun _ n => ?_, decide_eq_true_iff⟩
    exact Term.eval_eq_integer env.wraps_integer ha hb n

/-- A product of two factors that are both beyond 64 bits. -/
def Term.productBeyond : Term :=
  .letIn "a" (.bin .add (.lit (.int Int64.maxValue)) (.var "n"))
    (.bin .mul (.var "a") (.bin .sub (.var "a") (.lit (.int 1))))

theorem evaluate_arithmetic_productBeyond :
    let env : Env Value := Env.empty.insert "n" (.int 3)
    let wrapped : Term := .lit (.int (-9223372036854775806))
    Term.productBeyond.integer? env.integer? = some ((2 ^ 63 + 2) * (2 ^ 63 + 1)) ∧
    (Evaluator.evaluate ⟨.empty, .ofNumber 0 4⟩ .standard env Term.productBeyond).result =
      .ok (.int (-9223372036854775806)) ∧
    (Evaluator.evaluate ⟨.empty, .ofNumber 0 3⟩ .standard env Term.productBeyond).result =
      .error .tooDeep ∧
    (Evaluator.evaluate ⟨.empty, .ofNumber 5 0⟩ .standard env
      (.bin .eq Term.productBeyond wrapped)).result = .ok (.bool true) := by
  intro env wrapped
  have hz : Term.productBeyond.integer? env.integer? = some ((2 ^ 63 + 2) * (2 ^ 63 + 1)) := by
    decide
  have hmod : -9223372036854775806 ≡ (2 ^ 63 + 2) * (2 ^ 63 + 1) [ZMOD 2 ^ 64] := by
    decide +kernel
  obtain ⟨hint, heq⟩ := evaluate_arithmetic .standard .empty env
  obtain ⟨w, hw, hunique⟩ := hint _ _ hz
  obtain ⟨truth, htruth, hcongr⟩ := heq _ wrapped _ (-9223372036854775806) hz rfl
  obtain rfl : w = -9223372036854775806 :=
    Int64.toInt_inj.mp ((hunique _).mpr ⟨by decide, by decide, hmod⟩).symm
  obtain rfl : truth = true := hcongr.mpr hmod.symm
  refine ⟨hz, (hw 0 4).1 (.inr ?_), (hw 0 3).2 ?_ ?_, (htruth 5 0).1 (.inl ⟨?_, ?_⟩)⟩ <;> decide

end TypedLambda
