import TypedLambda.Eval.Traced

/-!
# Evaluation

Terms are evaluated strictly, from left to right, in an environment of local names and under a
table of top-level values. `Term.step` is one node in terms of its parts; `Term.eval n` evaluates
with at most `n` levels of nesting.
-/

namespace TypedLambda

/-! ## Operators and built-ins -/

/-- Apply an operator to two values. Integers wrap around at 64 bits. -/
def Operator.apply (op : Operator) (left right : Value) : Except Fault Value :=
  match op with
  | add => onInts fun m n => .int (m + n)
  | sub => onInts fun m n => .int (m - n)
  | mul => onInts fun m n => .int (m * n)
  | eq => onInts fun m n => .bool (m == n)
  | or => onBools fun a b => .bool (a || b)
  | and => onBools fun a b => .bool (a && b)
  | concat =>
    match left, right with
    | .text s, .text t => .ok (.text (s ++ t))
    | _, _ => .error (.operands op .text left.kind right.kind)
  | unknown _ => .error (.unknownOperator op)
where
  /-- Apply a function of integers. -/
  onInts (f : Int64 → Int64 → Value) : Except Fault Value :=
    match left, right with
    | .int m, .int n => .ok (f m n)
    | _, _ => .error (.operands op .int left.kind right.kind)
  /-- Apply a function of truth values. -/
  onBools (f : Bool → Bool → Value) : Except Fault Value :=
    match left, right with
    | .bool a, .bool b => .ok (f a b)
    | _, _ => .error (.operands op .bool left.kind right.kind)

/-- The arguments of the named built-in, by the names they are bound to. Each has to be bound to a
value of the kind that its type demands. -/
def Builtin.arguments (name : String) (env : Env Value) :
    List String → List Ty → Except Fault (List Value)
  | [], _ => .ok []
  | param :: params, types =>
    match env.get? param with
    | none => .error (.builtin (.missing name param))
    | some v =>
      match types with
      | [] => .error (.brokenBuiltin name)
      | t :: ts =>
        if v.kind = t.kind then (arguments name env params ts).map (v :: ·)
        else .error (.builtin (.wrongKind name t param v.kind))

/-- Call a built-in whose parameters are bound in the environment. -/
def Registry.call (registry : Registry) (env : Env Value) (name : String) : Except Fault Value :=
  match registry.find? name with
  | none => .error (.builtin (.unknown name))
  | some b =>
    match Intrinsic.ofName? name with
    | none => .error (.builtin (.noIntrinsic name))
    | some intrinsic =>
      if b.arity < 0 then .error (.brokenBuiltin name)
      else
        match Builtin.arguments name env b.argumentNames b.params with
        | .error e => .error e
        | .ok args =>
          match intrinsic.run? args with
          | some v => .ok v
          | none => .error (.brokenBuiltin name)

/-! ## Terms -/

/-- What a term is evaluated under: the built-ins and the table of top-level values. -/
structure Globals where
  registry : Registry
  topLevel : Env Value

/-- The value of a variable: local names hide top-level ones. -/
def Globals.lookup (globals : Globals) (env : Env Value) (name : String) : Except Fault Value :=
  match env.get? name with
  | some v => .ok v
  | none =>
    match globals.topLevel.get? name with
    | some v => .ok v
    | none => .error (.unbound name)

/-- Evaluate one node, given how to evaluate its parts. -/
@[inline] def Term.step (globals : Globals) (eval : Env Value → Term → Traced Value)
    (env : Env Value) : Term → Traced Value
  | app func arg => do
    let f ← eval env func
    match f with
    | .closure captured param body => do
      let a ← eval env arg
      eval (captured.insert param a) body
    | v => Traced.fail (.notFunction v)
  | lam param _ body => pure (.closure env param body)
  | lit value => pure (.ofLiteral value)
  | var name => Traced.ofExcept (globals.lookup env name)
  | bin op left right => do
    let l ← eval env left
    let r ← eval env right
    Traced.ofExcept (op.apply l r)
  | ite cond yes no => do
    let c ← eval env cond
    match c with
    | .bool true => eval env yes
    | .bool false => eval env no
    | v => Traced.fail (.condition v.kind)
  | letIn name bound body => do
    let b ← eval env bound
    eval (env.insert name b) body
  | builtin name => Traced.ofExcept (globals.registry.call env name)

/-- Evaluate a term with a number of levels left. With none left, evaluation ends with the fault
`exhausted` before the term counts as visited. -/
def Term.eval (globals : Globals) (exhausted : Fault) :
    Nat → Env Value → Term → Traced Value
  | 0, _, _ => Traced.fail exhausted
  | n + 1, env, x => fun visited =>
    onFreshStack n fun _ => x.step globals (eval globals exhausted n) env (x :: visited)

end TypedLambda
