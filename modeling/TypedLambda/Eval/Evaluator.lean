import TypedLambda.Eval.Basic

/-!
# Evaluators

An evaluator holds a table of top-level values: the built-ins, each as a closure that takes its
arguments one by one, and the values of some definitions. Definitions are evaluated in order, each
under the built-ins and the definitions before it.
-/

namespace TypedLambda

/-- How deeply evaluation may nest: so many levels and no more, or without a limit. Evaluation
without a limit is given fuel, and is abandoned without an answer when it nests deeper than that. -/
inductive DepthLimit where
  | levels (n : Nat)
  | unlimited (fuel : Nat)
deriving DecidableEq

namespace DepthLimit

/-- The limit that a number asks for. Zero and negative numbers ask for none. -/
def ofNumber (fuel : Nat) (n : Int) : DepthLimit :=
  if 0 < n then levels n.toNat else unlimited fuel

def depth : DepthLimit → Nat
  | levels n => n
  | unlimited fuel => fuel

/-- The fault of using one level more. -/
def exhausted : DepthLimit → Fault
  | levels _ => .tooDeep
  | unlimited _ => .outOfFuel

end DepthLimit

structure Evaluator where
  topLevel : Env Value
  limit : DepthLimit

/-- A built-in as a closure that binds its parameters one by one around the marker of the
built-in. -/
def Builtin.closure? (b : Builtin) : Option Value :=
  match b.argumentNames with
  | [] => none
  | first :: others =>
    let types := b.params.drop 1
    if others.length ≤ types.length then
      let body := (others.zip types).foldr (fun p body => Term.lam p.1 p.2 body) (.builtin b.name)
      some (.closure .empty first body)
    else none

/-- The table of the built-ins. Of two entries with one name the later one counts. -/
def Registry.closures (table : Env Value) : Registry → Except EvalError (Env Value)
  | [] => .ok table
  | b :: bs =>
    match b.closure? with
    | some v => Registry.closures (table.insert b.name v) bs
    | none => .error ⟨none, .brokenBuiltin b.name⟩

def Registry.notImplemented (registry : Registry) : List String :=
  (registry.filter fun b => (Intrinsic.ofName? b.name).isNone).map (·.name)

/-- The table of the built-ins, all of which need an intrinsic. -/
def Registry.table (registry : Registry) : Except EvalError (Env Value) :=
  if registry.notImplemented.isEmpty then Registry.closures .empty registry
  else .error ⟨none, .builtin (.notImplemented registry.notImplemented)⟩

namespace Evaluator

def evaluate (e : Evaluator) (registry : Registry) (env : Env Value) (x : Term) :
    Outcome Fault Value :=
  (x.eval ⟨registry, e.topLevel⟩ e.limit.exhausted e.limit.depth env).run

/-- Evaluate definitions in order and add their values to the table. -/
def define (registry : Registry) (e : Evaluator) : List Definition → Outcome EvalError Evaluator
  | [] => ⟨[], .ok e⟩
  | d :: ds =>
    let o := e.evaluate registry .empty d.body
    match o.result with
    | .error fault => ⟨o.trace, .error ⟨some d.name, fault⟩⟩
    | .ok v =>
      let rest := define registry { e with topLevel := e.topLevel.insert d.name v } ds
      ⟨o.trace ++ rest.trace, rest.result⟩

def ofDefinitions (registry : Registry) (limit : DepthLimit) (ds : List Definition) :
    Outcome EvalError Evaluator :=
  match registry.table with
  | .error e => ⟨[], .error e⟩
  | .ok table => define registry ⟨table, limit⟩ ds

end Evaluator

/-- Evaluate a program: its definitions, then its main term without local names. -/
def Program.evaluate (registry : Registry) (limit : DepthLimit) (p : Program) :
    Outcome EvalError Value :=
  let o := Evaluator.ofDefinitions registry limit p.definitions
  match o.result with
  | .error e => ⟨o.trace, .error e⟩
  | .ok evaluator =>
    let main := evaluator.evaluate registry .empty p.main
    ⟨o.trace ++ main.trace, main.result.mapError (⟨none, ·⟩)⟩

end TypedLambda
