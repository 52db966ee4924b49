import TypedLambda.Typing

/-!
# Checkers

A checker keeps a list of mismatches over any number of calls. Inference on a checker adds what it
finds to the end of that list at the moment it finds it, so that the list also holds what was found
before a fault. `Term.infer` and `Program.infer` say what a call finds on a checker without history.
-/

namespace TypedLambda

/-- A checker: the mismatches recorded so far, in the order in which they were found. -/
structure Checker where
  recorded : List Mismatch

def Checker.fresh : Checker := ⟨[]⟩

def Checker.record (c : Checker) (m : Mismatch) : Checker := ⟨c.recorded ++ [m]⟩

/-- A computation on a checker. A fault ends it and leaves the checker as it is then. -/
def Checking (ε α : Type) := Checker → Except ε α × Checker

namespace Checking

variable {ε ε' α : Type}

instance : Monad (Checking ε) where
  pure a := fun c => (.ok a, c)
  bind x f := fun c =>
    match x c with
    | (.ok a, c') => f a c'
    | (.error e, c') => (.error e, c')

def fail (e : ε) : Checking ε α := fun c => (.error e, c)

def require (site : Site) (actual expected : Ty) : Checking ε Unit := fun c =>
  (.ok (), if actual = expected then c else c.record ⟨site, expected, actual⟩)

def mapError (f : ε → ε') (x : Checking ε α) : Checking ε' α := fun c =>
  let done := x c
  (done.1.mapError f, done.2)

end Checking

/-! ## Inference on a checker -/

def Term.inferOn (ctx : Env Ty) : Term → Checking TypeFault Ty
  | app func arg => do
    let funcType ← func.inferOn ctx
    let argType ← arg.inferOn ctx
    match funcType with
    | .fn param result => do
      Checking.require .application argType param
      pure result
    | t => Checking.fail (.notFunction t)
  | lam param type body => do
    let bodyType ← body.inferOn (ctx.insert param type)
    pure (.fn type bodyType)
  | lit value => pure value.type
  | var name =>
    match ctx.get? name with
    | some t => pure t
    | none => Checking.fail (.unknownVariable name)
  | bin op left right =>
    match op.signature? with
    | some (operand, result) => do
      let leftType ← left.inferOn ctx
      let rightType ← right.inferOn ctx
      Checking.require (.leftOperand op) leftType operand
      Checking.require (.rightOperand op) rightType operand
      pure result
    | none => Checking.fail (.unknownOperator op)
  | ite cond yes no => do
    let condType ← cond.inferOn ctx
    Checking.require .condition condType .bool
    let yesType ← yes.inferOn ctx
    let noType ← no.inferOn ctx
    Checking.require .branches noType yesType
    pure yesType
  | letIn name bound body => do
    let boundType ← bound.inferOn ctx
    body.inferOn (ctx.insert name boundType)
  | builtin name => Checking.fail (.internalNode name)

def Definition.checkOn (ctx : Env Ty) (d : Definition) : Checking TypeError Unit := do
  let t ← (d.body.inferOn ctx).mapError (⟨some d.name, ·⟩)
  Checking.require (.definition d.name) t d.type

def Definition.checkAllOn (ctx : Env Ty) : List Definition → Checking TypeError Unit
  | [] => pure ()
  | d :: ds => do
    d.checkOn ctx
    checkAllOn ctx ds

def Program.inferOn (registry : Registry) (p : Program) : Checking TypeError Ty := do
  let ctx := p.context registry
  Definition.checkAllOn ctx p.definitions
  (p.main.inferOn ctx).mapError (⟨none, ·⟩)

/-! ## Calls -/

namespace Checker

inductive Call where
  | term (ctx : Env Ty) (x : Term)
  | program (registry : Registry) (p : Program)

/-- What a call answers: a type, or what ended the inference. What was found besides is read off the
checker. -/
inductive Reply where
  | term (result : Except TypeFault Ty)
  | program (result : Except TypeError Ty)

def perform (c : Checker) : Call → Reply × Checker
  | .term ctx x =>
    let done := x.inferOn ctx c
    (.term done.1, done.2)
  | .program registry p =>
    let done := p.inferOn registry c
    (.program done.1, done.2)

def performAll (c : Checker) : List Call → List Reply × Checker
  | [] => ([], c)
  | call :: calls =>
    let done := c.perform call
    let later := done.2.performAll calls
    (done.1 :: later.1, later.2)

end Checker

end TypedLambda
