import TypedLambda.Builtin

/-!
# Type inference

The type of a term in a context. A type that differs from the one its place requires is recorded as
a mismatch and inference goes on with the required type; a fault ends it. The mismatches found
before a fault are kept.
-/

namespace TypedLambda

/-! ## Mismatches and faults -/

inductive Site where
  | definition (name : String)
  | application
  | leftOperand (op : Operator)
  | rightOperand (op : Operator)
  | condition
  | branches
deriving DecidableEq

def Site.render : Site → String
  | definition name => "when inferring the definition " ++ Text.Quoted.ofString name
  | application => "when applying a function"
  | leftOperand op => "as the left operand of " ++ op.render
  | rightOperand op => "as the right operand of " ++ op.render
  | condition => "in an if condition"
  | branches => "in if branches"

/-- A type other than the one its place requires. -/
structure Mismatch where
  site : Site
  expected : Ty
  actual : Ty
deriving DecidableEq

def Mismatch.render (m : Mismatch) : String :=
  "TYPE-ERROR: " ++ m.site.render ++ ", expected " ++ m.expected.render ++ " but got " ++
    m.actual.render

/-- What ends inference. An unknown operator is a defect of the tree, not of the program. -/
inductive TypeFault where
  | unknownVariable (name : String)
  | notFunction (type : Ty)
  | internalNode (name : String)
  | unknownOperator (op : Operator)
deriving DecidableEq

def TypeFault.message : TypeFault → String
  | unknownVariable name => "unknown variable " ++ name
  | notFunction type => type.render ++ " is not a function"
  | internalNode name => "internal node in checked tree: built-in " ++ name
  | unknownOperator op => "unreachable: operator " ++ op.render

/-- A type fault, and the definition in whose body it was found. -/
structure TypeError where
  definition : Option String
  fault : TypeFault
deriving DecidableEq

/-- The words that place an error in a definition. -/
def inDefinition (name : String) (message : String) : String :=
  "definition " ++ Text.Quoted.ofString name ++ ": " ++ message

/-- The words for a type error. A defect of the tree is reported by itself. -/
def TypeError.message (e : TypeError) : String :=
  match e.definition, e.fault with
  | _, .unknownOperator op => (TypeFault.unknownOperator op).message
  | some name, fault => inDefinition name fault.message
  | none, fault => fault.message

/-! ## Recording mismatches -/

/-- A result, or what ended its computation, with the mismatches recorded on the way. -/
structure Checked (ε α : Type) where
  mismatches : List Mismatch
  result : Except ε α

namespace Checked

variable {ε ε' α β : Type}

instance : Monad (Checked ε) where
  pure a := ⟨[], .ok a⟩
  bind x f :=
    match x.result with
    | .ok a =>
      let y := f a
      ⟨x.mismatches ++ y.mismatches, y.result⟩
    | .error e => ⟨x.mismatches, .error e⟩

def fail (e : ε) : Checked ε α := ⟨[], .error e⟩

/-- Record a mismatch unless a type is the expected one. -/
def require (site : Site) (actual expected : Ty) : Checked ε Unit :=
  ⟨if actual = expected then [] else [⟨site, expected, actual⟩], .ok ()⟩

def mapError (f : ε → ε') (x : Checked ε α) : Checked ε' α :=
  ⟨x.mismatches, x.result.mapError f⟩

end Checked

/-! ## Inference -/

/-- The type of both operands and the type of the result. -/
def Operator.signature? : Operator → Option (Ty × Ty)
  | add => some (.int, .int)
  | sub => some (.int, .int)
  | mul => some (.int, .int)
  | eq => some (.int, .bool)
  | or => some (.bool, .bool)
  | and => some (.bool, .bool)
  | concat => some (.text, .text)
  | unknown _ => none

def Literal.type : Literal → Ty
  | int _ => .int
  | bool _ => .bool
  | text _ => .text

/-- The type of a term. The bound term of a `let` does not see the name it is bound to. -/
def Term.infer (ctx : Env Ty) : Term → Checked TypeFault Ty
  | app func arg => do
    let funcType ← func.infer ctx
    let argType ← arg.infer ctx
    match funcType with
    | .fn param result => do
      Checked.require .application argType param
      pure result
    | t => Checked.fail (.notFunction t)
  | lam param type body => do
    let bodyType ← body.infer (ctx.insert param type)
    pure (.fn type bodyType)
  | lit value => pure value.type
  | var name =>
    match ctx.get? name with
    | some t => pure t
    | none => Checked.fail (.unknownVariable name)
  | bin op left right =>
    match op.signature? with
    | some (operand, result) => do
      let leftType ← left.infer ctx
      let rightType ← right.infer ctx
      Checked.require (.leftOperand op) leftType operand
      Checked.require (.rightOperand op) rightType operand
      pure result
    | none => Checked.fail (.unknownOperator op)
  | ite cond yes no => do
    let condType ← cond.infer ctx
    Checked.require .condition condType .bool
    let yesType ← yes.infer ctx
    let noType ← no.infer ctx
    Checked.require .branches noType yesType
    pure yesType
  | letIn name bound body => do
    let boundType ← bound.infer ctx
    body.infer (ctx.insert name boundType)
  | builtin name => Checked.fail (.internalNode name)

def Definition.check (ctx : Env Ty) (d : Definition) : Checked TypeError Unit := do
  let t ← (d.body.infer ctx).mapError (⟨some d.name, ·⟩)
  Checked.require (.definition d.name) t d.type

def Definition.checkAll (ctx : Env Ty) : List Definition → Checked TypeError Unit
  | [] => pure ()
  | d :: ds => do
    d.check ctx
    checkAll ctx ds

/-- The context of a program: the built-ins, and the declared type of every definition. -/
def Program.context (registry : Registry) (p : Program) : Env Ty :=
  registry.types.insertAll (p.definitions.map fun d => (d.name, d.type))

/-- The type of a program. Every definition sees the declared types of all of them. -/
def Program.infer (registry : Registry) (p : Program) : Checked TypeError Ty := do
  let ctx := p.context registry
  Definition.checkAll ctx p.definitions
  (p.main.infer ctx).mapError (⟨none, ·⟩)

end TypedLambda
