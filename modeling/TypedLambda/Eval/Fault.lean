import TypedLambda.Builtin
import TypedLambda.Typing

/-!
# Evaluation faults

Why a term has no value. The last constructors are defects of the tree or of the registry rather
than of a program: no text denotes an unknown operator, and a built-in whose type does not fit its
arity or its intrinsic can only be registered by a host program.
-/

namespace TypedLambda

inductive BuiltinFault where
  | notImplemented (names : List String)
  | unknown (name : String)
  | noIntrinsic (name : String)
  | missing (name param : String)
  | wrongKind (name : String) (expected : Ty) (param : String) (found : Kind)
deriving DecidableEq

def BuiltinFault.message : BuiltinFault → String
  | notImplemented names => "no implementation for " ++ ", ".intercalate names
  | unknown name => "unknown built-in " ++ name
  | noIntrinsic name => name ++ " has no implementation"
  | missing name param => name ++ " is missing " ++ param
  | wrongKind name expected param found =>
    name ++ " expects " ++ expected.render ++ " for " ++ param ++ " but got " ++ found.render

inductive Fault where
  | unbound (name : String)
  | notFunction (value : Value)
  | operands (op : Operator) (expected left right : Kind)
  | condition (found : Kind)
  | builtin (fault : BuiltinFault)
  | tooDeep
  | outOfFuel
  | unknownOperator (op : Operator)
  | brokenBuiltin (name : String)

namespace Fault

def isDefect : Fault → Bool
  | unknownOperator _ => true
  | brokenBuiltin _ => true
  | _ => false

def message : Fault → String
  | unbound name => "unbound variable " ++ name
  | notFunction value => value.render ++ " is not a function"
  | operands op expected left right =>
    "invalid operand: " ++ op.render ++ " expects " ++ expected.render ++ " operands, got " ++
      left.render ++ " and " ++ right.render
  | condition found => "condition is not a boolean: got " ++ found.render
  | builtin fault => "invalid built-in call: " ++ fault.message
  | tooDeep => "maximum evaluation depth exceeded"
  | outOfFuel => "evaluation ran out of fuel"
  | unknownOperator op => "unreachable: operator " ++ op.render
  | brokenBuiltin name => "unreachable: built-in " ++ name

end Fault

/-- A fault, and the definition in whose body it arose. -/
structure EvalError where
  definition : Option String
  fault : Fault

/-- The words for an evaluation error. A defect is reported by itself. -/
def EvalError.message (e : EvalError) : String :=
  match e.definition with
  | some name => if e.fault.isDefect then e.fault.message else inDefinition name e.fault.message
  | none => e.fault.message

end TypedLambda
