import TypedLambda.Env
import TypedLambda.Term

/-!
# Values

The results of evaluation. A closure keeps the environment of the place where its function was
written, so that its body never sees the caller's names.
-/

namespace TypedLambda

inductive Value where
  | int (n : Int64)
  | bool (b : Bool)
  | text (bytes : List UInt8)
  | closure (env : Env Value) (param : String) (body : Term)

inductive Kind where
  | int
  | bool
  | text
  | closure
deriving DecidableEq

def Kind.render : Kind → String
  | int => "Int"
  | bool => "Bool"
  | text => "Text"
  | closure => "Closure"

namespace Value

def kind : Value → Kind
  | int _ => .int
  | bool _ => .bool
  | text _ => .text
  | closure _ _ _ => .closure

def render : Value → String
  | int n => toString n.toInt
  | bool b => renderBool b
  | text bytes => Text.Quoted.ofBytes bytes
  | closure _ param _ => "<closure \\" ++ param ++ ">"

def ofLiteral : Literal → Value
  | .int n => int n
  | .bool b => bool b
  | .text bytes => text bytes

end Value

/-- The kind of the values of a type: every function is a closure. -/
def Ty.kind : Ty → Kind
  | int => .int
  | bool => .bool
  | text => .text
  | fn _ _ => .closure

end TypedLambda
