import TypedLambda.Operator
import TypedLambda.Text.Quoted
import TypedLambda.Ty

/-!
# Terms and programs

A program is a list of typed definitions followed by the term to evaluate. The marker
`Term.builtin` is the body of a built-in function once all its parameters are bound; no program
text denotes it.
-/

namespace TypedLambda

/-- A literal. Integers have 64 bits; a text is a byte string. -/
inductive Literal where
  | int (n : Int64)
  | bool (b : Bool)
  | text (bytes : List UInt8)
deriving DecidableEq

def renderBool (b : Bool) : String := if b then "true" else "false"

def Literal.render : Literal → String
  | int n => toString n.toInt
  | bool b => renderBool b
  | text bytes => Text.Quoted.ofBytes bytes

inductive Term where
  | app (func arg : Term)
  | lam (param : String) (type : Ty) (body : Term)
  | lit (value : Literal)
  | var (name : String)
  | bin (op : Operator) (left right : Term)
  | ite (cond yes no : Term)
  | letIn (name : String) (bound body : Term)
  | builtin (name : String)
deriving DecidableEq

/-- The names that a term uses without binding them. -/
def Term.freeVars : Term → List String
  | app func arg => func.freeVars ++ arg.freeVars
  | lam param _ body => body.freeVars.filter (· ≠ param)
  | lit _ => []
  | var name => [name]
  | bin _ left right => left.freeVars ++ right.freeVars
  | ite cond yes no => cond.freeVars ++ (yes.freeVars ++ no.freeVars)
  | letIn name bound body => bound.freeVars ++ body.freeVars.filter (· ≠ name)
  | builtin _ => []

structure Definition where
  name : String
  type : Ty
  body : Term
deriving DecidableEq

structure Program where
  definitions : List Definition
  main : Term
deriving DecidableEq

end TypedLambda
