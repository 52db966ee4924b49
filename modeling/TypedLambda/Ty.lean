/-!
# Types

The types of the language: integers, booleans, texts and functions of one argument. A function of
several arguments is curried; `Ty.curried` builds such a type and `Ty.uncurry` takes it apart.
-/

namespace TypedLambda

inductive Ty where
  | int
  | bool
  | text
  | fn (arg result : Ty)
deriving DecidableEq

namespace Ty

def isFn : Ty → Bool
  | fn _ _ => true
  | _ => false

/-- A type as it is written. The arrow associates to the right, so that only a function in argument
position needs parentheses. -/
def render : Ty → String
  | int => "Int"
  | bool => "Bool"
  | text => "Text"
  | fn arg result =>
    (if arg.isFn then "(" ++ render arg ++ ")" else render arg) ++ " -> " ++ render result

def ofName? (name : String) : Option Ty :=
  if name = "Int" then some int
  else if name = "Bool" then some bool
  else if name = "Text" then some text
  else none

/-- The type of functions that take the given parameters one after the other. -/
def curried (params : List Ty) (result : Ty) : Ty := params.foldr fn result

/-- The parameter types of at most `n` arrows and what is left. A negative `n` takes every
arrow. -/
def uncurry : Ty → Int → List Ty × Ty
  | fn arg result, n =>
    if n = 0 then ([], fn arg result)
    else
      let (params, rest) := uncurry result (n - 1)
      (arg :: params, rest)
  | t, _ => ([], t)

end Ty

end TypedLambda
