/-!
# Binary operators

The seven operators of the language. A tree built by a host program may also carry an operator
number that stands for none of them.
-/

namespace TypedLambda

inductive Operator where
  | add
  | sub
  | mul
  | eq
  | or
  | and
  | concat
  | unknown (number : Int)
deriving DecidableEq

namespace Operator

def ofNumber (n : Int) : Operator :=
  if n = 0 then add
  else if n = 1 then sub
  else if n = 2 then mul
  else if n = 3 then eq
  else if n = 4 then or
  else if n = 5 then and
  else if n = 6 then concat
  else unknown n

def render : Operator → String
  | add => "Add"
  | sub => "Sub"
  | mul => "Mul"
  | eq => "Eq"
  | or => "Or"
  | and => "And"
  | concat => "Concat"
  | unknown n => "Operator(" ++ toString n ++ ")"

end Operator

end TypedLambda
