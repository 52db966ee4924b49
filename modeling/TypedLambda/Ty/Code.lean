import TypedLambda.Ty

/-!
# Type codes

A type as a host program may describe it: a base type is a number and a part may be absent. Codes
are compared part by part; a code whose bases are all known has the text of the type it stands for.
-/

namespace TypedLambda.Ty

/-- A description of a type, with base types as numbers and parts that may be missing. -/
inductive Code where
  | absent
  | base (number : Int)
  | fn (arg result : Code)
deriving DecidableEq

namespace Code

def ofTy : Ty → Code
  | .int => base 0
  | .bool => base 1
  | .text => base 2
  | .fn arg result => fn (ofTy arg) (ofTy result)

def isFn : Code → Bool
  | fn _ _ => true
  | _ => false

inductive Unprintable where
  | unknownBase (number : Int)
  | absentPart
deriving DecidableEq

def Unprintable.message : Unprintable → String
  | unknownBase number => "unreachable: base type " ++ toString number
  | absentPart => "unreachable: absent type"

/-- The text of a code. The leftmost part that has none decides. -/
def render : Code → Except Unprintable String
  | absent => .error .absentPart
  | base number =>
    if number = 0 then .ok "Int"
    else if number = 1 then .ok "Bool"
    else if number = 2 then .ok "Text"
    else .error (.unknownBase number)
  | fn arg result =>
    match render arg with
    | .error e => .error e
    | .ok a =>
      match render result with
      | .error e => .error e
      | .ok r => .ok ((if arg.isFn then "(" ++ a ++ ")" else a) ++ " -> " ++ r)

end Code

end TypedLambda.Ty
