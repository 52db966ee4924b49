import TypedLambda.Value

/-!
# Built-in functions

A registry lists the functions that every program may use without defining them. Each entry has a
name, a number of arguments and a type; what it computes is the intrinsic of the same name. The
arguments of a built-in are bound one by one to the names `param1`, `param2`, and so on.
-/

namespace TypedLambda

structure Builtin where
  name : String
  arity : Int
  type : Ty
deriving DecidableEq

/-- The name that the argument at a position is bound to. -/
def argumentName (position : Int) : String := "param" ++ toString position

namespace Builtin

def params (b : Builtin) : List Ty := (b.type.uncurry b.arity).1

def result (b : Builtin) : Ty := (b.type.uncurry b.arity).2

/-- The names of the arguments. The positions of a negative arity count down from one. -/
def argumentNames (b : Builtin) : List String :=
  (List.range b.arity.natAbs).map fun (i : Nat) =>
    argumentName ((if b.arity < 0 then -(i : Int) else (i : Int)) + 1)

end Builtin

abbrev Registry := List Builtin

namespace Registry

/-- The built-ins that every program has unless told otherwise. -/
def standard : Registry :=
  [⟨"int_to_string", 1, .curried [.int] .text⟩,
   ⟨"greater_than", 2, .curried [.int, .int] .bool⟩]

def find? (registry : Registry) (name : String) : Option Builtin :=
  List.find? (fun b => b.name = name) registry

/-- The types of all built-ins. Of two entries with one name the later one counts. -/
def types (registry : Registry) : Env Ty :=
  Env.empty.insertAll (registry.map fun b => (b.name, b.type))

end Registry

/-- What a built-in computes. -/
inductive Intrinsic where
  | intToString
  | greaterThan
deriving DecidableEq

namespace Intrinsic

def ofName? (name : String) : Option Intrinsic :=
  if name = "int_to_string" then some intToString
  else if name = "greater_than" then some greaterThan
  else none

/-- The names that have an intrinsic, in ascending order. -/
def names : List String := ["greater_than", "int_to_string"]

/-- Run an intrinsic. It has a result when its leading arguments are integers. -/
def run? : Intrinsic → List Value → Option Value
  | intToString, .int n :: _ => some (.text (Text.Utf8.encode (toString n.toInt).toList))
  | greaterThan, .int m :: .int n :: _ => some (.bool (n < m))
  | _, _ => none

end Intrinsic

end TypedLambda
