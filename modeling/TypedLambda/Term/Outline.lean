import TypedLambda.Term

/-!
# Outlines

A program as an indented tree, one line for each node or label. A node at depth `d` indents its
parts by two spaces for each level of `d + 1`; a negative depth indents by its absolute value.
-/

namespace TypedLambda

/-- The indentation of a depth. Its width is a number of 64 bits; one beyond a million is not
written out but marked. -/
def indentation (depth : Int) : String :=
  let width := (Int.bmod (2 * depth) Int64.size).natAbs
  if width ≤ 1000000 then String.ofList (List.replicate width ' ') else "%!(BADWIDTH)"

def outlinePart (depth : Int) (label content : String) : String :=
  "\n" ++ indentation depth ++ label ++ ": " ++ content

/-- The outline of a term whose first line stands at the given depth. -/
def Term.outline (depth : Int) : Term → String
  | app func arg =>
    "App" ++ outlinePart (depth + 1) "Func" (func.outline (depth + 1)) ++
      outlinePart (depth + 1) "Arg" (arg.outline (depth + 1))
  | lam param type body =>
    "Lambda" ++ outlinePart (depth + 1) "Param" param ++
      outlinePart (depth + 1) "ParamType" type.render ++
      outlinePart (depth + 1) "Body" (body.outline (depth + 1))
  | lit value => "Literal " ++ value.render
  | var name => "Variable " ++ name
  | bin op left right =>
    "Binary" ++ outlinePart (depth + 1) "Left" (left.outline (depth + 1)) ++
      outlinePart (depth + 1) "Op" op.render ++
      outlinePart (depth + 1) "Right" (right.outline (depth + 1))
  | ite cond yes no =>
    "If" ++ outlinePart (depth + 1) "Cond" (cond.outline (depth + 1)) ++
      outlinePart (depth + 1) "Then" (yes.outline (depth + 1)) ++
      outlinePart (depth + 1) "Else" (no.outline (depth + 1))
  | letIn name bound body =>
    "Let" ++ outlinePart (depth + 1) "Name" name ++
      outlinePart (depth + 1) "Bound" (bound.outline (depth + 1)) ++
      outlinePart (depth + 1) "Body" (body.outline (depth + 1))
  | builtin name => "BuiltInFunction " ++ name

def Definition.outline (depth : Int) (d : Definition) : String :=
  "Def" ++ outlinePart (depth + 1) "Name" d.name ++
    outlinePart (depth + 1) "Type" d.type.render ++
    outlinePart (depth + 1) "Expr" (d.body.outline (depth + 1))

def Program.outline (depth : Int) (p : Program) : String :=
  "Prog" ++
    String.join (p.definitions.map fun d =>
      "\n" ++ indentation (depth + 1) ++ d.outline (depth + 1)) ++
    outlinePart (depth + 1) "Expr" (p.main.outline (depth + 1))

/-- The one-line name of a node, without its parts. -/
def Term.label : Term → String
  | app _ _ => "App"
  | lam param _ _ => "Lambda " ++ param
  | lit value => "Literal " ++ value.render
  | var name => "Variable " ++ name
  | bin op _ _ => "Binary " ++ op.render
  | ite _ _ _ => "If"
  | letIn name _ _ => "Let " ++ name
  | builtin name => "BuiltInFunction " ++ name

end TypedLambda
