import TypedLambda.Token

/-!
# Syntax errors

Why a list of tokens is no program, and where.
-/

namespace TypedLambda

/-- The place in a program at which a certain token has to stand. -/
inductive Place where
  | endOfProgram
  | afterDef
  | afterDefinitionName
  | afterDefinitionType
  | afterType
  | afterBackslash
  | afterParameter
  | afterParameterType
  | afterLet
  | afterLetName
  | afterLetBinding
  | afterCondition
  | afterThenBranch
  | afterParenthesized
deriving DecidableEq

def Place.render : Place → String
  | endOfProgram => "at end of program"
  | afterDef => "after def"
  | afterDefinitionName => "after definition name"
  | afterDefinitionType => "after definition type"
  | afterType => "after type"
  | afterBackslash => "after \\"
  | afterParameter => "after lambda parameter"
  | afterParameterType => "after lambda parameter type"
  | afterLet => "after let"
  | afterLetName => "after let name"
  | afterLetBinding => "after let binding"
  | afterCondition => "after if condition"
  | afterThenBranch => "after then branch"
  | afterParenthesized => "after parenthesized expression"

inductive SyntaxFault where
  | illegalToken (message : String)
  | expectedToken (kind : TokenKind) (place : Place) (found : Token)
  | unknownType (name : String)
  | expectedType (found : Token)
  | expectedTerm (found : Token)
  | invalidString (data : String)
  | outOfRange (data : String)

def SyntaxFault.message : SyntaxFault → String
  | illegalToken message => message
  | expectedToken kind place found =>
    "expected " ++ kind.render ++ " " ++ place.render ++ ", found " ++ found.summary
  | unknownType name => "unknown type " ++ name
  | expectedType found => "expected type (one of Bool, Int, Text), found " ++ found.summary
  | expectedTerm found => "expected expression, found " ++ found.summary
  | invalidString data => "invalid string literal " ++ data
  | outOfRange data => "integer literal " ++ data ++ " out of range"

structure SyntaxError where
  pos : Pos
  fault : SyntaxFault

def SyntaxError.message (file : String) (e : SyntaxError) : String :=
  file ++ ":" ++ e.pos.render ++ ": " ++ e.fault.message

end TypedLambda
