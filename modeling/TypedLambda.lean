import TypedLambda.CommandLine
import TypedLambda.Main
import TypedLambda.Term.Outline
import TypedLambda.Token.Session
import TypedLambda.Ty.Code
import TypedLambda.Proofs.Eval.Builtins
import TypedLambda.Proofs.Eval.Normalization
import TypedLambda.Proofs.Lexing.Lexeme
import TypedLambda.Proofs.Lexing.Lossless
import TypedLambda.Proofs.Syntax.Completeness
import TypedLambda.Proofs.Eval.Scoping
import TypedLambda.Proofs.Eval.Approximation
import TypedLambda.Proofs.Eval.DefinitionOrder
import TypedLambda.Proofs.Eval.Renaming
import TypedLambda.Proofs.Lexing.Quoted
import TypedLambda.Proofs.Lexing.Spacing
import TypedLambda.Proofs.Syntax.Image
import TypedLambda.Proofs.Lexing.Closing
import TypedLambda.Proofs.Syntax.Layout
import TypedLambda.Proofs.Eval.Redefinition
import TypedLambda.Proofs.Eval.Safety
import TypedLambda.Proofs.Eval.Cutoff
import TypedLambda.Proofs.Typing.Decision
import TypedLambda.Proofs.Lexing.Sessions
import TypedLambda.Proofs.Eval.Parameters
import TypedLambda.Proofs.Run.Writes
import TypedLambda.Proofs.Typing.Renaming
import TypedLambda.Proofs.Typing.DefinitionOrder
import TypedLambda.Typing.Checker
import TypedLambda.Proofs.Typing.Checkers
import TypedLambda.Proofs.Syntax.Completion
import TypedLambda.Proofs.Syntax.Refusal
import TypedLambda.Proofs.Syntax.FirstError
import TypedLambda.Proofs.Text.Digits
import TypedLambda.Proofs.Lexing.Strings
import TypedLambda.Proofs.Lexing.Numerals
import TypedLambda.Proofs.Lexing.Spelling
import TypedLambda.Proofs.Syntax.Blame
import TypedLambda.Proofs.Syntax.Literals
import TypedLambda.Proofs.Syntax.Types
import TypedLambda.Proofs.Syntax.Outlines
import TypedLambda.Proofs.Eval.Arithmetic
import TypedLambda.Proofs.Lexing.Respacing
import TypedLambda.Proofs.Eval.Currying
import TypedLambda.Proofs.Eval.LargerTables
import TypedLambda.Proofs.Syntax.Asking
import TypedLambda.Proofs.Syntax.Calls
import TypedLambda.Token.Cursor
import TypedLambda.Token.Cursor.Tokens
import TypedLambda.Proofs.Lexing.Lines
