import TypedLambda.Token

/-!
# Lexical errors

Why characters make no token.
-/

namespace TypedLambda

inductive LexicalFault where
  | misplacedUnderscore
  | wrongDigit (c : Char) (base : Nat)
  | noDigits
  | decimalPoint
  | unterminatedString
  | unterminatedEscape
  | unknownEscape
  | wrongEscapeChar (c : Char)
  | invalidCodePoint
  | unexpectedChar (c : Char)
deriving DecidableEq

def LexicalFault.message : LexicalFault → String
  | misplacedUnderscore => "'_' must separate successive digits"
  | wrongDigit c base =>
    Text.Quoted.ofChar c ++ " is not a valid digit in base " ++ toString base
  | noDigits => "no digits in number"
  | decimalPoint => "numbers cannot have a decimal point"
  | unterminatedString => "unterminated string"
  | unterminatedEscape => "escape sequence not terminated"
  | unknownEscape => "unknown escape sequence"
  | wrongEscapeChar c => "illegal character " ++ Text.codePointName c ++ " in escape sequence"
  | invalidCodePoint => "escape sequence is invalid Unicode code point"
  | unexpectedChar c => "unexpected character " ++ Text.Quoted.ofChar c

end TypedLambda
