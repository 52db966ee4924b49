import TypedLambda.Text.Quoted

/-!
# Tokens

A token has a kind, the text it carries, the span of its characters and the trivia before it. A
span runs from its first to its last character; positions count characters from offset 0, line 1
and column 1.
-/

namespace TypedLambda

structure Pos where
  offset : Int
  line : Int
  column : Int
deriving DecidableEq

def Pos.render (p : Pos) : String := toString p.line ++ ":" ++ toString p.column

/-- The places of a first and a last character. -/
structure Span where
  first : Pos
  last : Pos
deriving DecidableEq

/-- A span as lines and columns, without repeating what the ends share. -/
def Span.render (s : Span) : String :=
  if s.first = s.last then s.first.render
  else if s.first.line = s.last.line then s.first.render ++ "-" ++ toString s.last.column
  else s.first.render ++ "-" ++ s.last.render

/-- The kinds of tokens. A token made by a host program may have a number that stands for none. -/
inductive TokenKind where
  | eof
  | plus
  | minus
  | times
  | equals
  | colon
  | backslash
  | leftParen
  | rightParen
  | logicalAnd
  | logicalOr
  | logicalEquals
  | concat
  | rightArrow
  | defKeyword
  | letKeyword
  | inKeyword
  | ifKeyword
  | thenKeyword
  | elseKeyword
  | trueKeyword
  | falseKeyword
  | ident
  | number
  | string
  | whitespace
  | comment
  | illegal
  | unknown (number : Int)
deriving DecidableEq

namespace TokenKind

/-- The known kinds in the order of their numbers. -/
def known : List TokenKind :=
  [eof, plus, minus, times, equals, colon, backslash, leftParen, rightParen, logicalAnd, logicalOr,
   logicalEquals, concat, rightArrow, defKeyword, letKeyword, inKeyword, ifKeyword, thenKeyword,
   elseKeyword, trueKeyword, falseKeyword, ident, number, string, whitespace, comment, illegal]

def ofNumber (n : Int) : TokenKind :=
  if n < 0 then unknown n else known.getD n.toNat (unknown n)

def render : TokenKind → String
  | eof => "EOF"
  | plus => "Plus"
  | minus => "Minus"
  | times => "Times"
  | equals => "Equals"
  | colon => "Colon"
  | backslash => "Backslash"
  | leftParen => "LeftParen"
  | rightParen => "RightParen"
  | logicalAnd => "LogicalAnd"
  | logicalOr => "LogicalOr"
  | logicalEquals => "LogicalEquals"
  | concat => "Concat"
  | rightArrow => "RightArrow"
  | defKeyword => "Def"
  | letKeyword => "Let"
  | inKeyword => "In"
  | ifKeyword => "If"
  | thenKeyword => "Then"
  | elseKeyword => "Else"
  | trueKeyword => "True"
  | falseKeyword => "False"
  | ident => "Ident"
  | number => "Number"
  | string => "String"
  | whitespace => "Whitespace"
  | comment => "SingleLineComment"
  | illegal => "Illegal"
  | unknown n => "TokenType(" ++ toString n ++ ")"

/-- How strongly a binary operator binds; zero for every other kind. -/
def precedence : TokenKind → Nat
  | times => 6
  | plus => 5
  | minus => 5
  | concat => 4
  | logicalEquals => 3
  | logicalAnd => 2
  | logicalOr => 1
  | _ => 0

def isBinary (k : TokenKind) : Bool := 1 ≤ k.precedence

/-- Whether a token of this kind can begin the argument of an application. -/
def beginsArgument : TokenKind → Bool
  | leftParen => true
  | ident => true
  | number => true
  | string => true
  | trueKeyword => true
  | falseKeyword => true
  | _ => false

/-- Whether a kind carries no meaning: white space and comments. -/
def isTrivia : TokenKind → Bool
  | whitespace => true
  | comment => true
  | _ => false

theorem ne_eof_of_isTrivia {k : TokenKind} (h : k.isTrivia = true) : k ≠ .eof := by
  rintro rfl
  exact absurd h (by decide)

/-- The kind of a word: a keyword or an identifier. -/
def ofWord (word : String) : TokenKind :=
  if word = "def" then defKeyword
  else if word = "let" then letKeyword
  else if word = "in" then inKeyword
  else if word = "if" then ifKeyword
  else if word = "then" then thenKeyword
  else if word = "else" then elseKeyword
  else if word = "true" then trueKeyword
  else if word = "false" then falseKeyword
  else ident

def ofTwoChars? (c d : Char) : Option TokenKind :=
  match c, d with
  | '-', '>' => some rightArrow
  | '&', '&' => some logicalAnd
  | '|', '|' => some logicalOr
  | '=', '=' => some logicalEquals
  | '+', '+' => some concat
  | _, _ => none

def ofOneChar? (c : Char) : Option TokenKind :=
  match c with
  | '+' => some plus
  | '-' => some minus
  | '*' => some times
  | '=' => some equals
  | ':' => some colon
  | '\\' => some backslash
  | '(' => some leftParen
  | ')' => some rightParen
  | _ => none

end TokenKind

structure Token where
  kind : TokenKind
  span : Span
  data : String
  trivia : List Token

namespace Token

def pos (t : Token) : Pos := t.span.first

def endAt (p : Pos) : Token := ⟨.eof, ⟨p, p⟩, "", []⟩

/-- What a token is, without its place. -/
def summary (t : Token) : String :=
  if t.data = "" then t.kind.render else t.kind.render ++ " " ++ Text.Quoted.ofString t.data

def render (t : Token) : String := t.span.render ++ ":" ++ t.summary

/-- Whether two tokens are of one kind and carry one text. -/
def sameAs (a b : Token) : Bool := a.kind == b.kind && a.data == b.data

mutual

/-- Whether two tokens agree in everything, their places and trivia included. -/
def exactlySame : Token → Token → Bool
  | ⟨kind, span, data, trivia⟩, ⟨kind', span', data', trivia'⟩ =>
    kind == kind' && span == span' && data == data' && exactlySameAll trivia trivia'

def exactlySameAll : List Token → List Token → Bool
  | [], [] => true
  | a :: as, b :: bs => exactlySame a b && exactlySameAll as bs
  | _, _ => false

end

end Token

end TypedLambda
