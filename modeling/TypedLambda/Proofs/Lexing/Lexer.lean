import TypedLambda.Token.Session

/-!
# Tokens as a function of the text

What a caller sees of reading tokens, without buffer, indices and table of lines.

A lexeme is what stands at the front of a text: how many characters it takes, and the token it makes
or the fault it has. `Lexeme.scan` decides by the first character, takes as much as it can, and
always takes at least that character.

The state of a lexer is the text that is left and its place. A lexer meets the end of the file as
soon as the last character has been taken; it then keeps the error that ended the reading and closes
the file, unless it was closed before. Cursors do what lexers do: `Cursor.Refines.advance`.
-/

namespace TypedLambda

/-! ## Places -/

namespace Pos

def start : Pos := ⟨0, 1, 1⟩

/-- The place after a character: a newline begins a line. -/
def next (p : Pos) (c : Char) : Pos :=
  if c == '\n' then ⟨p.offset + 1, p.line + 1, 1⟩ else ⟨p.offset + 1, p.line, p.column + 1⟩

def advance (p : Pos) (cs : List Char) : Pos := cs.foldl next p

end Pos

/-- The span of the characters `cs`, the first of which stands at `p`. No character at all spans
the place itself. -/
def Span.covering (p : Pos) (cs : List Char) : Span := ⟨p, p.advance cs.dropLast⟩

/-! ## Lexemes -/

/-- What a lexeme amounts to: a token of some kind with its text, or a fault at `width` of its
characters after the first `skip`. -/
inductive Verdict where
  | token (kind : TokenKind) (data : String)
  | fault (skip width : Nat) (why : LexicalFault)
deriving DecidableEq

/-- The number of characters at the front of a text, and what they amount to. -/
structure Lexeme where
  length : Nat
  verdict : Verdict
deriving DecidableEq

namespace Lexeme
open Text

/-- The first fault in a run of digits and underscores that begins at index `i`. An underscore
needs a digit, or the mark of the base, right before it (`separable`) and a digit right after
it. -/
def digitFault? (base : Nat) (separable : Bool) (i : Nat) :
    List Char → Option (Nat × LexicalFault)
  | [] => if separable then none else some (i - 1, .misplacedUnderscore)
  | c :: cs =>
    if c == '_' then
      if separable then digitFault? base false (i + 1) cs else some (i, .misplacedUnderscore)
    else if (digitIn? base c).isSome then digitFault? base true (i + 1) cs
    else some (i, .wrongDigit c base)

/-- The base of a number and the length of the mark that selects it. -/
def numberBase (cs : List Char) : Nat × Nat :=
  match cs with
  | '0' :: c :: _ =>
    match Numeral.base? c with
    | some base => (base, 2)
    | none => (10, 0)
  | _ => (10, 0)

/-- The number at the front of a text that begins with a decimal digit. -/
def number (cs : List Char) : Lexeme :=
  let base := (numberBase cs).1
  let mark := (numberBase cs).2
  let digits := (cs.drop mark).takeWhile (isDigitLike base)
  let length := mark + digits.length
  match digitFault? base (mark = 2) mark digits with
  | some (i, why) => ⟨length, .fault i 1 why⟩
  | none =>
    if digits.isEmpty then ⟨length, .fault 0 length .noDigits⟩
    else
      let rest := cs.drop length
      if rest.head? == some '.' then
        let total := length + (rest.takeWhile fun c => c == '.' || isDecimal c).length
        ⟨total, .fault 0 total .decimalPoint⟩
      else ⟨length, .token .number (String.ofList (cs.take length))⟩

/-- The digits of an escape: exactly `count` more of them, for a value of at most `limit` that is
no surrogate. The result is the number of characters taken, an offending one included, and the
fault. -/
def escapeDigits (base limit : Nat) : Nat → Nat → List Char → Nat × Option LexicalFault
  | 0, acc, _ =>
    (0, if limit < acc || (0xD800 ≤ acc && acc < 0xE000) then some .invalidCodePoint else none)
  | _ + 1, _, [] => (0, some .unterminatedEscape)
  | count + 1, acc, c :: cs =>
    match digitIn? base c with
    | some d =>
      let tail := escapeDigits base limit count (acc * base + d) cs
      (tail.1 + 1, tail.2)
    | none => (1, some (.wrongEscapeChar c))

/-- The escape after a backslash: the number of characters it takes and its fault. -/
def escape (cs : List Char) : Nat × Option LexicalFault :=
  match cs with
  | [] => (0, some .unterminatedEscape)
  | c :: rest =>
    if isSimpleEscape c then (1, none)
    else if '0' ≤ c && c ≤ '7' then escapeDigits 8 255 3 0 cs
    else if c == 'x' then
      let digits := escapeDigits 16 255 2 0 rest
      (digits.1 + 1, digits.2)
    else if c == 'u' then
      let digits := escapeDigits 16 0x10FFFF 4 0 rest
      (digits.1 + 1, digits.2)
    else if c == 'U' then
      let digits := escapeDigits 16 0x10FFFF 8 0 rest
      (digits.1 + 1, digits.2)
    else (1, some .unknownEscape)

/-- The rest of a string of which `i` characters are read: the length of the whole string and its
fault. A string that does not end has that fault, any other string that of its first bad escape. -/
def stringFrom (i : Nat) (bad : Option Verdict) : List Char → Nat × Option Verdict
  | [] => (i, some (.fault 0 i .unterminatedString))
  | c :: cs =>
    if c == '\n' then (i, some (.fault 0 i .unterminatedString))
    else if c == '\x22' then (i + 1, bad)
    else if c == '\\' then
      let n := (escape cs).1
      stringFrom (i + 1 + n) (bad.or ((escape cs).2.map (.fault (i + 1) n))) (cs.drop n)
    else stringFrom (i + 1) bad cs
termination_by cs => cs.length
decreasing_by all_goals (simp only [List.length_drop, List.length_cons]; omega)

def string (cs : List Char) : Lexeme :=
  let found := stringFrom 1 none cs.tail
  ⟨found.1, found.2.getD (.token .string (String.ofList (cs.take found.1)))⟩

/-- The lexeme that takes the first character and those after it that satisfy `p`. -/
def run (p : Char → Bool) (cs : List Char) : List Char := cs.take 1 ++ cs.tail.takeWhile p

/-- The word at the front of a text. A keyword carries no text. -/
def word (cs : List Char) : Lexeme :=
  let letters := run isIdentContinue cs
  let name := String.ofList letters
  let kind := TokenKind.ofWord name
  ⟨letters.length, .token kind (if kind = .ident then name else "")⟩

/-- The operator or mark at the front of `c :: cs`, or the fault that there is none. -/
def mark (c : Char) (cs : List Char) : Lexeme :=
  match cs.head?.bind (TokenKind.ofTwoChars? c) with
  | some kind => ⟨2, .token kind ""⟩
  | none =>
    match TokenKind.ofOneChar? c with
    | some kind => ⟨1, .token kind ""⟩
    | none => ⟨1, .fault 0 1 (.unexpectedChar c)⟩

def scan (c : Char) (cs : List Char) : Lexeme :=
  if isBlank c then
    let blanks := run isBlank (c :: cs)
    ⟨blanks.length, .token .whitespace (String.ofList blanks)⟩
  else if isIdentStart c then word (c :: cs)
  else if isDecimal c then number (c :: cs)
  else if c == '#' then
    let text := run (· != '\n') (c :: cs)
    ⟨text.length, .token .comment (String.ofList text)⟩
  else if c == '\x22' then string (c :: cs)
  else mark c cs

end Lexeme

/-- The token that a lexeme at the front of the text `cs` makes, when `cs` stands at `p`. -/
def Lexeme.toToken (p : Pos) (cs : List Char) (l : Lexeme) : Token :=
  match l.verdict with
  | .token kind data => ⟨kind, Span.covering p (cs.take l.length), data, []⟩
  | .fault skip width why =>
    ⟨.illegal, Span.covering (p.advance (cs.take skip)) ((cs.drop skip).take width), why.message,
      []⟩

/-! ## Lexers -/

/-- The state of reading tokens: the characters left, the place of the first of them, how the file
ends and closes, whether it is open, how often it was closed, and the error that was met. -/
structure Lexer where
  rest : List Char
  pos : Pos
  readError : Option String
  closeError : Option String
  isOpen : Bool
  closes : Nat
  error : Option String

namespace Lexer

/-- Close the file. Only the first time has an effect, and only then can it fail. -/
def close (l : Lexer) : Option String × Lexer :=
  if l.isOpen then (l.closeError, { l with isOpen := false, closes := l.closes + 1 })
  else (none, l)

/-- Notice the end of the file, once no character is left. -/
def settle (l : Lexer) : Lexer :=
  if l.rest.isEmpty then
    { l.close.2 with error := l.readError.or (l.error.or l.close.1) }
  else l

def ofFile (f : OpenFile) : Lexer :=
  settle ⟨Text.Utf8.chars f.bytes, .start, f.readError, f.closeError, true, 0, none⟩

/-- The next token, white space and comments included. -/
def advance (l : Lexer) : Token × Lexer :=
  match l.rest with
  | [] => (.endAt l.pos, l)
  | c :: cs =>
    let lexeme := Lexeme.scan c cs
    (lexeme.toToken l.pos (c :: cs),
      settle
        { l with
          rest := cs.drop (lexeme.length - 1)
          pos := l.pos.advance ((c :: cs).take lexeme.length) })

theorem rest_settle (l : Lexer) : l.settle.rest = l.rest := by
  unfold settle close
  split
  · split <;> rfl
  · rfl

theorem pos_settle (l : Lexer) : l.settle.pos = l.pos := by
  unfold settle close
  split
  · split <;> rfl
  · rfl

theorem length_rest_advance {l : Lexer} (h : l.advance.1.kind ≠ .eof) :
    l.advance.2.rest.length < l.rest.length := by
  unfold advance at h ⊢
  cases hr : l.rest with
  | nil => simp [hr, Token.endAt] at h
  | cons c cs =>
    simp only [rest_settle, List.length_drop, List.length_cons]
    omega

def nextAfter (trivia : List Token) (l : Lexer) : Token × Lexer :=
  let taken := l.advance
  if _h : taken.1.kind.isTrivia then nextAfter (trivia ++ [taken.1]) taken.2
  else ({ taken.1 with trivia := trivia }, taken.2)
termination_by l.rest.length
decreasing_by exact length_rest_advance (TokenKind.ne_eof_of_isTrivia _h)

def next (l : Lexer) : Token × Lexer := nextAfter [] l

theorem length_rest_nextAfter (trivia : List Token) (l : Lexer) :
    (nextAfter trivia l).1.kind ≠ .eof → (nextAfter trivia l).2.rest.length < l.rest.length := by
  fun_induction nextAfter trivia l with
  | case1 trivia l taken h ih =>
    intro hk
    exact Nat.lt_trans (ih hk) (length_rest_advance (TokenKind.ne_eof_of_isTrivia h))
  | case2 trivia l taken h => exact length_rest_advance

/-- The tokens up to and including the end of input, each with the state after it. -/
def tokens (l : Lexer) : List (Token × Lexer) :=
  let taken := l.next
  if _h : taken.1.kind = .eof then [taken] else taken :: tokens taken.2
termination_by l.rest.length
decreasing_by exact length_rest_nextAfter [] l _h

def after (l : Lexer) (reads : Nat) : Lexer := ((l.tokens.take reads).map (·.2)).getLastD l

open Cursor (Call Reply)

def perform (l : Lexer) : Call → Reply × Lexer
  | .next => (.significant l.next.1, l.next.2)
  | .advance => (.token l.advance.1, l.advance.2)
  | .close => (.closed l.close.1, l.close.2)
  | .lastError => (.lastError l.error, l)

def performAll (l : Lexer) : List Call → List Reply × Lexer
  | [] => ([], l)
  | c :: cs =>
    let done := l.perform c
    let later := done.2.performAll cs
    (done.1 :: later.1, later.2)

end Lexer

end TypedLambda
