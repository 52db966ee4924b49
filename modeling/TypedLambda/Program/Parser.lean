import TypedLambda.Numeral
import TypedLambda.Program.SyntaxFault
import TypedLambda.Term
import TypedLambda.Text.Literal

/-!
# Programs from tokens

```text
program  = { "def" ident ":" type "=" term } term
type     = atomtype [ "->" type ]
atomtype = "Int" | "Bool" | "Text" | "(" type ")"
term     = "\" ident ":" atomtype "->" term
         | "let" ident "=" term "in" term
         | "if" term "then" term "else" term
         | binary
binary   = app { operator app }
app      = atom { atom }
atom     = number | string | "true" | "false" | ident | "(" term ")"
```

Operators bind by their precedence and associate to the left. In the body of a definition and
outside parentheses, a token in column 1 continues neither a chain of operators nor an application.
After the last token of a list comes the end of input, for ever. Each reading function takes the
tokens from the current one on and returns the tokens after what it read, which are fewer.
-/

namespace TypedLambda

def TokenKind.operator? : TokenKind → Option Operator
  | plus => some .add
  | minus => some .sub
  | times => some .mul
  | logicalEquals => some .eq
  | logicalOr => some .or
  | logicalAnd => some .and
  | concat => some .concat
  | _ => none

namespace Parser

/-- A syntax error, with the tokens from the current one on at the moment it was found. -/
structure Rejection where
  error : SyntaxError
  rest : List Token

def current (ts : List Token) : Token := ts.headD (.endAt ⟨0, 0, 0⟩)

/-- Refuse the tokens for a fault at a place. -/
def reject {α : Type} (ts : List Token) (pos : Pos) (fault : SyntaxFault) : Except Rejection α :=
  .error ⟨⟨pos, fault⟩, ts⟩

/-- Refuse an illegal token as soon as it becomes the current one. -/
def legal (ts : List Token) : Except Rejection Unit :=
  let t := current ts
  if t.kind = .illegal then reject ts t.pos (.illegalToken t.data) else .ok ()

/-- The tokens left after reading something from `ts`. -/
abbrev Rest (ts : List Token) := { rest : List Token // rest.length < ts.length }

/-- The outcome of reading something from the tokens `ts`. -/
abbrev Read (α : Type) (ts : List Token) := Except Rejection (α × Rest ts)

/-- Read a token of the given kind, which has to stand at the given place. -/
def symbol (kind : TokenKind) (place : Place) (ts : List Token) : Read Token ts :=
  match ts with
  | [] => reject [] (current []).pos (.expectedToken kind place (current []))
  | t :: rest =>
    if t.kind = kind then do
      legal rest
      pure (t, ⟨rest, Nat.lt_succ_self _⟩)
    else reject (t :: rest) t.pos (.expectedToken kind place t)

/-! ## Types -/

mutual

def type (ts : List Token) : Read Ty ts := do
  let (arg, r₁) ← atomType ts
  match r₁ with
  | ⟨[], h₁⟩ => pure (arg, ⟨[], h₁⟩)
  | ⟨t :: r₂, h₁⟩ =>
    if t.kind = .rightArrow then do
      legal r₂
      let (result, ⟨r₃, h₃⟩) ← type r₂
      pure (.fn arg result, ⟨r₃, by simp at h₁; omega⟩)
    else pure (arg, ⟨t :: r₂, h₁⟩)
termination_by (ts.length, 1)
decreasing_by
  · exact Prod.Lex.right _ (by decide)
  · exact Prod.Lex.left _ _ (by simp at h₁; omega)

def atomType (ts : List Token) : Read Ty ts :=
  match ts with
  | [] => reject [] (current []).pos (.expectedType (current []))
  | t :: r₁ =>
    match t.kind with
    | .ident =>
      match Ty.ofName? t.data with
      | some base => do
        legal r₁
        pure (base, ⟨r₁, Nat.lt_succ_self _⟩)
      | none => reject (t :: r₁) t.pos (.unknownType t.data)
    | .leftParen => do
      legal r₁
      let (inner, ⟨r₂, h₂⟩) ← type r₁
      let (_, ⟨r₃, h₃⟩) ← symbol .rightParen .afterType r₂
      pure (inner, ⟨r₃, by simp; omega⟩)
    | _ => reject (t :: r₁) t.pos (.expectedType t)
termination_by (ts.length, 0)
decreasing_by exact Prod.Lex.left _ _ (Nat.lt_succ_self _)

end

/-! ## Terms -/

def endsBody (inBody : Bool) (t : Token) : Bool := inBody && t.pos.column == 1

mutual

/-- Read a term. `inBody` tells whether it stands in the body of a definition, outside
parentheses. -/
def term (inBody : Bool) (ts : List Token) : Read Term ts :=
  match ts with
  | [] => reject [] (current []).pos (.expectedTerm (current []))
  | t :: r₀ =>
    match t.kind with
    | .backslash => do
      legal r₀
      let (param, ⟨r₁, h₁⟩) ← symbol .ident .afterBackslash r₀
      let (_, ⟨r₂, h₂⟩) ← symbol .colon .afterParameter r₁
      let (paramType, ⟨r₃, h₃⟩) ← atomType r₂
      let (_, ⟨r₄, h₄⟩) ← symbol .rightArrow .afterParameterType r₃
      let (body, ⟨r₅, h₅⟩) ← term inBody r₄
      pure (.lam param.data paramType body, ⟨r₅, by simp; omega⟩)
    | .letKeyword => do
      legal r₀
      let (name, ⟨r₁, h₁⟩) ← symbol .ident .afterLet r₀
      let (_, ⟨r₂, h₂⟩) ← symbol .equals .afterLetName r₁
      let (bound, ⟨r₃, h₃⟩) ← term inBody r₂
      let (_, ⟨r₄, h₄⟩) ← symbol .inKeyword .afterLetBinding r₃
      let (body, ⟨r₅, h₅⟩) ← term inBody r₄
      pure (.letIn name.data bound body, ⟨r₅, by simp; omega⟩)
    | .ifKeyword => do
      legal r₀
      let (cond, ⟨r₁, h₁⟩) ← term inBody r₀
      let (_, ⟨r₂, h₂⟩) ← symbol .thenKeyword .afterCondition r₁
      let (yes, ⟨r₃, h₃⟩) ← term inBody r₂
      let (_, ⟨r₄, h₄⟩) ← symbol .elseKeyword .afterThenBranch r₃
      let (no, ⟨r₅, h₅⟩) ← term inBody r₄
      pure (.ite cond yes no, ⟨r₅, by simp; omega⟩)
    | _ => binary 1 inBody (t :: r₀)
termination_by (ts.length, 3)
decreasing_by
  · exact Prod.Lex.left _ _ (by simp; omega)
  · exact Prod.Lex.left _ _ (by simp; omega)
  · exact Prod.Lex.left _ _ (by simp; omega)
  · exact Prod.Lex.left _ _ (by simp)
  · exact Prod.Lex.left _ _ (by simp; omega)
  · exact Prod.Lex.left _ _ (by simp; omega)
  · exact Prod.Lex.right _ (by decide)

/-- Read a chain of operators that bind at least as strongly as `least`. -/
def binary (least : Nat) (inBody : Bool) (ts : List Token) : Read Term ts := do
  let (left, r) ← application inBody ts
  chain least inBody left r
termination_by (ts.length, 2)
decreasing_by
  · exact Prod.Lex.right _ (by decide)
  · exact Prod.Lex.left _ _ r.2

/-- Read the operators and operands that follow a left operand. -/
def chain {n : Nat} (least : Nat) (inBody : Bool) (left : Term)
    (r : { rest : List Token // rest.length < n }) :
    Except Rejection (Term × { rest : List Token // rest.length < n }) :=
  match r with
  | ⟨[], h⟩ => pure (left, ⟨[], h⟩)
  | ⟨t :: r₁, h⟩ =>
    match t.kind.operator? with
    | some op =>
      if least ≤ t.kind.precedence && !endsBody inBody t then do
        legal r₁
        let (right, ⟨r₂, h₂⟩) ← binary (t.kind.precedence + 1) inBody r₁
        chain least inBody (.bin op left right) ⟨r₂, by simp at h; omega⟩
      else pure (left, ⟨t :: r₁, h⟩)
    | none => pure (left, ⟨t :: r₁, h⟩)
termination_by (r.1.length, 2)
decreasing_by
  · exact Prod.Lex.left _ _ (by simp)
  · exact Prod.Lex.left _ _ (by simp; omega)

def application (inBody : Bool) (ts : List Token) : Read Term ts := do
  let (func, r) ← atom ts
  arguments inBody func r
termination_by (ts.length, 1)
decreasing_by
  · exact Prod.Lex.right _ (by decide)
  · exact Prod.Lex.left _ _ r.2

def arguments {n : Nat} (inBody : Bool) (func : Term)
    (r : { rest : List Token // rest.length < n }) :
    Except Rejection (Term × { rest : List Token // rest.length < n }) :=
  match r with
  | ⟨[], h⟩ => pure (func, ⟨[], h⟩)
  | ⟨t :: r₁, h⟩ =>
    if t.kind.beginsArgument && !endsBody inBody t then do
      let (arg, ⟨r₂, h₂⟩) ← atom (t :: r₁)
      arguments inBody (.app func arg) ⟨r₂, Nat.lt_trans h₂ h⟩
    else pure (func, ⟨t :: r₁, h⟩)
termination_by (r.1.length, 1)
decreasing_by
  · exact Prod.Lex.right _ (by decide)
  · exact Prod.Lex.left _ _ h₂

def atom (ts : List Token) : Read Term ts :=
  match ts with
  | [] => reject [] (current []).pos (.expectedTerm (current []))
  | t :: r₁ =>
    match t.kind with
    | .number => do
      legal r₁
      match Numeral.value? t.data with
      | some n => pure (.lit (.int n), ⟨r₁, Nat.lt_succ_self _⟩)
      | none => reject r₁ t.pos (.outOfRange t.data)
    | .string =>
      match Text.literalBytes? t.data with
      | some bytes => do
        legal r₁
        pure (.lit (.text bytes), ⟨r₁, Nat.lt_succ_self _⟩)
      | none => reject (t :: r₁) t.pos (.invalidString t.data)
    | .trueKeyword => do
      legal r₁
      pure (.lit (.bool true), ⟨r₁, Nat.lt_succ_self _⟩)
    | .falseKeyword => do
      legal r₁
      pure (.lit (.bool false), ⟨r₁, Nat.lt_succ_self _⟩)
    | .ident => do
      legal r₁
      pure (.var t.data, ⟨r₁, Nat.lt_succ_self _⟩)
    | .leftParen => do
      legal r₁
      let (inner, ⟨r₂, h₂⟩) ← term false r₁
      let (_, ⟨r₃, h₃⟩) ← symbol .rightParen .afterParenthesized r₂
      pure (inner, ⟨r₃, by simp; omega⟩)
    | _ => reject (t :: r₁) t.pos (.expectedTerm t)
termination_by (ts.length, 0)
decreasing_by exact Prod.Lex.left _ _ (Nat.lt_succ_self _)

end

/-! ## Programs -/

def definition (ts : List Token) : Read Definition ts := do
  let (name, ⟨r₁, h₁⟩) ← symbol .ident .afterDef ts
  let (_, ⟨r₂, h₂⟩) ← symbol .colon .afterDefinitionName r₁
  let (declared, ⟨r₃, h₃⟩) ← type r₂
  let (_, ⟨r₄, h₄⟩) ← symbol .equals .afterDefinitionType r₃
  let (body, ⟨r₅, h₅⟩) ← term true r₄
  pure (⟨name.data, declared, body⟩, ⟨r₅, by omega⟩)

/-- Read the main term of a program and the end of input after it, which stays the current
token. -/
def mainTerm (ts : List Token) : Except Rejection (Term × List Token) := do
  let (main, ⟨rest, _⟩) ← term false ts
  let t := current rest
  if t.kind = .eof then do
    legal rest.tail
    pure (main, rest)
  else reject rest t.pos (.expectedToken .eof .endOfProgram t)

/-- Read a program whose first definitions are already read. -/
def programAfter (definitions : List Definition) (ts : List Token) :
    Except Rejection (Program × List Token) :=
  match ts with
  | [] => do
    let (main, rest) ← mainTerm []
    pure (⟨definitions, main⟩, rest)
  | t :: r₁ =>
    if t.kind = .defKeyword then do
      legal r₁
      let (d, r₂) ← definition r₁
      programAfter (definitions ++ [d]) r₂.1
    else do
      let (main, rest) ← mainTerm (t :: r₁)
      pure (⟨definitions, main⟩, rest)
termination_by ts.length
decreasing_by exact Nat.lt_succ_of_lt r₂.2

end Parser

/-- The outcome of reading a list of tokens as a program, and the number of tokens that were asked
for. The end of input counts each time it is asked for. -/
structure Parsed where
  reads : Nat
  result : Except SyntaxError Program

def Program.parse (ts : List Token) : Parsed :=
  match (do Parser.legal ts; Parser.programAfter [] ts) with
  | .ok (program, rest) => ⟨ts.length + 2 - rest.length, .ok program⟩
  | .error rejection => ⟨ts.length + 1 - rejection.rest.length, .error rejection.error⟩

end TypedLambda
