import TypedLambda.Program.OfFile

/-!
# The grammar

What it means for a list of tokens to derive a type, a term or a program. The rules are those of the
written grammar, with one nonterminal for each precedence of the operators, so that a chain of
operators has one derivation only. The layout rule is part of it: in the body of a definition and
outside parentheses, neither an operator nor the first token of an argument stands in column 1, and
the token after a body is one that could not have continued it.
-/

namespace TypedLambda.Grammar

/-- Whether a token may go on with what stands before it: in a body, not from column 1. -/
def Continues (inBody : Bool) (t : Token) : Prop := inBody = true → t.pos.column ≠ 1

inductive TypePhrase where
  | type
  | atom

inductive DerivesType : TypePhrase → List Token → Ty → Prop
  | int {t : Token} : t.kind = .ident → t.data = "Int" → DerivesType .atom [t] .int
  | bool {t : Token} : t.kind = .ident → t.data = "Bool" → DerivesType .atom [t] .bool
  | text {t : Token} : t.kind = .ident → t.data = "Text" → DerivesType .atom [t] .text
  | paren {left right : Token} {ts : List Token} {a : Ty} :
      left.kind = .leftParen → DerivesType .type ts a → right.kind = .rightParen →
      DerivesType .atom (left :: (ts ++ [right])) a
  | single {ts : List Token} {a : Ty} : DerivesType .atom ts a → DerivesType .type ts a
  | arrow {arrow : Token} {ts us : List Token} {a r : Ty} :
      DerivesType .atom ts a → arrow.kind = .rightArrow → DerivesType .type us r →
      DerivesType .type (ts ++ arrow :: us) (.fn a r)

/-- The operators that tokens stand for, each with the level at which it binds. -/
inductive Binds : TokenKind → Operator → Nat → Prop
  | or : Binds .logicalOr .or 1
  | and : Binds .logicalAnd .and 2
  | eq : Binds .logicalEquals .eq 3
  | concat : Binds .concat .concat 4
  | add : Binds .plus .add 5
  | sub : Binds .minus .sub 5
  | mul : Binds .times .mul 6

/-- The nonterminals of terms, in the body of a definition outside parentheses or elsewhere. A
`binary` phrase has outside its parts only operators that bind at least as strongly as its level. -/
inductive Phrase where
  | term (inBody : Bool)
  | binary (inBody : Bool) (level : Nat)
  | application (inBody : Bool)
  | atom

inductive Derives : Phrase → List Token → Term → Prop
  | number {t : Token} {n : Int64} : t.kind = .number → Numeral.value? t.data = some n →
      Derives .atom [t] (.lit (.int n))
  | string {t : Token} {bytes : List UInt8} : t.kind = .string →
      Text.literalBytes? t.data = some bytes → Derives .atom [t] (.lit (.text bytes))
  | true {t : Token} : t.kind = .trueKeyword → Derives .atom [t] (.lit (.bool Bool.true))
  | false {t : Token} : t.kind = .falseKeyword → Derives .atom [t] (.lit (.bool Bool.false))
  | var {t : Token} : t.kind = .ident → Derives .atom [t] (.var t.data)
  | paren {left right : Token} {ts : List Token} {x : Term} :
      left.kind = .leftParen → Derives (.term Bool.false) ts x → right.kind = .rightParen →
      Derives .atom (left :: (ts ++ [right])) x
  | single {inBody : Bool} {ts : List Token} {x : Term} :
      Derives .atom ts x → Derives (.application inBody) ts x
  | app {inBody : Bool} {first : Token} {ts us : List Token} {func arg : Term} :
      Derives (.application inBody) ts func → Continues inBody first →
      Derives .atom (first :: us) arg →
      Derives (.application inBody) (ts ++ first :: us) (.app func arg)
  /-- No operator binds as strongly as level 7. -/
  | operand {inBody : Bool} {ts : List Token} {x : Term} :
      Derives (.application inBody) ts x → Derives (.binary inBody 7) ts x
  | tighter {inBody : Bool} {level : Nat} {ts : List Token} {x : Term} :
      Derives (.binary inBody (level + 1)) ts x → Derives (.binary inBody level) ts x
  /-- Operators of one level associate to the left. -/
  | operator {inBody : Bool} {level : Nat} {t : Token} {op : Operator} {ts us : List Token}
      {left right : Term} :
      Derives (.binary inBody level) ts left → Binds t.kind op level → Continues inBody t →
      Derives (.binary inBody (level + 1)) us right →
      Derives (.binary inBody level) (ts ++ t :: us) (.bin op left right)
  | chain {inBody : Bool} {ts : List Token} {x : Term} :
      Derives (.binary inBody 1) ts x → Derives (.term inBody) ts x
  | lam {inBody : Bool} {backslash param colon arrow : Token} {ts us : List Token} {a : Ty}
      {x : Term} :
      backslash.kind = .backslash → param.kind = .ident → colon.kind = .colon →
      DerivesType .atom ts a → arrow.kind = .rightArrow → Derives (.term inBody) us x →
      Derives (.term inBody) (backslash :: param :: colon :: (ts ++ arrow :: us))
        (.lam param.data a x)
  | letIn {inBody : Bool} {keyword name equals keywordIn : Token} {ts us : List Token}
      {bound body : Term} :
      keyword.kind = .letKeyword → name.kind = .ident → equals.kind = .equals →
      Derives (.term inBody) ts bound → keywordIn.kind = .inKeyword →
      Derives (.term inBody) us body →
      Derives (.term inBody) (keyword :: name :: equals :: (ts ++ keywordIn :: us))
        (.letIn name.data bound body)
  | ite {inBody : Bool} {keyword keywordThen keywordElse : Token} {ts us vs : List Token}
      {cond yes no : Term} :
      keyword.kind = .ifKeyword → Derives (.term inBody) ts cond →
      keywordThen.kind = .thenKeyword → Derives (.term inBody) us yes →
      keywordElse.kind = .elseKeyword → Derives (.term inBody) vs no →
      Derives (.term inBody) (keyword :: (ts ++ keywordThen :: (us ++ keywordElse :: vs)))
        (.ite cond yes no)

/-- Whether a token may follow the body of a definition: it stands in column 1, or it is neither an
operator nor the first token of an argument. -/
def EndsBody (t : Token) : Prop :=
  t.pos.column = 1 ∨ t.kind.isBinary = false ∧ t.kind.beginsArgument = false

inductive DerivesProgram : List Token → Program → Prop
  | main {ts : List Token} {x : Term} :
      Derives (.term false) ts x → DerivesProgram ts ⟨[], x⟩
  | define {keyword name colon equals next : Token} {ts us rest : List Token} {a : Ty} {x : Term}
      {p : Program} :
      keyword.kind = .defKeyword → name.kind = .ident → colon.kind = .colon →
      DerivesType .type ts a → equals.kind = .equals → Derives (.term true) us x →
      EndsBody next → DerivesProgram (next :: rest) p →
      DerivesProgram (keyword :: name :: colon :: (ts ++ equals :: (us ++ next :: rest)))
        ⟨⟨name.data, a, x⟩ :: p.definitions, p.main⟩

/-! ## First tokens -/

theorem binds_iff {kind : TokenKind} {op : Operator} {level : Nat} :
    Binds kind op level ↔ kind.operator? = some op ∧ kind.precedence = level := by
  constructor
  · rintro (_ | _) <;> exact ⟨rfl, rfl⟩
  · rintro ⟨hop, rfl⟩
    cases kind <;> cases hop <;> constructor

/-- The kinds of token with which a phrase can begin. -/
def Phrase.Begins : Phrase → TokenKind → Prop
  | term _, kind =>
    kind.beginsArgument = true ∨ kind = .backslash ∨ kind = .letKeyword ∨ kind = .ifKeyword
  | _, kind => kind.beginsArgument = true

theorem DerivesType.begins {ph : TypePhrase} {ts : List Token} {a : Ty}
    (h : DerivesType ph ts a) :
    ∃ t us, ts = t :: us ∧ (t.kind = .ident ∨ t.kind = .leftParen) := by
  induction h with
  | int hkind | bool hkind | text hkind => exact ⟨_, _, rfl, .inl hkind⟩
  | paren hkind => exact ⟨_, _, rfl, .inr hkind⟩
  | single _ ih => exact ih
  | arrow _ _ _ ih =>
    obtain ⟨t, us, rfl, hkind⟩ := ih
    exact ⟨t, _, rfl, hkind⟩

theorem Derives.begins {ph : Phrase} {ts : List Token} {x : Term} (h : Derives ph ts x) :
    ∃ t us, ts = t :: us ∧ ph.Begins t.kind := by
  induction h with
  | number hkind | string hkind | true hkind | false hkind | var hkind | paren hkind =>
    refine ⟨_, _, rfl, ?_⟩
    rw [hkind]
    rfl
  | single _ ih | operand _ ih | tighter _ ih => exact ih
  | app _ _ _ ih | operator _ _ _ _ ih =>
    obtain ⟨t, us, rfl, hbegins⟩ := ih
    exact ⟨t, _, rfl, hbegins⟩
  | chain _ ih =>
    obtain ⟨t, us, rfl, hbegins⟩ := ih
    exact ⟨t, us, rfl, .inl hbegins⟩
  | lam hkind => exact ⟨_, _, rfl, .inr (.inl hkind)⟩
  | letIn hkind => exact ⟨_, _, rfl, .inr (.inr (.inl hkind))⟩
  | ite hkind => exact ⟨_, _, rfl, .inr (.inr (.inr hkind))⟩

theorem DerivesProgram.begins {ts : List Token} {p : Program} (h : DerivesProgram ts p) :
    ∃ t us, ts = t :: us ∧ (t.kind = .defKeyword ∨ (Phrase.term Bool.false).Begins t.kind) := by
  cases h with
  | main hmain =>
    obtain ⟨t, us, rfl, hbegins⟩ := hmain.begins
    exact ⟨t, us, rfl, .inr hbegins⟩
  | define hkind => exact ⟨_, _, rfl, .inl hkind⟩

end TypedLambda.Grammar
