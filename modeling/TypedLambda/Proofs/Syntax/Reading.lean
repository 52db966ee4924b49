import TypedLambda.Program.OfFile

/-!
# What the reading functions compute

The functions of the parser return the tokens that are left together with a proof that they are
fewer. `Parser.forget` drops the proof; the equations of this module say what each function computes
without it. A function that goes on from the tokens left by another one is then an ordinary
function of those tokens.
-/

namespace TypedLambda.Parser

variable {α β : Type} {m n : Nat}

/-- The outcome of reading without the proof that fewer tokens are left. -/
def forget (r : Except Rejection (α × { rest : List Token // rest.length < n })) :
    Except Rejection (α × List Token) :=
  r.map fun p => (p.1, p.2.1)

theorem forget_bind {x : Except Rejection (α × { rest : List Token // rest.length < m })}
    {f : α × { rest : List Token // rest.length < m } →
      Except Rejection (β × { rest : List Token // rest.length < n })}
    {g : α × List Token → Except Rejection (β × List Token)}
    (h : ∀ a rest hrest, forget (f (a, ⟨rest, hrest⟩)) = g (a, rest)) :
    forget (x >>= f) = forget x >>= g := by
  cases x with
  | error e => rfl
  | ok p => exact h p.1 p.2.1 p.2.2

theorem forget_legal {ts : List Token}
    {f : Unit → Except Rejection (α × { rest : List Token // rest.length < n })}
    {g : Unit → Except Rejection (α × List Token)} (h : forget (f ()) = g ()) :
    forget (legal ts >>= f) = legal ts >>= g := by
  cases hlegal : legal ts with
  | error e => rfl
  | ok u => exact h

theorem length_lt_of_forget
    {r : Except Rejection (α × { rest : List Token // rest.length < n })} {a : α}
    {rest : List Token} (h : forget r = .ok (a, rest)) : rest.length < n := by
  cases r with
  | error e => cases h
  | ok p =>
    obtain rfl := congrArg Prod.snd (Except.ok.inj h)
    exact p.2.2

theorem ok_bind (a : α) (f : α → Except Rejection β) : Except.ok a >>= f = f a := rfl

theorem bind_eq_ok {x : Except Rejection α} {f : α → Except Rejection β} {b : β}
    (h : x >>= f = .ok b) : ∃ a, x = .ok a ∧ f a = .ok b := by
  cases x with
  | error e => cases h
  | ok a => exact ⟨a, rfl, h⟩

theorem length_lt_succ (ts : List Token) : ts.length < ts.length + 1 :=
  Nat.lt_succ_self ts.length

/-! ## The functions without proofs -/

def readSymbol (kind : TokenKind) (place : Place) (ts : List Token) :
    Except Rejection (Token × List Token) :=
  forget (symbol kind place ts)

def readType (ts : List Token) : Except Rejection (Ty × List Token) := forget (type ts)

def readAtomType (ts : List Token) : Except Rejection (Ty × List Token) := forget (atomType ts)

def readTerm (inBody : Bool) (ts : List Token) : Except Rejection (Term × List Token) :=
  forget (term inBody ts)

def readBinary (least : Nat) (inBody : Bool) (ts : List Token) :
    Except Rejection (Term × List Token) :=
  forget (binary least inBody ts)

def readChain (least : Nat) (inBody : Bool) (left : Term) (ts : List Token) :
    Except Rejection (Term × List Token) :=
  forget (chain least inBody left ⟨ts, length_lt_succ ts⟩)

def readApplication (inBody : Bool) (ts : List Token) : Except Rejection (Term × List Token) :=
  forget (application inBody ts)

def readArguments (inBody : Bool) (func : Term) (ts : List Token) :
    Except Rejection (Term × List Token) :=
  forget (arguments inBody func ⟨ts, length_lt_succ ts⟩)

def readAtom (ts : List Token) : Except Rejection (Term × List Token) := forget (atom ts)

def readDefinition (ts : List Token) : Except Rejection (Definition × List Token) :=
  forget (definition ts)

variable {t : Token} {ts : List Token} {inBody : Bool} {least : Nat}

/-! ## Tokens and types -/

theorem legal_nil : legal [] = .ok () := rfl

theorem legal_cons (h : t.kind ≠ .illegal) : legal (t :: ts) = .ok () := by
  rw [legal]
  exact if_neg h

theorem readSymbol_cons {kind : TokenKind} {place : Place} (h : t.kind = kind) :
    readSymbol kind place (t :: ts) = legal ts >>= fun _ => pure (t, ts) := by
  rw [readSymbol, symbol, if_pos h]
  exact forget_legal rfl

theorem readSymbol_eq_ok {kind : TokenKind} {place : Place} {rest : List Token}
    (h : readSymbol kind place ts = .ok (t, rest)) : ts = t :: rest ∧ t.kind = kind := by
  cases ts with
  | nil => cases h
  | cons u us =>
    by_cases hkind : u.kind = kind
    · rw [readSymbol_cons hkind] at h
      obtain ⟨_, _, h⟩ := bind_eq_ok h
      cases h
      exact ⟨rfl, hkind⟩
    · rw [readSymbol, symbol, if_neg hkind] at h
      cases h

theorem readType_eq (ts : List Token) :
    readType ts = readAtomType ts >>= fun p =>
      match p.2 with
      | [] => pure (p.1, [])
      | t :: r =>
        if t.kind = .rightArrow then do
          legal r
          let q ← readType r
          pure (.fn p.1 q.1, q.2)
        else pure (p.1, t :: r) := by
  rw [readType, type]
  refine forget_bind fun a rest hrest => ?_
  cases rest with
  | nil => rfl
  | cons t r =>
    simp only
    by_cases h : t.kind = .rightArrow
    · rw [if_pos h, if_pos h]
      exact forget_legal (forget_bind fun b rest hrest => rfl)
    · rw [if_neg h, if_neg h]
      rfl

theorem readAtomType_ident (h : t.kind = .ident) :
    readAtomType (t :: ts) =
      match Ty.ofName? t.data with
      | some base => legal ts >>= fun _ => pure (base, ts)
      | none => reject (t :: ts) t.pos (.unknownType t.data) := by
  rw [readAtomType, atomType]
  simp only [h]
  cases hbase : Ty.ofName? t.data with
  | none => rfl
  | some base => exact forget_legal rfl

theorem readAtomType_paren (h : t.kind = .leftParen) :
    readAtomType (t :: ts) = (do
      legal ts
      let p ← readType ts
      let q ← readSymbol .rightParen .afterType p.2
      pure (p.1, q.2)) := by
  rw [readAtomType, atomType]
  simp only [h]
  exact forget_legal (forget_bind fun a r hr => forget_bind fun b s hs => rfl)

/-! ## Terms -/

theorem readTerm_lam (h : t.kind = .backslash) :
    readTerm inBody (t :: ts) = (do
      legal ts
      let param ← readSymbol .ident .afterBackslash ts
      let colon ← readSymbol .colon .afterParameter param.2
      let paramType ← readAtomType colon.2
      let arrow ← readSymbol .rightArrow .afterParameterType paramType.2
      let body ← readTerm inBody arrow.2
      pure (.lam param.1.data paramType.1 body.1, body.2)) := by
  rw [readTerm, term]
  simp only [h]
  refine forget_legal (forget_bind fun _ _ _ => forget_bind fun _ _ _ => ?_)
  exact forget_bind fun _ _ _ => forget_bind fun _ _ _ => forget_bind fun _ _ _ => rfl

theorem readTerm_letIn (h : t.kind = .letKeyword) :
    readTerm inBody (t :: ts) = (do
      legal ts
      let name ← readSymbol .ident .afterLet ts
      let equals ← readSymbol .equals .afterLetName name.2
      let bound ← readTerm inBody equals.2
      let keyword ← readSymbol .inKeyword .afterLetBinding bound.2
      let body ← readTerm inBody keyword.2
      pure (.letIn name.1.data bound.1 body.1, body.2)) := by
  rw [readTerm, term]
  simp only [h]
  refine forget_legal (forget_bind fun _ _ _ => forget_bind fun _ _ _ => ?_)
  exact forget_bind fun _ _ _ => forget_bind fun _ _ _ => forget_bind fun _ _ _ => rfl

theorem readTerm_ite (h : t.kind = .ifKeyword) :
    readTerm inBody (t :: ts) = (do
      legal ts
      let cond ← readTerm inBody ts
      let keywordThen ← readSymbol .thenKeyword .afterCondition cond.2
      let yes ← readTerm inBody keywordThen.2
      let keywordElse ← readSymbol .elseKeyword .afterThenBranch yes.2
      let no ← readTerm inBody keywordElse.2
      pure (.ite cond.1 yes.1 no.1, no.2)) := by
  rw [readTerm, term]
  simp only [h]
  refine forget_legal (forget_bind fun _ _ _ => forget_bind fun _ _ _ => ?_)
  exact forget_bind fun _ _ _ => forget_bind fun _ _ _ => forget_bind fun _ _ _ => rfl

theorem readTerm_binary (hlam : t.kind ≠ .backslash) (hlet : t.kind ≠ .letKeyword)
    (hif : t.kind ≠ .ifKeyword) :
    readTerm inBody (t :: ts) = readBinary 1 inBody (t :: ts) := by
  rw [readTerm, term, readBinary]
  split
  · next h => exact absurd h hlam
  · next h => exact absurd h hlet
  · next h => exact absurd h hif
  · rfl

/-! ## Chains of operators

How many tokens the caller had does not matter to a chain or to a list of arguments. -/

theorem forget_chain {left : Term} (h : ts.length < n) :
    forget (chain least inBody left ⟨ts, h⟩) = readChain least inBody left ts := by
  induction hl : ts.length using Nat.strongRecOn generalizing ts left n with
  | ind l ih =>
    subst hl
    cases ts with
    | nil =>
      rw [readChain, chain, chain]
      rfl
    | cons t r₁ =>
      cases hop : t.kind.operator? with
      | none =>
        rw [readChain, chain, chain]
        simp only [hop]
        rfl
      | some op =>
        -- One step of the chain, from any bound on the number of tokens.
        have hstep : ∀ (n : Nat) (h : (t :: r₁).length < n),
            forget (chain least inBody left ⟨t :: r₁, h⟩) =
              if least ≤ t.kind.precedence && !endsBody inBody t then do
                legal r₁
                let right ← readBinary (t.kind.precedence + 1) inBody r₁
                readChain least inBody (.bin op left right.1) right.2
              else pure (left, t :: r₁) := by
          intro n h
          rw [chain]
          simp only [hop]
          split
          · refine forget_legal (forget_bind fun right r₂ h₂ => ?_)
            exact ih r₂.length (Nat.lt_succ_of_lt h₂) _ rfl
          · rfl
        rw [hstep n h, readChain, hstep]

theorem readBinary_eq (least : Nat) (inBody : Bool) (ts : List Token) :
    readBinary least inBody ts =
      readApplication inBody ts >>= fun p => readChain least inBody p.1 p.2 := by
  rw [readBinary, binary]
  exact forget_bind fun left rest hrest => forget_chain hrest

theorem readChain_nil (left : Term) : readChain least inBody left [] = .ok (left, []) := by
  rw [readChain, chain]
  rfl

theorem readChain_operator {left : Term} {op : Operator} (hop : t.kind.operator? = some op)
    (hleast : least ≤ t.kind.precedence) (hends : endsBody inBody t = false) :
    readChain least inBody left (t :: ts) = (do
      legal ts
      let right ← readBinary (t.kind.precedence + 1) inBody ts
      readChain least inBody (.bin op left right.1) right.2) := by
  rw [readChain, chain]
  simp only [hop, hleast, hends, decide_true, Bool.not_false, Bool.and_self, if_true]
  exact forget_legal (forget_bind fun _ _ _ => forget_chain _)

/-- The next token goes on with no chain of operators that bind at least as strongly as `least`. -/
def EndsChain (least : Nat) (inBody : Bool) (ts : List Token) : Prop :=
  ∀ t ∈ ts.head?, t.kind.precedence < least ∨ endsBody inBody t = true

theorem EndsChain.readChain_eq {left : Term} (h : EndsChain least inBody ts) :
    readChain least inBody left ts = .ok (left, ts) := by
  cases ts with
  | nil => exact readChain_nil left
  | cons t r₁ =>
    rw [readChain, chain]
    simp only
    cases t.kind.operator? with
    | none => rfl
    | some op =>
      rcases h t rfl with hlt | hends
      · simp only [Nat.not_le.mpr hlt, decide_false, Bool.false_and]
        rfl
      · simp only [hends, Bool.not_true, Bool.and_false]
        rfl

theorem exists_of_not_endsChain (h : ¬ EndsChain least inBody ts) :
    ∃ t us, ts = t :: us ∧ least ≤ t.kind.precedence ∧ endsBody inBody t = false := by
  cases ts with
  | nil => exact absurd nofun h
  | cons t us => exact ⟨t, us, rfl, by simpa [EndsChain] using h⟩

/-! ## Applications -/

theorem forget_arguments {func : Term} (h : ts.length < n) :
    forget (arguments inBody func ⟨ts, h⟩) = readArguments inBody func ts := by
  induction hl : ts.length using Nat.strongRecOn generalizing ts func n with
  | ind l ih =>
    subst hl
    cases ts with
    | nil =>
      rw [readArguments, arguments, arguments]
      rfl
    | cons t r₁ =>
      have hstep : ∀ (n : Nat) (h : (t :: r₁).length < n),
          forget (arguments inBody func ⟨t :: r₁, h⟩) =
            if t.kind.beginsArgument && !endsBody inBody t then do
              let arg ← readAtom (t :: r₁)
              readArguments inBody (.app func arg.1) arg.2
            else pure (func, t :: r₁) := by
        intro n h
        rw [arguments]
        simp only
        split
        · exact forget_bind fun arg r₂ h₂ => ih r₂.length h₂ _ rfl
        · rfl
      rw [hstep n h, readArguments, hstep]

theorem readApplication_eq (inBody : Bool) (ts : List Token) :
    readApplication inBody ts = readAtom ts >>= fun p => readArguments inBody p.1 p.2 := by
  rw [readApplication, application]
  exact forget_bind fun func rest hrest => forget_arguments hrest

theorem readArguments_argument {func : Term} (hbegins : t.kind.beginsArgument = true)
    (hends : endsBody inBody t = false) :
    readArguments inBody func (t :: ts) =
      readAtom (t :: ts) >>= fun p => readArguments inBody (.app func p.1) p.2 := by
  rw [readArguments, arguments]
  simp only [hbegins, hends, Bool.not_false, Bool.and_self, if_true]
  exact forget_bind fun _ _ _ => forget_arguments _

/-- The next token is no argument of an application before it. -/
def EndsArguments (inBody : Bool) (ts : List Token) : Prop :=
  ∀ t ∈ ts.head?, t.kind.beginsArgument = false ∨ endsBody inBody t = true

theorem EndsArguments.readArguments_eq {func : Term} (h : EndsArguments inBody ts) :
    readArguments inBody func ts = .ok (func, ts) := by
  cases ts with
  | nil =>
    rw [readArguments, arguments]
    rfl
  | cons t r₁ =>
    rw [readArguments, arguments]
    simp only
    rcases h t rfl with hbegins | hends
    · simp only [hbegins, Bool.false_and]
      rfl
    · simp only [hends, Bool.not_true, Bool.and_false]
      rfl

theorem exists_of_not_endsArguments (h : ¬ EndsArguments inBody ts) :
    ∃ t us, ts = t :: us ∧ t.kind.beginsArgument = true ∧ endsBody inBody t = false := by
  cases ts with
  | nil => exact absurd nofun h
  | cons t us => exact ⟨t, us, rfl, by simpa [EndsArguments] using h⟩

/-! ## Atoms -/

theorem readAtom_number (h : t.kind = .number) :
    readAtom (t :: ts) = (do
      legal ts
      match Numeral.value? t.data with
      | some n => pure (.lit (.int n), ts)
      | none => reject ts t.pos (.outOfRange t.data)) := by
  rw [readAtom, atom]
  simp only [h]
  refine forget_legal ?_
  cases Numeral.value? t.data <;> rfl

theorem readAtom_string (h : t.kind = .string) :
    readAtom (t :: ts) =
      match Text.literalBytes? t.data with
      | some bytes => legal ts >>= fun _ => pure (.lit (.text bytes), ts)
      | none => reject (t :: ts) t.pos (.invalidString t.data) := by
  rw [readAtom, atom]
  simp only [h]
  cases Text.literalBytes? t.data with
  | none => rfl
  | some bytes => exact forget_legal rfl

theorem readAtom_true (h : t.kind = .trueKeyword) :
    readAtom (t :: ts) = legal ts >>= fun _ => pure (.lit (.bool true), ts) := by
  rw [readAtom, atom]
  simp only [h]
  exact forget_legal rfl

theorem readAtom_false (h : t.kind = .falseKeyword) :
    readAtom (t :: ts) = legal ts >>= fun _ => pure (.lit (.bool false), ts) := by
  rw [readAtom, atom]
  simp only [h]
  exact forget_legal rfl

theorem readAtom_var (h : t.kind = .ident) :
    readAtom (t :: ts) = legal ts >>= fun _ => pure (.var t.data, ts) := by
  rw [readAtom, atom]
  simp only [h]
  exact forget_legal rfl

theorem readAtom_paren (h : t.kind = .leftParen) :
    readAtom (t :: ts) = (do
      legal ts
      let inner ← readTerm false ts
      let right ← readSymbol .rightParen .afterParenthesized inner.2
      pure (inner.1, right.2)) := by
  rw [readAtom, atom]
  simp only [h]
  exact forget_legal (forget_bind fun _ _ _ => forget_bind fun _ _ _ => rfl)

theorem readAtom_eq_reject (h : t.kind.beginsArgument = false) :
    readAtom (t :: ts) = reject (t :: ts) t.pos (.expectedTerm t) := by
  rw [readAtom, atom]
  cases hkind : t.kind with
  | leftParen | ident | number | string | trueKeyword | falseKeyword =>
    rw [hkind] at h
    cases h
  | _ => rfl

/-! ## Programs -/

theorem readDefinition_eq (ts : List Token) :
    readDefinition ts = (do
      let name ← readSymbol .ident .afterDef ts
      let colon ← readSymbol .colon .afterDefinitionName name.2
      let declared ← readType colon.2
      let equals ← readSymbol .equals .afterDefinitionType declared.2
      let body ← readTerm true equals.2
      pure (⟨name.1.data, declared.1, body.1⟩, body.2)) := by
  rw [readDefinition, definition]
  refine forget_bind fun _ _ _ => forget_bind fun _ _ _ => ?_
  exact forget_bind fun _ _ _ => forget_bind fun _ _ _ => forget_bind fun _ _ _ => rfl

theorem mainTerm_eq (ts : List Token) :
    mainTerm ts = (do
      let main ← readTerm false ts
      if (current main.2).kind = .eof then do
        legal main.2.tail
        pure (main.1, main.2)
      else
        reject main.2 (current main.2).pos
          (.expectedToken .eof .endOfProgram (current main.2))) := by
  rw [mainTerm, readTerm]
  cases term false ts <;> rfl

theorem programAfter_define {definitions : List Definition} (h : t.kind = .defKeyword) :
    programAfter definitions (t :: ts) = (do
      legal ts
      let d ← readDefinition ts
      programAfter (definitions ++ [d.1]) d.2) := by
  rw [programAfter, if_pos h, readDefinition]
  cases definition ts <;> rfl

theorem programAfter_main {definitions : List Definition}
    (h : ∀ t ∈ ts.head?, t.kind ≠ .defKeyword) :
    programAfter definitions ts = (do
      let main ← mainTerm ts
      pure (⟨definitions, main.1⟩, main.2)) := by
  cases ts with
  | nil => rw [programAfter]
  | cons t r₁ => rw [programAfter, if_neg (h t rfl)]

end TypedLambda.Parser
