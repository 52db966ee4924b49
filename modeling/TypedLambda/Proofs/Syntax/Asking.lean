import TypedLambda.Proofs.Syntax.Reading

/-!
# The parser as a computation that asks for tokens

The parser reads a list of tokens. Here it is written a second time, as a computation that holds one
token and asks a source for the next one; `Asking.next` is the only way to come by a token. Nothing
makes it end: its functions call one another as far as a number of levels allows, and a computation
ends if it ends with all sufficiently many levels (`Asking.Settles`).

`Asking.EndsAs` compares a computation with what a function of the parser reads from a list, when
the source replays that list. It has a rule for each way in which computations are put together.
-/

namespace TypedLambda

/-! ## Asking for tokens -/

/-- What the parser holds: the current token, and how often it has asked for one. -/
structure Asking.State where
  token : Token
  asked : Nat

/-- Before the first call there is no token. -/
def Asking.State.start : Asking.State := ⟨.endAt ⟨0, 0, 0⟩, 0⟩

/-- A computation that holds a token. It may end with a syntax error, or not at all. -/
abbrev Asking := ExceptT SyntaxError (StateT Asking.State Option)

namespace Asking

variable {α β : Type}

/-- How a computation ends, and in which state. -/
def runFrom (m : Asking α) (s : State) : Option (Except SyntaxError α × State) := m.run.run s

def unending : Asking α := ExceptT.mk fun _ => none

def current : Asking Token := do
  let s ← get
  pure s.token

def reject (pos : Pos) (fault : SyntaxFault) : Asking α := throw ⟨pos, fault⟩

-- The source answers the call that follows `i` other ones with the token `source i`.
variable (source : Nat → Token)

/-- Ask for the next token, and refuse an illegal one. -/
def next : Asking Unit := do
  let s ← get
  let t := source s.asked
  set (State.mk t (s.asked + 1))
  if t.kind = .illegal then reject t.pos (.illegalToken t.data) else pure ()

def symbol (kind : TokenKind) (place : Place) : Asking Token := do
  let t ← current
  if t.kind = kind then do
    next source
    pure t
  else reject t.pos (.expectedToken kind place t)

/-! ## The parser -/

structure Readers where
  type : Asking Ty
  atomType : Asking Ty
  term (inBody : Bool) : Asking Term
  binary (least : Nat) (inBody : Bool) : Asking Term
  chain (least : Nat) (inBody : Bool) (left : Term) : Asking Term
  application (inBody : Bool) : Asking Term
  arguments (inBody : Bool) (func : Term) : Asking Term
  atom : Asking Term
  programAfter (definitions : List Definition) : Asking Program

namespace Readers

/-- The functions without a level left. -/
def stuck : Readers where
  type := unending
  atomType := unending
  term _ := unending
  binary _ _ := unending
  chain _ _ _ := unending
  application _ := unending
  arguments _ _ := unending
  atom := unending
  programAfter _ := unending

variable (r : Readers)

def stepType : Asking Ty := do
  let arg ← r.atomType
  let t ← current
  if t.kind = .rightArrow then do
    next source
    let result ← r.type
    pure (.fn arg result)
  else pure arg

def stepAtomType : Asking Ty := do
  let t ← current
  match t.kind with
  | .ident =>
    match Ty.ofName? t.data with
    | some base => do
      next source
      pure base
    | none => reject t.pos (.unknownType t.data)
  | .leftParen => do
    next source
    let inner ← r.type
    let _ ← symbol source .rightParen .afterType
    pure inner
  | _ => reject t.pos (.expectedType t)

def stepTerm (inBody : Bool) : Asking Term := do
  let t ← current
  match t.kind with
  | .backslash => do
    next source
    let param ← symbol source .ident .afterBackslash
    let _ ← symbol source .colon .afterParameter
    let paramType ← r.atomType
    let _ ← symbol source .rightArrow .afterParameterType
    let body ← r.term inBody
    pure (.lam param.data paramType body)
  | .letKeyword => do
    next source
    let name ← symbol source .ident .afterLet
    let _ ← symbol source .equals .afterLetName
    let bound ← r.term inBody
    let _ ← symbol source .inKeyword .afterLetBinding
    let body ← r.term inBody
    pure (.letIn name.data bound body)
  | .ifKeyword => do
    next source
    let cond ← r.term inBody
    let _ ← symbol source .thenKeyword .afterCondition
    let yes ← r.term inBody
    let _ ← symbol source .elseKeyword .afterThenBranch
    let no ← r.term inBody
    pure (.ite cond yes no)
  | _ => r.binary 1 inBody

def stepChain (least : Nat) (inBody : Bool) (left : Term) : Asking Term := do
  let t ← current
  match t.kind.operator? with
  | some op =>
    if least ≤ t.kind.precedence && !Parser.endsBody inBody t then do
      next source
      let right ← r.binary (t.kind.precedence + 1) inBody
      r.chain least inBody (.bin op left right)
    else pure left
  | none => pure left

def stepArguments (inBody : Bool) (func : Term) : Asking Term := do
  let t ← current
  if t.kind.beginsArgument && !Parser.endsBody inBody t then do
    let arg ← r.atom
    r.arguments inBody (.app func arg)
  else pure func

def stepAtom : Asking Term := do
  let t ← current
  match t.kind with
  | .number => do
    next source
    match Numeral.value? t.data with
    | some n => pure (.lit (.int n))
    | none => reject t.pos (.outOfRange t.data)
  | .string =>
    match Text.literalBytes? t.data with
    | some bytes => do
      next source
      pure (.lit (.text bytes))
    | none => reject t.pos (.invalidString t.data)
  | .trueKeyword => do
    next source
    pure (.lit (.bool true))
  | .falseKeyword => do
    next source
    pure (.lit (.bool false))
  | .ident => do
    next source
    pure (.var t.data)
  | .leftParen => do
    next source
    let inner ← r.term false
    let _ ← symbol source .rightParen .afterParenthesized
    pure inner
  | _ => reject t.pos (.expectedTerm t)

def definition : Asking Definition := do
  let name ← symbol source .ident .afterDef
  let _ ← symbol source .colon .afterDefinitionName
  let declared ← r.type
  let _ ← symbol source .equals .afterDefinitionType
  let body ← r.term true
  pure ⟨name.data, declared, body⟩

def stepProgramAfter (definitions : List Definition) : Asking Program := do
  let t ← current
  if t.kind = .defKeyword then do
    next source
    let d ← r.definition source
    r.programAfter (definitions ++ [d])
  else do
    let main ← r.term false
    let _ ← symbol source .eof .endOfProgram
    pure ⟨definitions, main⟩

/-- The functions with a number of levels: each calls the others with one level less. A chain of
operators, a list of arguments and a list of definitions take a level for each turn. -/
def within : Nat → Readers
  | 0 => stuck
  | n + 1 =>
    let r := within n
    { type := r.stepType source
      atomType := r.stepAtomType source
      term := r.stepTerm source
      binary := fun least inBody => r.application inBody >>= r.chain least inBody
      chain := r.stepChain source
      application := fun inBody => r.atom >>= r.arguments inBody
      arguments := r.stepArguments
      atom := r.stepAtom source
      programAfter := r.stepProgramAfter source }

end Readers

end Asking

/-- What a run tells: how often it has asked for a token, and its result. -/
def Parsed.ofRun (p : Except SyntaxError Program × Asking.State) : Parsed := ⟨p.2.asked, p.1⟩

def Program.ask (source : Nat → Token) (levels : Nat) : Option Parsed :=
  let readers := Asking.Readers.within source levels
  let asking := Asking.next source >>= fun _ => readers.programAfter []
  (asking.runFrom .start).map .ofRun

/-! ## Runs -/

def Asking.State.ask (s : State) (source : Nat → Token) : State := ⟨source s.asked, s.asked + 1⟩

namespace Asking

variable {α β : Type} {s s' : State} {source : Nat → Token}

section

variable {m : Asking α} {f : α → Asking β}

theorem runFrom_bind_of_ok {a : α} (h : m.runFrom s = some (.ok a, s')) :
    (m >>= f).runFrom s = (f a).runFrom s' := by
  simp only [runFrom] at h ⊢
  simp [ExceptT.run_bind, StateT.run_bind, h]

theorem runFrom_bind_of_error {e : SyntaxError} (h : m.runFrom s = some (.error e, s')) :
    (m >>= f).runFrom s = some (.error e, s') := by
  simp only [runFrom] at h ⊢
  simp [ExceptT.run_bind, StateT.run_bind, h]

end

theorem runFrom_current : current.runFrom s = some (.ok s.token, s) := rfl

theorem runFrom_next (source : Nat → Token) (s : State) :
    (next source).runFrom s =
      (if (s.ask source).token.kind = .illegal then
        reject (s.ask source).token.pos (.illegalToken (s.ask source).token.data)
      else pure () : Asking Unit).runFrom (s.ask source) := rfl

theorem runFrom_next_of_legal (h : (s.ask source).token.kind ≠ .illegal) :
    (next source).runFrom s = some (.ok (), s.ask source) := by
  rw [runFrom_next, if_neg h]
  rfl

theorem runFrom_next_of_illegal {t : Token} (ht : (s.ask source).token = t)
    (h : t.kind = .illegal) :
    (next source).runFrom s = some (.error ⟨t.pos, .illegalToken t.data⟩, s.ask source) := by
  subst ht
  rw [runFrom_next, if_pos h]
  rfl

/-- With enough levels, the computation ends in this way. -/
def Settles (m : Nat → Asking α) (s : State) (out : Except SyntaxError α × State) : Prop :=
  ∃ least, ∀ n, least ≤ n → (m n).runFrom s = some out

namespace Settles

variable {m : Nat → Asking α} {f : Nat → α → Asking β} {out : Except SyntaxError β × State}

theorem of_runFrom {m : Asking β} (h : m.runFrom s = some out) : Settles (fun _ => m) s out :=
  ⟨0, fun _ _ => h⟩

theorem bind_of_ok {a : α} (hm : Settles m s (.ok a, s')) (hf : Settles (f · a) s' out) :
    Settles (fun n => m n >>= f n) s out := by
  obtain ⟨least, hm⟩ := hm
  obtain ⟨least', hf⟩ := hf
  refine ⟨max least least', fun n hn => ?_⟩
  rw [runFrom_bind_of_ok (hm n (Nat.le_trans (Nat.le_max_left _ _) hn))]
  exact hf n (Nat.le_trans (Nat.le_max_right _ _) hn)

theorem bind_of_error {e : SyntaxError} (hm : Settles m s (.error e, s')) :
    Settles (fun n => m n >>= f n) s (.error e, s') := by
  obtain ⟨least, hm⟩ := hm
  exact ⟨least, fun n hn => runFrom_bind_of_error (hm n hn)⟩

theorem of_succ {m : Nat → Asking β} (h : Settles (fun n => m (n + 1)) s out) :
    Settles m s out := by
  obtain ⟨least, h⟩ := h
  refine ⟨least + 1, fun n hn => ?_⟩
  obtain ⟨n, rfl⟩ : ∃ k, n = k + 1 := ⟨n - 1, by omega⟩
  exact h n (Nat.le_of_succ_le_succ hn)

end Settles

end Asking

/-! ## Sources that replay a list -/

/-- What the parser tells of reading a program from the tokens `all`. -/
def Parsed.ofReading (all : List Token) : Except Parser.Rejection (Program × List Token) → Parsed
  | .ok (p, rest) => ⟨all.length + 2 - rest.length, .ok p⟩
  | .error e => ⟨all.length + 1 - e.rest.length, .error e.error⟩

theorem Program.parse_eq (ts : List Token) :
    Program.parse ts =
      .ofReading ts (Parser.legal ts >>= fun _ => Parser.programAfter [] ts) := by
  rw [Program.parse]
  cases Parser.legal ts >>= fun _ => Parser.programAfter [] ts <;> rfl

/-- The state in which the tokens `ts` are left of the tokens `all`. -/
def Asking.State.facing (all ts : List Token) : State :=
  ⟨Parser.current ts, all.length + 1 - ts.length⟩

theorem Asking.State.ask_facing_of_token {source : Nat → Token} {all : List Token} {t : Token}
    {r : List Token} (hts : t :: r <:+ all)
    (htoken : ((State.facing all (t :: r)).ask source).token = Parser.current r) :
    (State.facing all (t :: r)).ask source = .facing all r := by
  have hlen : r.length < all.length := hts.length_le
  have hasked : all.length + 1 - (t :: r).length + 1 = all.length + 1 - r.length := by
    rw [List.length_cons]
    omega
  exact congr (congrArg State.mk htoken) hasked

/-- The source gives the tokens of the list. The next token is the one that the list has after the
current one; after the end of input it may be any other end of input. -/
structure Replays (source : Nat → Token) (all : List Token) : Prop where
  first : source 0 = Parser.current all
  next : ∀ {ts : List Token}, ts <:+ all →
    source (all.length + 1 - ts.length) = Parser.current ts.tail ∨
      (Parser.current ts).kind = .eof ∧ (Parser.current ts.tail).kind = .eof ∧
        (source (all.length + 1 - ts.length)).kind = .eof

namespace Replays

open Asking (State)

variable {source : Nat → Token} {all : List Token}

theorem ask_facing (h : Replays source all) {t : Token} {r : List Token} (hts : t :: r <:+ all)
    (ht : t.kind ≠ .eof) : (State.facing all (t :: r)).ask source = .facing all r :=
  State.ask_facing_of_token hts ((h.next hts).resolve_right fun hend => ht hend.1)

/-- After the end of input, the source gives an illegal token just when the list has one there. -/
theorem legal_or_illegal (h : Replays source all) {ts : List Token} (hts : ts <:+ all) :
    ((State.facing all ts).ask source).token.kind ≠ .illegal ∧ Parser.legal ts.tail = .ok () ∨
      ((State.facing all ts).ask source).token = Parser.current ts.tail ∧
        (Parser.current ts.tail).kind = .illegal := by
  have hlegal : (Parser.current ts.tail).kind ≠ .illegal → Parser.legal ts.tail = .ok () :=
    fun hkind => if_neg hkind
  rcases h.next hts with hanswer | ⟨_, htail, hanswer⟩
  · by_cases hillegal : (Parser.current ts.tail).kind = .illegal
    · exact .inr ⟨hanswer, hillegal⟩
    · exact .inl ⟨fun hkind => hillegal (hanswer ▸ hkind), hlegal hillegal⟩
  · refine .inl ⟨fun hkind => ?_, hlegal (by simp [htail])⟩
    cases hanswer.symm.trans hkind

end Replays

namespace Asking

open TypedLambda.Parser (Rejection legal readSymbol)

variable {α β : Type} {source : Nat → Token} {all ts : List Token} {t : Token} {r : List Token}

theorem runFrom_next_of_ask {s : State} (h : s.ask source = .facing all r) :
    legal r = .ok () ∧ (next source).runFrom s = some (.ok (), .facing all r) ∨
      ∃ e, legal r = .error ⟨e, r⟩ ∧ (next source).runFrom s = some (.error e, .facing all r) := by
  have htoken : (s.ask source).token = Parser.current r := by rw [h]; rfl
  rw [← h]
  by_cases hillegal : (Parser.current r).kind = .illegal
  · exact .inr ⟨_, if_pos hillegal, runFrom_next_of_illegal htoken hillegal⟩
  · exact .inl ⟨if_neg hillegal, runFrom_next_of_legal (htoken ▸ hillegal)⟩

/-! ## Computations and reading functions -/

/-- After something was read, the current token is the first one that is left. -/
def Standing (all rest : List Token) (s : State) : Prop := rest <:+ all ∧ s = .facing all rest

/-- After a whole program was read, one more token was asked for than the first one that is left. -/
def Past (all rest : List Token) (s : State) : Prop := s.asked = all.length + 2 - rest.length

/-- With the tokens `ts` left of `all`, the computation ends as the reading of these tokens does. A
syntax error leaves the same tokens, and a success leaves them `after` it. -/
def EndsAs (all : List Token) (after : List Token → State → Prop) (m : Nat → Asking α)
    (ts : List Token) : Except Rejection (α × List Token) → Prop
  | .ok (a, rest) => ∃ s, after rest s ∧ Settles m (.facing all ts) (.ok a, s)
  | .error e => Settles m (.facing all ts) (.error e.error, .facing all e.rest)

/-- The computation does what a reading function does with these tokens. -/
abbrev Follows (all : List Token) (m : Nat → Asking α) (ts : List Token)
    (x : Except Rejection (α × List Token)) : Prop :=
  EndsAs all (Standing all) m ts x

namespace EndsAs

variable {after : List Token → State → Prop} {x : Except Rejection (α × List Token)}

theorem pure (hts : ts <:+ all) (a : α) : Follows all (fun _ => Pure.pure a) ts (.ok (a, ts)) :=
  ⟨_, ⟨hts, rfl⟩, .of_runFrom rfl⟩

theorem reject (pos : Pos) (fault : SyntaxFault) :
    EndsAs all after (fun _ => (Asking.reject pos fault : Asking α)) ts
      (Parser.reject ts pos fault) :=
  Settles.of_runFrom rfl

theorem of_succ {m : Nat → Asking α} (h : EndsAs all after (fun n => m (n + 1)) ts x) :
    EndsAs all after m ts x := by
  cases x with
  | error e => exact Settles.of_succ h
  | ok p =>
    obtain ⟨s, hs, hsettles⟩ := h
    exact ⟨s, hs, hsettles.of_succ⟩

theorem of_settles {m : Nat → Asking β} {f : Nat → β → Asking α} {b : β} {us : List Token}
    (hm : Settles m (.facing all ts) (.ok b, .facing all us)) (hf : EndsAs all after (f · b) us x) :
    EndsAs all after (fun n => m n >>= f n) ts x := by
  cases x with
  | error e => exact hm.bind_of_ok hf
  | ok p =>
    obtain ⟨s, hs, hsettles⟩ := hf
    exact ⟨s, hs, hm.bind_of_ok hsettles⟩

theorem bind {m : Nat → Asking β} {f : Nat → β → Asking α}
    {y : Except Rejection (β × List Token)}
    {g : β × List Token → Except Rejection (α × List Token)} (hy : Follows all m ts y)
    (hg : ∀ b rest, y = .ok (b, rest) → rest <:+ all →
      EndsAs all after (f · b) rest (g (b, rest))) :
    EndsAs all after (fun n => m n >>= f n) ts (y >>= g) := by
  cases y with
  | error e => exact Settles.bind_of_error hy
  | ok p =>
    obtain ⟨_, ⟨hrest, rfl⟩, hsettles⟩ := hy
    exact .of_settles hsettles (hg p.1 p.2 rfl hrest)

theorem current {f : Nat → Token → Asking α}
    (h : EndsAs all after (f · (Parser.current ts)) ts x) :
    EndsAs all after (fun n => Asking.current >>= f n) ts x :=
  .of_settles (.of_runFrom runFrom_current) h

theorem currentCons {f : Nat → Token → Asking α} (h : EndsAs all after (f · t) (t :: r) x) :
    EndsAs all after (fun n => Asking.current >>= f n) (t :: r) x :=
  .current h

theorem next (hsource : Replays source all) (hts : t :: r <:+ all) (ht : t.kind ≠ .eof)
    {f : Nat → Unit → Asking α} (h : r <:+ all → EndsAs all after (f · ()) r x) :
    EndsAs all after (fun n => Asking.next source >>= f n) (t :: r) (legal r >>= fun _ => x) := by
  rcases runFrom_next_of_ask (hsource.ask_facing hts ht) with ⟨hlegal, hrun⟩ | ⟨e, hlegal, hrun⟩
  · rw [hlegal]
    exact .of_settles (.of_runFrom hrun) (h ((List.suffix_cons t r).trans hts))
  · rw [hlegal]
    exact Settles.bind_of_error (.of_runFrom hrun)

theorem symbol (hsource : Replays source all) (hts : ts <:+ all) {kind : TokenKind}
    (hkind : kind ≠ .eof) (place : Place) :
    Follows all (fun _ => Asking.symbol source kind place) ts (readSymbol kind place ts) := by
  cases ts with
  | nil =>
    refine .current ?_
    rw [if_neg fun h => hkind h.symm]
    exact .reject _ _
  | cons t r =>
    refine .currentCons ?_
    by_cases ht : t.kind = kind
    · rw [if_pos ht, Parser.readSymbol_cons ht]
      exact .next hsource hts (ht ▸ hkind) fun hr => .pure hr t
    · rw [if_neg ht, readSymbol, Parser.symbol, if_neg ht]
      exact .reject _ _

theorem ofRun {m : Nat → Asking Program} {y : Except Rejection (Program × List Token)}
    (h : EndsAs all (Past all) m ts y) :
    ∃ least, ∀ n, least ≤ n →
      ((m n).runFrom (.facing all ts)).map Parsed.ofRun = some (.ofReading all y) := by
  cases y with
  | error e =>
    obtain ⟨least, h⟩ := h
    refine ⟨least, fun n hn => ?_⟩
    rw [h n hn]
    rfl
  | ok q =>
    obtain ⟨s, hasked, least, h⟩ := h
    refine ⟨least, fun n hn => ?_⟩
    rw [h n hn]
    exact congrArg (fun k => some (Parsed.mk k (.ok q.1))) hasked

end EndsAs

end Asking

end TypedLambda
