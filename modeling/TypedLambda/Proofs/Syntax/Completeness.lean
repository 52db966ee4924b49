import TypedLambda.Proofs.Syntax.Soundness

/-!
# What is derived is read

The other direction, by induction on derivations. A phrase is read whatever comes after it, as long
as that does not go on with the phrase: what a reading function still has to do on the tokens that
follow is part of each statement (`Parser.Reads`), since operators of one level and arguments are
read by going on from what is already there.

* `Parser.readChain_succ`: a chain is read at one level by reading it at the next level first;
* `Parser.reads_of_derives`: every phrase that the grammar derives is read.

Together with soundness: the programs that are read are those that the grammar derives.
-/

namespace TypedLambda.Parser

open Grammar

variable {t : Token} {ts rest : List Token} {inBody : Bool}

/-! ## First tokens -/

theorem legal_of_kind {kind : TokenKind} (h : t.kind = kind) (hkind : kind ≠ .illegal) :
    legal (t :: ts) = .ok () :=
  legal_cons (h ▸ hkind)

theorem readSymbol_of_kind {kind : TokenKind} {place : Place} (h : t.kind = kind)
    (hlegal : legal ts = .ok ()) : readSymbol kind place (t :: ts) = .ok (t, ts) := by
  rw [readSymbol_cons h, hlegal]
  rfl

theorem legal_of_derivesType {ph : TypePhrase} {a : Ty} (h : DerivesType ph ts a) :
    legal (ts ++ rest) = .ok () := by
  obtain ⟨t, us, rfl, hkind | hkind⟩ := h.begins
  · exact legal_of_kind hkind nofun
  · exact legal_of_kind hkind nofun

theorem ne_of_beginsArgument {kind other : TokenKind} (h : kind.beginsArgument = true)
    (hother : other.beginsArgument = false) : kind ≠ other := by
  rintro rfl
  rw [h] at hother
  cases hother

theorem ne_of_begins {ph : Phrase} {kind : TokenKind} (h : ph.Begins kind) :
    kind ≠ .illegal ∧ kind ≠ .defKeyword := by
  cases ph with
  | term b =>
    rcases h with h | rfl | rfl | rfl
    · exact ⟨ne_of_beginsArgument h rfl, ne_of_beginsArgument h rfl⟩
    · exact ⟨nofun, nofun⟩
    · exact ⟨nofun, nofun⟩
    · exact ⟨nofun, nofun⟩
  | _ => exact ⟨ne_of_beginsArgument h rfl, ne_of_beginsArgument h rfl⟩

theorem legal_of_derives {ph : Phrase} {x : Term} (h : Derives ph ts x) :
    legal (ts ++ rest) = .ok () := by
  obtain ⟨t, us, rfl, hbegins⟩ := h.begins
  exact legal_cons (ne_of_begins hbegins).1

theorem legal_append_of_derivesProgram {p : Program} (h : DerivesProgram ts p) :
    legal (ts ++ rest) = .ok () := by
  obtain ⟨t, us, rfl, hkind | hbegins⟩ := h.begins
  · exact legal_of_kind hkind nofun
  · exact legal_cons (ne_of_begins hbegins).1

theorem legal_of_derivesProgram {p : Program} (h : DerivesProgram ts p) : legal ts = .ok () := by
  have hlegal : legal (ts ++ []) = .ok () := legal_append_of_derivesProgram h
  rwa [List.append_nil] at hlegal

/-! ## Types -/

/-- The tokens `ts` are read as the type `a`, whatever follows them but an arrow after a whole
type. -/
def ReadsType : TypePhrase → List Token → Ty → Prop
  | .type, ts, a => ∀ rest, legal rest = .ok () → (∀ t ∈ rest.head?, t.kind ≠ .rightArrow) →
    readType (ts ++ rest) = .ok (a, rest)
  | .atom, ts, a => ∀ rest, legal rest = .ok () → readAtomType (ts ++ rest) = .ok (a, rest)

theorem readsType_name {a : Ty} (hkind : t.kind = .ident) (hname : Ty.ofName? t.data = some a) :
    ReadsType .atom [t] a := by
  intro rest hlegal
  rw [List.singleton_append, readAtomType_ident hkind, hname]
  simp only [hlegal, ok_bind]
  rfl

theorem readsType_of_derivesType {ph : TypePhrase} {a : Ty} (h : DerivesType ph ts a) :
    ReadsType ph ts a := by
  induction h with
  | int hkind hdata | bool hkind hdata | text hkind hdata =>
    exact readsType_name hkind (by rw [hdata]; rfl)
  | @paren left right us a hleft hinner hright ih =>
    intro rest hlegal
    have hread : readType (us ++ right :: rest) = .ok (a, right :: rest) := by
      refine ih _ (legal_of_kind hright nofun) ?_
      rintro t ⟨⟩
      rw [hright]
      nofun
    rw [List.cons_append, List.append_assoc, List.singleton_append, readAtomType_paren hleft,
      legal_of_derivesType hinner, ok_bind, hread, ok_bind, readSymbol_of_kind hright hlegal]
    rfl
  | single _ ih =>
    intro rest hlegal harrow
    rw [readType_eq, ih rest hlegal, ok_bind]
    cases rest with
    | nil => rfl
    | cons t r =>
      simp only
      rw [if_neg (harrow t rfl)]
      rfl
  | arrow _ harrowKind hresult ih₁ ih₂ =>
    intro rest hlegal harrow
    rw [List.append_assoc, List.cons_append, readType_eq,
      ih₁ _ (legal_of_kind harrowKind nofun), ok_bind]
    simp only
    rw [if_pos harrowKind, legal_of_derivesType hresult, ok_bind, ih₂ rest hlegal harrow]
    rfl

/-! ## Levels -/

theorem EndsChain.mono {low high : Nat} (hle : low ≤ high) (h : EndsChain low inBody ts) :
    EndsChain high inBody ts := by
  intro t ht
  rcases h t ht with hlt | hends
  · exact .inl (Nat.lt_of_lt_of_le hlt hle)
  · exact .inr hends

theorem readChain_succ (least : Nat) (left : Term) :
    readChain least inBody left ts =
      readChain (least + 1) inBody left ts >>= fun p => readChain least inBody p.1 p.2 := by
  induction hl : ts.length using Nat.strongRecOn generalizing ts left with
  | ind k ih =>
    subst hl
    by_cases hends : EndsChain (least + 1) inBody ts
    · rw [hends.readChain_eq, ok_bind]
    · obtain ⟨t, r₁, rfl, hleast, hbody⟩ := exists_of_not_endsChain hends
      obtain ⟨op, hop⟩ := exists_operator (Nat.lt_of_lt_of_le (Nat.succ_pos least) hleast)
      rw [readChain_operator hop (Nat.le_of_succ_le hleast) hbody,
        readChain_operator hop hleast hbody]
      cases legal r₁ with
      | error e => rfl
      | ok _ =>
        simp only [ok_bind]
        cases hright : readBinary (t.kind.precedence + 1) inBody r₁ with
        | error e => rfl
        | ok p =>
          have hlt : p.2.length < r₁.length := length_lt_of_forget hright
          exact ih p.2.length (Nat.lt_succ_of_lt hlt) _ rfl

theorem readBinary_succ (least : Nat) :
    readBinary least inBody ts =
      readBinary (least + 1) inBody ts >>= fun p => readChain least inBody p.1 p.2 := by
  rw [readBinary_eq, readBinary_eq]
  cases readApplication inBody ts with
  | error e => rfl
  | ok p => exact readChain_succ least p.1

/-! ## Terms -/

/-- The tokens `ts` are read as the term `x`. After an application, reading goes on with the
arguments that follow, and after a chain of some level with the operators that follow. -/
def Reads : Phrase → List Token → Term → Prop
  | .atom, ts, x => ∀ rest, legal rest = .ok () → readAtom (ts ++ rest) = .ok (x, rest)
  | .application inBody, ts, x => ∀ rest, legal rest = .ok () →
    readApplication inBody (ts ++ rest) = readArguments inBody x rest
  | .binary inBody level, ts, x => ∀ rest, legal rest = .ok () →
    EndsChain (level + 1) inBody rest → EndsArguments inBody rest →
    readBinary level inBody (ts ++ rest) = readChain level inBody x rest
  | .term inBody, ts, x => ∀ rest, legal rest = .ok () →
    EndsChain 1 inBody rest → EndsArguments inBody rest →
    readTerm inBody (ts ++ rest) = .ok (x, rest)

theorem endsChain_of_kind {kind : TokenKind} {least : Nat} (h : t.kind = kind)
    (hkind : kind.precedence < least) : EndsChain least inBody (t :: ts) := by
  rintro _ ⟨⟩
  exact .inl (h ▸ hkind)

theorem endsArguments_of_kind {kind : TokenKind} (h : t.kind = kind)
    (hkind : kind.beginsArgument = false) : EndsArguments inBody (t :: ts) := by
  rintro _ ⟨⟩
  exact .inl (h ▸ hkind)

theorem Reads.readTerm_eq {kind : TokenKind} {x : Term} (h : Reads (.term inBody) ts x)
    (ht : t.kind = kind) (hlegal : kind ≠ .illegal) (hprec : kind.precedence < 1)
    (harg : kind.beginsArgument = false) :
    readTerm inBody (ts ++ t :: rest) = .ok (x, t :: rest) :=
  h _ (legal_of_kind ht hlegal) (endsChain_of_kind ht hprec) (endsArguments_of_kind ht harg)

theorem reads_paren {left right : Token} {x : Term} (hleft : left.kind = .leftParen)
    (hinner : Derives (.term false) ts x) (hright : right.kind = .rightParen)
    (ih : Reads (.term false) ts x) : Reads .atom (left :: (ts ++ [right])) x := by
  intro rest hlegal
  rw [List.cons_append, List.append_assoc, List.singleton_append, readAtom_paren hleft,
    legal_of_derives hinner, ok_bind, ih.readTerm_eq hright nofun (by decide) rfl, ok_bind,
    readSymbol_of_kind hright hlegal]
  rfl

theorem reads_app {first : Token} {us : List Token} {func arg : Term}
    (hfirst : Continues inBody first) (harg : Derives .atom (first :: us) arg)
    (ih₁ : Reads (.application inBody) ts func) (ih₂ : Reads .atom (first :: us) arg) :
    Reads (.application inBody) (ts ++ first :: us) (.app func arg) := by
  intro rest hlegal
  obtain ⟨_, _, heq, hbegins⟩ := harg.begins
  obtain ⟨rfl, rfl⟩ := List.cons.inj heq
  rw [List.append_assoc, ih₁ _ (legal_of_derives harg), List.cons_append,
    readArguments_argument hbegins (continues_iff.mp hfirst), ← List.cons_append,
    ih₂ rest hlegal, ok_bind]

theorem reads_operator {level : Nat} {op : Operator} {us : List Token} {left right : Term}
    (hbinds : Binds t.kind op level) (hcontinues : Continues inBody t)
    (hright : Derives (.binary inBody (level + 1)) us right)
    (ih₁ : Reads (.binary inBody level) ts left)
    (ih₂ : Reads (.binary inBody (level + 1)) us right) :
    Reads (.binary inBody level) (ts ++ t :: us) (.bin op left right) := by
  intro rest hlegal hchain hargs
  obtain ⟨hop, rfl⟩ := binds_iff.mp hbinds
  have hkind : t.kind ≠ .illegal ∧ t.kind.beginsArgument = false := by
    generalize t.kind = kind at hop
    cases kind <;> cases hop <;> exact ⟨nofun, rfl⟩
  rw [List.append_assoc, List.cons_append,
    ih₁ _ (legal_cons hkind.1) (endsChain_of_kind rfl (Nat.lt_succ_self _))
      (endsArguments_of_kind rfl hkind.2),
    readChain_operator hop (Nat.le_refl _) (continues_iff.mp hcontinues),
    legal_of_derives hright, ok_bind,
    ih₂ rest hlegal (hchain.mono (Nat.le_succ _)) hargs, hchain.readChain_eq, ok_bind]

theorem reads_lam {backslash param colon arrow : Token} {us : List Token} {a : Ty} {x : Term}
    (hbackslash : backslash.kind = .backslash) (hparam : param.kind = .ident)
    (hcolon : colon.kind = .colon) (htype : DerivesType .atom ts a)
    (harrow : arrow.kind = .rightArrow) (hbody : Derives (.term inBody) us x)
    (ih : Reads (.term inBody) us x) :
    Reads (.term inBody) (backslash :: param :: colon :: (ts ++ arrow :: us))
      (.lam param.data a x) := by
  intro rest hlegal hchain hargs
  have hread : readAtomType (ts ++ arrow :: (us ++ rest)) = .ok (a, arrow :: (us ++ rest)) :=
    readsType_of_derivesType htype _ (legal_of_kind harrow nofun)
  simp only [List.cons_append, List.append_assoc]
  rw [readTerm_lam hbackslash, legal_of_kind hparam nofun, ok_bind,
    readSymbol_of_kind hparam (legal_of_kind hcolon nofun), ok_bind,
    readSymbol_of_kind hcolon (legal_of_derivesType htype), ok_bind, hread, ok_bind,
    readSymbol_of_kind harrow (legal_of_derives hbody), ok_bind, ih rest hlegal hchain hargs]
  rfl

theorem reads_letIn {keyword name equals keywordIn : Token} {us : List Token} {bound body : Term}
    (hkeyword : keyword.kind = .letKeyword) (hname : name.kind = .ident)
    (hequals : equals.kind = .equals) (hbound : Derives (.term inBody) ts bound)
    (hin : keywordIn.kind = .inKeyword) (hbody : Derives (.term inBody) us body)
    (ih₁ : Reads (.term inBody) ts bound) (ih₂ : Reads (.term inBody) us body) :
    Reads (.term inBody) (keyword :: name :: equals :: (ts ++ keywordIn :: us))
      (.letIn name.data bound body) := by
  intro rest hlegal hchain hargs
  simp only [List.cons_append, List.append_assoc]
  rw [readTerm_letIn hkeyword, legal_of_kind hname nofun, ok_bind,
    readSymbol_of_kind hname (legal_of_kind hequals nofun), ok_bind,
    readSymbol_of_kind hequals (legal_of_derives hbound), ok_bind,
    ih₁.readTerm_eq hin nofun (by decide) rfl, ok_bind,
    readSymbol_of_kind hin (legal_of_derives hbody), ok_bind, ih₂ rest hlegal hchain hargs]
  rfl

theorem reads_ite {keyword keywordThen keywordElse : Token} {us vs : List Token}
    {cond yes no : Term} (hkeyword : keyword.kind = .ifKeyword)
    (hcond : Derives (.term inBody) ts cond) (hthen : keywordThen.kind = .thenKeyword)
    (hyes : Derives (.term inBody) us yes) (helse : keywordElse.kind = .elseKeyword)
    (hno : Derives (.term inBody) vs no) (ih₁ : Reads (.term inBody) ts cond)
    (ih₂ : Reads (.term inBody) us yes) (ih₃ : Reads (.term inBody) vs no) :
    Reads (.term inBody) (keyword :: (ts ++ keywordThen :: (us ++ keywordElse :: vs)))
      (.ite cond yes no) := by
  intro rest hlegal hchain hargs
  simp only [List.cons_append, List.append_assoc]
  rw [readTerm_ite hkeyword, legal_of_derives hcond, ok_bind,
    ih₁.readTerm_eq hthen nofun (by decide) rfl, ok_bind,
    readSymbol_of_kind hthen (legal_of_derives hyes), ok_bind,
    ih₂.readTerm_eq helse nofun (by decide) rfl, ok_bind,
    readSymbol_of_kind helse (legal_of_derives hno), ok_bind, ih₃ rest hlegal hchain hargs]
  rfl

/-- **What is derived as a phrase is read as one.** -/
theorem reads_of_derives {ph : Phrase} {x : Term} (h : Derives ph ts x) : Reads ph ts x := by
  induction h with
  | number hkind hvalue =>
    intro rest hlegal
    rw [List.singleton_append, readAtom_number hkind, hlegal, ok_bind, hvalue]
    rfl
  | string hkind hbytes =>
    intro rest hlegal
    rw [List.singleton_append, readAtom_string hkind, hbytes]
    simp only [hlegal, ok_bind]
    rfl
  | true hkind =>
    intro rest hlegal
    rw [List.singleton_append, readAtom_true hkind, hlegal]
    rfl
  | false hkind =>
    intro rest hlegal
    rw [List.singleton_append, readAtom_false hkind, hlegal]
    rfl
  | var hkind =>
    intro rest hlegal
    rw [List.singleton_append, readAtom_var hkind, hlegal]
    rfl
  | paren hleft hinner hright ih => exact reads_paren hleft hinner hright ih
  | single _ ih =>
    intro rest hlegal
    rw [readApplication_eq, ih rest hlegal, ok_bind]
  | app _ hfirst harg ih₁ ih₂ => exact reads_app hfirst harg ih₁ ih₂
  | operand _ ih =>
    intro rest hlegal _ hargs
    rw [readBinary_eq, ih rest hlegal, hargs.readArguments_eq, ok_bind]
  | tighter _ ih =>
    intro rest hlegal hchain hargs
    rw [readBinary_succ, ih rest hlegal (hchain.mono (Nat.le_succ _)) hargs, hchain.readChain_eq,
      ok_bind]
  | operator _ hbinds hcontinues hright ih₁ ih₂ =>
    exact reads_operator hbinds hcontinues hright ih₁ ih₂
  | chain hbinary ih =>
    intro rest hlegal hchain hargs
    obtain ⟨t, us, rfl, hbegins⟩ := hbinary.begins
    rw [List.cons_append, readTerm_binary (ne_of_beginsArgument hbegins rfl)
      (ne_of_beginsArgument hbegins rfl) (ne_of_beginsArgument hbegins rfl), ← List.cons_append,
      ih rest hlegal (hchain.mono (Nat.le_succ _)) hargs, hchain.readChain_eq]
  | lam hbackslash hparam hcolon htype harrow hbody ih =>
    exact reads_lam hbackslash hparam hcolon htype harrow hbody ih
  | letIn hkeyword hname hequals hbound hin hbody ih₁ ih₂ =>
    exact reads_letIn hkeyword hname hequals hbound hin hbody ih₁ ih₂
  | ite hkeyword hcond hthen hyes helse hno ih₁ ih₂ ih₃ =>
    exact reads_ite hkeyword hcond hthen hyes helse hno ih₁ ih₂ ih₃

/-! ## Programs -/

theorem ends_of_endsBody {next : Token} (h : EndsBody next) :
    EndsChain 1 true (next :: rest) ∧ EndsArguments true (next :: rest) := by
  rcases h with hcolumn | ⟨hbinary, harg⟩
  · have hends : endsBody true next = true := by simp [endsBody, hcolumn]
    refine ⟨?_, ?_⟩ <;> rintro _ ⟨⟩ <;> exact .inr hends
  · have hprec : next.kind.precedence < 1 := by simpa [TokenKind.isBinary] using hbinary
    exact ⟨endsChain_of_kind rfl hprec, endsArguments_of_kind rfl harg⟩

theorem ends_of_eof (heof : (current rest).kind = .eof) :
    legal rest = .ok () ∧ EndsChain 1 inBody rest ∧ EndsArguments inBody rest := by
  cases rest with
  | nil => exact ⟨legal_nil, nofun, nofun⟩
  | cons t r =>
    exact ⟨legal_of_kind heof nofun, endsChain_of_kind heof (by decide),
      endsArguments_of_kind heof rfl⟩

/-- **What is derived as a program is read as one, up to the end of input.** -/
theorem programAfter_append_of_derivesProgram {p : Program} (h : DerivesProgram ts p)
    (heof : (current rest).kind = .eof) (hlegal : legal rest.tail = .ok ())
    (definitions : List Definition) :
    programAfter definitions (ts ++ rest) = .ok (⟨definitions ++ p.definitions, p.main⟩, rest) := by
  induction h generalizing definitions with
  | @main ts x hmain =>
    have hdef : ∀ t ∈ (ts ++ rest).head?, t.kind ≠ .defKeyword := by
      obtain ⟨t, us, rfl, hbegins⟩ := hmain.begins
      rintro _ ⟨⟩
      exact (ne_of_begins hbegins).2
    obtain ⟨hrest, hchain, hargs⟩ : legal rest = .ok () ∧ EndsChain 1 false rest ∧
      EndsArguments false rest := ends_of_eof heof
    have hread := reads_of_derives hmain rest hrest hchain hargs
    rw [programAfter_main hdef, mainTerm_eq, hread, ok_bind, if_pos heof, hlegal, List.append_nil]
    rfl
  | @define keyword name colon equals next us vs ws a x q hkeyword hname hcolon htype hequals
      hbody hends hprogram ih =>
    obtain ⟨hchain, hargs⟩ : EndsChain 1 true (next :: (ws ++ rest)) ∧
      EndsArguments true (next :: (ws ++ rest)) := ends_of_endsBody hends
    have hnext : legal (next :: (ws ++ rest)) = .ok () := legal_append_of_derivesProgram hprogram
    have htypeRead := readsType_of_derivesType htype (equals :: (vs ++ next :: (ws ++ rest)))
      (legal_of_kind hequals nofun) (by rintro _ ⟨⟩; rw [hequals]; nofun)
    have hbodyRead := reads_of_derives hbody (next :: (ws ++ rest)) hnext hchain hargs
    simp only [List.cons_append, List.append_assoc]
    rw [programAfter_define hkeyword, legal_of_kind hname nofun, ok_bind, readDefinition_eq,
      readSymbol_of_kind hname (legal_of_kind hcolon nofun), ok_bind,
      readSymbol_of_kind hcolon (legal_of_derivesType htype), ok_bind, htypeRead, ok_bind,
      readSymbol_of_kind hequals (legal_of_derives hbody), ok_bind, hbodyRead]
    show programAfter (definitions ++ [⟨name.data, a, x⟩]) (next :: ws ++ rest) = _
    rw [ih, List.append_assoc]
    rfl

theorem programAfter_of_derivesProgram {p : Program} (h : DerivesProgram ts p)
    (definitions : List Definition) :
    programAfter definitions ts = .ok (⟨definitions ++ p.definitions, p.main⟩, []) := by
  have hread : programAfter definitions (ts ++ []) = _ :=
    programAfter_append_of_derivesProgram h rfl rfl definitions
  rwa [List.append_nil] at hread

end TypedLambda.Parser

namespace TypedLambda

open Grammar

theorem Program.ofTokens_eq_ok_iff_programAfter {file : String} {ts : List Token} {p : Program} :
    Program.ofTokens file none ts = .ok p ↔
      ∃ rest, (do Parser.legal ts; Parser.programAfter [] ts) = .ok (p, rest) := by
  unfold Program.ofTokens Program.parse Parsed.program
  constructor
  · intro h
    split at h
    · cases h
    · next q hq =>
      split at hq
      · next q' rest hread =>
        cases hq
        cases h
        exact ⟨rest, hread⟩
      · cases hq
  · rintro ⟨rest, hread⟩
    rw [hread]

/-- **The programs that are read from tokens are those that the grammar derives.** Tokens that hold
no end of input, from a reader without an error, give a program exactly if they derive it. -/
theorem Program.ofTokens_eq_ok_iff_derivesProgram {file : String} {ts : List Token} {p : Program}
    (hts : ∀ t ∈ ts, t.kind ≠ .eof) :
    Program.ofTokens file none ts = .ok p ↔ DerivesProgram ts p := by
  rw [Program.ofTokens_eq_ok_iff_programAfter]
  constructor
  · rintro ⟨rest, hread⟩
    obtain ⟨_, _, hprogram⟩ := Parser.bind_eq_ok hread
    obtain ⟨q, hq, rfl⟩ := Parser.derivesProgram_of_programAfter hts hprogram
    exact hq
  · intro h
    refine ⟨[], ?_⟩
    rw [Parser.legal_of_derivesProgram h, Parser.ok_bind, Parser.programAfter_of_derivesProgram h]
    rfl

/-- A token of one character at a line and a column. -/
def Token.standingAt (line column : Int) (kind : TokenKind) (data : String) : Token :=
  ⟨kind, ⟨⟨0, line, column⟩, ⟨0, line, column⟩⟩, data, []⟩

/-- The tokens of a definition of `n` and, from column 1 of the next line on, `n + 2 * n`. -/
def Token.defineThenUse : List Token :=
  [.standingAt 1 1 .defKeyword "", .standingAt 1 5 .ident "n", .standingAt 1 7 .colon "",
    .standingAt 1 9 .ident "Int", .standingAt 1 13 .equals "", .standingAt 1 15 .number "1",
    .standingAt 2 1 .ident "n", .standingAt 2 3 .plus "", .standingAt 2 5 .number "2",
    .standingAt 2 7 .times "", .standingAt 2 9 .ident "n"]

theorem Program.ofTokens_defineThenUse :
    let p : Program := ⟨[⟨"n", .int, .lit (.int 1)⟩],
      .bin .add (.var "n") (.bin .mul (.lit (.int 2)) (.var "n"))⟩
    (∀ t ∈ Token.defineThenUse, t.kind ≠ .eof) ∧
      DerivesProgram Token.defineThenUse p ∧
      Program.ofTokens "n" none Token.defineThenUse = .ok p := by
  intro p
  have hts : ∀ t ∈ Token.defineThenUse, t.kind ≠ .eof := by decide
  have hone : Derives (.term true) [.standingAt 1 15 .number "1"] (.lit (.int 1)) :=
    .chain (Parser.derives_of_le (by decide) (.operand (.single (.number rfl (by decide)))))
  have hmul : Derives (.binary false 6)
      ([.standingAt 2 5 .number "2"] ++ .standingAt 2 7 .times "" :: [.standingAt 2 9 .ident "n"])
      (.bin .mul (.lit (.int 2)) (.var "n")) :=
    .operator (.tighter (.operand (.single (.number rfl (by decide))))) .mul nofun
      (.operand (.single (.var rfl)))
  have hadd : Derives (.binary false 5)
      ([.standingAt 2 1 .ident "n"] ++ .standingAt 2 3 .plus "" ::
        [.standingAt 2 5 .number "2", .standingAt 2 7 .times "", .standingAt 2 9 .ident "n"])
      p.main :=
    .operator (Parser.derives_of_le (by decide) (.operand (.single (.var rfl)))) .add nofun hmul
  have hmain : Derives (.term false) (Token.defineThenUse.drop 6) p.main :=
    .chain (Parser.derives_of_le (by decide) hadd)
  have hp : DerivesProgram Token.defineThenUse p :=
    @DerivesProgram.define _ _ _ _ _ [_] [_] _ _ _ _ rfl rfl rfl (.single (.int rfl rfl)) rfl hone
      (.inl rfl) (.main hmain)
  exact ⟨hts, hp, (Program.ofTokens_eq_ok_iff_derivesProgram hts).mpr hp⟩

end TypedLambda
