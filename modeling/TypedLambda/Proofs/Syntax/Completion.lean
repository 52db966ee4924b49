import TypedLambda.Proofs.Syntax.Completeness

/-!
# Beginnings of phrases

`Grammar.Opens whole ts` says that usable tokens can be added to `ts` so that the property `whole`
holds, which is to be a type, a term or a program. The lemmas follow the rules of the grammar: each
says that a phrase is open as far as its last, unfinished part is. Besides keywords and marks, one
identifier fills in whatever is missing: it can be a name, a variable and a type. In column 1 it
also ends the body of a definition.
-/

namespace TypedLambda

/-- A token without a fault of its own: not illegal, an integer in range, and a text literal that
denotes a text. -/
structure Token.Valid (t : Token) : Prop where
  notIllegal : t.kind ≠ .illegal
  inRange : t.kind = .number → (Numeral.value? t.data).isSome
  denotes : t.kind = .string → (Text.literalBytes? t.data).isSome

/-- A token that can stand in a program: a valid one that is not the end of input. -/
structure Token.Usable (t : Token) : Prop extends t.Valid where
  notEof : t.kind ≠ .eof

theorem Token.usable_iff {t : Token} :
    t.Usable ↔ t.kind ≠ .illegal ∧ (t.kind = .number → (Numeral.value? t.data).isSome) ∧
      (t.kind = .string → (Text.literalBytes? t.data).isSome) ∧ t.kind ≠ .eof := by
  constructor
  · intro h
    exact ⟨h.notIllegal, h.inRange, h.denotes, h.notEof⟩
  · rintro ⟨hillegal, hrange, hdenotes, heof⟩
    exact ⟨⟨hillegal, hrange, hdenotes⟩, heof⟩

instance (t : Token) : Decidable t.Usable := decidable_of_iff' _ Token.usable_iff

/-- A keyword, a mark or an identifier to be filled in. -/
def Token.missing (kind : TokenKind) : Token := .standingAt 1 2 kind "Int"

/-- The identifier to be filled in after the body of a definition. -/
def Token.missingMain : Token := .standingAt 1 1 .ident "Int"

theorem Token.usable_missing {kind : TokenKind}
    (h : kind ≠ .eof ∧ kind ≠ .illegal ∧ kind ≠ .number ∧ kind ≠ .string) :
    (Token.missing kind).Usable := by
  obtain ⟨heof, hillegal, hnumber, hstring⟩ := h
  exact ⟨⟨hillegal, fun h => absurd h hnumber, fun h => absurd h hstring⟩, heof⟩

theorem Token.usable_missingMain : Token.missingMain.Usable := by decide

namespace Grammar

/-! ## Completion -/

def Usable (ts : List Token) : Prop := ∀ t ∈ ts, t.Usable

instance (ts : List Token) : Decidable (Usable ts) :=
  inferInstanceAs (Decidable (∀ t ∈ ts, t.Usable))

theorem usable_cons {t : Token} {ts : List Token} : Usable (t :: ts) ↔ t.Usable ∧ Usable ts :=
  List.forall_mem_cons

theorem usable_append {ts us : List Token} : Usable (ts ++ us) ↔ Usable ts ∧ Usable us :=
  List.forall_mem_append

theorem usable_singleton {t : Token} (h : t.Usable) : Usable [t] :=
  usable_cons.mpr ⟨h, List.forall_mem_nil _⟩

def Opens (whole : List Token → Prop) (ts : List Token) : Prop :=
  ∃ more, Usable more ∧ whole (ts ++ more)

namespace Opens

variable {whole whole' : List Token → Prop} {ts us : List Token}

theorem of_whole (h : whole ts) : Opens whole ts :=
  ⟨[], List.forall_mem_nil _, by rwa [List.append_nil]⟩

theorem of_singleton {t : Token} (ht : t.Usable) (h : whole [t]) : Opens whole [] :=
  ⟨[t], usable_singleton ht, h⟩

theorem of_append (h : Opens whole (ts ++ us)) (hus : Usable us) : Opens whole ts := by
  obtain ⟨more, hmore, hwhole⟩ := h
  exact ⟨us ++ more, usable_append.mpr ⟨hus, hmore⟩, by rwa [← List.append_assoc]⟩

theorem before {vs : List Token} (h : Opens whole vs) (kind : TokenKind)
    (hvs : vs = ts ++ [.missing kind])
    (hkind : kind ≠ .eof ∧ kind ≠ .illegal ∧ kind ≠ .number ∧ kind ≠ .string) :
    Opens whole ts := by
  subst hvs
  exact h.of_append (usable_singleton (Token.usable_missing hkind))

theorem mono (h : Opens whole ts) (hwhole : ∀ us, whole us → whole' us) : Opens whole' ts := by
  obtain ⟨more, hmore, hts⟩ := h
  exact ⟨more, hmore, hwhole _ hts⟩

/-- The beginning of a last part begins the whole, if the part does when it is complete. -/
theorem within (f : List Token → List Token) (h : Opens whole ts)
    (happend : ∀ us more, f (us ++ more) = f us ++ more)
    (hf : ∀ us, whole us → Opens whole' (f us)) : Opens whole' (f ts) := by
  obtain ⟨more, hmore, hwhole⟩ := h
  have hopens : Opens whole' (f ts ++ more) := happend ts more ▸ hf (ts ++ more) hwhole
  exact hopens.of_append hmore

end Opens

/-! ## Types -/

def IsType (ph : TypePhrase) (ts : List Token) : Prop := ∃ a, DerivesType ph ts a

section

variable {ts us : List Token} {t : Token} {a : Ty}

theorem opensType_nil (ph : TypePhrase) : Opens (IsType ph) [] := by
  have hatom : DerivesType .atom [.missing .ident] .int := .int rfl rfl
  have husable : (Token.missing .ident).Usable := Token.usable_missing (by decide)
  refine .of_singleton husable ⟨.int, ?_⟩
  cases ph with
  | atom => exact hatom
  | type => exact .single hatom

theorem opensType_single (h : Opens (IsType .atom) ts) : Opens (IsType .type) ts := by
  refine h.mono ?_
  rintro us ⟨a, ha⟩
  exact ⟨a, .single ha⟩

theorem opensType_paren (ht : t.kind = .leftParen) (h : Opens (IsType .type) ts) :
    Opens (IsType .atom) (t :: ts) := by
  refine h.within (fun part => t :: part) (by simp) ?_
  rintro us ⟨a, ha⟩
  have hclosed : IsType .atom (t :: (us ++ [.missing .rightParen])) := ⟨a, .paren ht ha rfl⟩
  exact (Opens.of_whole hclosed).before .rightParen (by simp) (by decide)

theorem opensType_arrow (ha : DerivesType .atom ts a) (ht : t.kind = .rightArrow)
    (h : Opens (IsType .type) us) : Opens (IsType .type) (ts ++ t :: us) := by
  refine h.within (fun part => ts ++ t :: part) (by simp) ?_
  rintro us ⟨r, hr⟩
  exact .of_whole ⟨.fn a r, .arrow ha ht hr⟩

end

/-! ## Terms -/

def IsPhrase (ph : Phrase) (ts : List Token) : Prop := ∃ x, Derives ph ts x

section

variable {ts us vs : List Token} {t : Token} {inBody : Bool}

theorem derives_ident (ht : t.kind = .ident) (inBody : Bool) :
    Derives (.term inBody) [t] (.var t.data) :=
  .chain (Parser.derives_of_le (by decide) (.operand (.single (.var ht))))

theorem opens_atom : Opens (IsPhrase .atom) [] := by
  have husable : (Token.missing .ident).Usable := Token.usable_missing (by decide)
  exact .of_singleton husable ⟨_, .var rfl⟩

theorem opens_term (inBody : Bool) : Opens (IsPhrase (.term inBody)) [] := by
  have husable : (Token.missing .ident).Usable := Token.usable_missing (by decide)
  exact .of_singleton husable ⟨_, derives_ident rfl inBody⟩

theorem opens_paren (ht : t.kind = .leftParen) (h : Opens (IsPhrase (.term false)) ts) :
    Opens (IsPhrase .atom) (t :: ts) := by
  refine h.within (fun part => t :: part) (by simp) ?_
  rintro us ⟨x, hx⟩
  have hclosed : IsPhrase .atom (t :: (us ++ [.missing .rightParen])) := ⟨x, .paren ht hx rfl⟩
  exact (Opens.of_whole hclosed).before .rightParen (by simp) (by decide)

theorem opens_single (h : Opens (IsPhrase .atom) ts) :
    Opens (IsPhrase (.application inBody)) ts := by
  refine h.mono ?_
  rintro us ⟨x, hx⟩
  exact ⟨x, .single hx⟩

theorem opens_app {func : Term} (hfunc : Derives (.application inBody) ts func)
    (ht : Continues inBody t) (h : Opens (IsPhrase .atom) (t :: us)) :
    Opens (IsPhrase (.application inBody)) (ts ++ t :: us) := by
  obtain ⟨more, hmore, x, hx⟩ := h
  have happ : IsPhrase (.application inBody) (ts ++ t :: us ++ more) := by
    rw [List.append_assoc]
    exact ⟨.app func x, .app hfunc ht hx⟩
  exact ⟨more, hmore, happ⟩

theorem opens_of_le {low high : Nat} (hle : low ≤ high)
    (h : Opens (IsPhrase (.binary inBody high)) ts) :
    Opens (IsPhrase (.binary inBody low)) ts := by
  refine h.mono ?_
  rintro us ⟨x, hx⟩
  exact ⟨x, Parser.derives_of_le hle hx⟩

theorem opens_operand {level : Nat} (hlevel : level ≤ 7)
    (h : Opens (IsPhrase (.application inBody)) ts) :
    Opens (IsPhrase (.binary inBody level)) ts := by
  refine h.mono ?_
  rintro us ⟨x, hx⟩
  exact ⟨x, Parser.derives_of_le hlevel (.operand hx)⟩

theorem opens_operator {level : Nat} {op : Operator} {left : Term}
    (hleft : Derives (.binary inBody level) ts left) (hbinds : Binds t.kind op level)
    (ht : Continues inBody t) (h : Opens (IsPhrase (.binary inBody (level + 1))) us) :
    Opens (IsPhrase (.binary inBody level)) (ts ++ t :: us) := by
  refine h.within (fun part => ts ++ t :: part) (by simp) ?_
  rintro us ⟨x, hx⟩
  exact .of_whole ⟨.bin op left x, .operator hleft hbinds ht hx⟩

theorem opens_chain (h : Opens (IsPhrase (.binary inBody 1)) ts) :
    Opens (IsPhrase (.term inBody)) ts := by
  refine h.mono ?_
  rintro us ⟨x, hx⟩
  exact ⟨x, .chain hx⟩

/-! ### Functions -/

section

variable {param colon arrow : Token} (ht : t.kind = .backslash)

include ht

theorem opens_lam_body {a : Ty} (hparam : param.kind = .ident) (hcolon : colon.kind = .colon)
    (htype : DerivesType .atom ts a) (harrow : arrow.kind = .rightArrow)
    (h : Opens (IsPhrase (.term inBody)) us) :
    Opens (IsPhrase (.term inBody)) (t :: param :: colon :: (ts ++ arrow :: us)) := by
  refine h.within (fun part => t :: param :: colon :: (ts ++ arrow :: part)) (by simp) ?_
  rintro us ⟨x, hx⟩
  exact .of_whole ⟨.lam param.data a x, .lam ht hparam hcolon htype harrow hx⟩

theorem opens_lam_type (hparam : param.kind = .ident) (hcolon : colon.kind = .colon)
    (h : Opens (IsType .atom) ts) :
    Opens (IsPhrase (.term inBody)) (t :: param :: colon :: ts) := by
  refine h.within (fun part => t :: param :: colon :: part) (by simp) ?_
  rintro us ⟨a, ha⟩
  have harrow : (Token.missing .rightArrow).kind = .rightArrow := rfl
  have hbody := opens_lam_body ht hparam hcolon ha harrow (opens_term inBody)
  exact hbody.before .rightArrow (by simp) (by decide)

theorem opens_lam_param (hparam : param.kind = .ident) :
    Opens (IsPhrase (.term inBody)) [t, param] := by
  have hcolon : (Token.missing .colon).kind = .colon := rfl
  exact (opens_lam_type ht hparam hcolon (opensType_nil .atom)).before .colon rfl (by decide)

theorem opens_lam : Opens (IsPhrase (.term inBody)) [t] := by
  have hparam : (Token.missing .ident).kind = .ident := rfl
  exact (opens_lam_param ht hparam).before .ident rfl (by decide)

end

/-! ### Local definitions -/

section

variable {name equals keywordIn : Token} (ht : t.kind = .letKeyword)

include ht

theorem opens_letIn_body {bound : Term} (hname : name.kind = .ident)
    (hequals : equals.kind = .equals) (hbound : Derives (.term inBody) ts bound)
    (hin : keywordIn.kind = .inKeyword) (h : Opens (IsPhrase (.term inBody)) us) :
    Opens (IsPhrase (.term inBody)) (t :: name :: equals :: (ts ++ keywordIn :: us)) := by
  refine h.within (fun part => t :: name :: equals :: (ts ++ keywordIn :: part)) (by simp) ?_
  rintro us ⟨x, hx⟩
  exact .of_whole ⟨.letIn name.data bound x, .letIn ht hname hequals hbound hin hx⟩

theorem opens_letIn_bound (hname : name.kind = .ident) (hequals : equals.kind = .equals)
    (h : Opens (IsPhrase (.term inBody)) ts) :
    Opens (IsPhrase (.term inBody)) (t :: name :: equals :: ts) := by
  refine h.within (fun part => t :: name :: equals :: part) (by simp) ?_
  rintro us ⟨x, hx⟩
  have hin : (Token.missing .inKeyword).kind = .inKeyword := rfl
  have hbody := opens_letIn_body ht hname hequals hx hin (opens_term inBody)
  exact hbody.before .inKeyword (by simp) (by decide)

theorem opens_letIn_name (hname : name.kind = .ident) :
    Opens (IsPhrase (.term inBody)) [t, name] := by
  have hequals : (Token.missing .equals).kind = .equals := rfl
  exact (opens_letIn_bound ht hname hequals (opens_term inBody)).before .equals rfl (by decide)

theorem opens_letIn : Opens (IsPhrase (.term inBody)) [t] := by
  have hname : (Token.missing .ident).kind = .ident := rfl
  exact (opens_letIn_name ht hname).before .ident rfl (by decide)

end

/-! ### Conditionals -/

section

variable {keywordThen keywordElse : Token} {cond yes : Term} (ht : t.kind = .ifKeyword)

include ht

theorem opens_ite_no (hcond : Derives (.term inBody) ts cond)
    (hthen : keywordThen.kind = .thenKeyword) (hyes : Derives (.term inBody) us yes)
    (helse : keywordElse.kind = .elseKeyword) (h : Opens (IsPhrase (.term inBody)) vs) :
    Opens (IsPhrase (.term inBody)) (t :: (ts ++ keywordThen :: (us ++ keywordElse :: vs))) := by
  refine h.within (fun part => t :: (ts ++ keywordThen :: (us ++ keywordElse :: part))) (by simp) ?_
  rintro vs ⟨x, hx⟩
  exact .of_whole ⟨.ite cond yes x, .ite ht hcond hthen hyes helse hx⟩

theorem opens_ite_yes (hcond : Derives (.term inBody) ts cond)
    (hthen : keywordThen.kind = .thenKeyword) (h : Opens (IsPhrase (.term inBody)) us) :
    Opens (IsPhrase (.term inBody)) (t :: (ts ++ keywordThen :: us)) := by
  refine h.within (fun part => t :: (ts ++ keywordThen :: part)) (by simp) ?_
  rintro us ⟨x, hx⟩
  have helse : (Token.missing .elseKeyword).kind = .elseKeyword := rfl
  have hno := opens_ite_no ht hcond hthen hx helse (opens_term inBody)
  exact hno.before .elseKeyword (by simp) (by decide)

theorem opens_ite_cond (h : Opens (IsPhrase (.term inBody)) ts) :
    Opens (IsPhrase (.term inBody)) (t :: ts) := by
  refine h.within (fun part => t :: part) (by simp) ?_
  rintro us ⟨x, hx⟩
  have hthen : (Token.missing .thenKeyword).kind = .thenKeyword := rfl
  have hyes := opens_ite_yes ht hx hthen (opens_term inBody)
  exact hyes.before .thenKeyword (by simp) (by decide)

end

end

/-! ## Programs -/

def IsProgram (ts : List Token) : Prop := ∃ p, DerivesProgram ts p

theorem opensProgram_main {ts : List Token} (h : Opens (IsPhrase (.term false)) ts) :
    Opens IsProgram ts := by
  refine h.mono ?_
  rintro us ⟨x, hx⟩
  exact ⟨⟨[], x⟩, .main hx⟩

section

variable {t name colon equals : Token} {ts us vs : List Token} {a : Ty} {x : Term}
  (ht : t.kind = .defKeyword)

include ht

/-- A body may be followed by an identifier in column 1, which is the main term then. -/
theorem opensProgram_body (hname : name.kind = .ident) (hcolon : colon.kind = .colon)
    (htype : DerivesType .type ts a) (hequals : equals.kind = .equals)
    (h : Opens (IsPhrase (.term true)) us) :
    Opens IsProgram (t :: name :: colon :: (ts ++ equals :: us)) := by
  refine h.within (fun part => t :: name :: colon :: (ts ++ equals :: part)) (by simp) ?_
  rintro us ⟨x, hx⟩
  have hmain : DerivesProgram [.missingMain] ⟨[], .var "Int"⟩ := .main (derives_ident rfl false)
  have hdefine : IsProgram (t :: name :: colon :: (ts ++ equals :: (us ++ [.missingMain]))) :=
    ⟨_, .define ht hname hcolon htype hequals hx (.inl rfl) hmain⟩
  have hsplit : t :: name :: colon :: (ts ++ equals :: (us ++ [.missingMain])) =
      t :: name :: colon :: (ts ++ equals :: us) ++ [.missingMain] := by simp
  rw [hsplit] at hdefine
  exact (Opens.of_whole hdefine).of_append (usable_singleton Token.usable_missingMain)

theorem opensProgram_define (hname : name.kind = .ident) (hcolon : colon.kind = .colon)
    (htype : DerivesType .type ts a) (hequals : equals.kind = .equals)
    (hbody : Derives (.term true) us x) (hends : ∀ next ∈ vs.head?, EndsBody next)
    (h : Opens IsProgram vs) :
    Opens IsProgram (t :: name :: colon :: (ts ++ equals :: (us ++ vs))) := by
  cases vs with
  | nil =>
    rw [List.append_nil]
    exact opensProgram_body ht hname hcolon htype hequals (.of_whole ⟨x, hbody⟩)
  | cons next ws =>
    obtain ⟨more, hmore, p, hp⟩ := h
    refine ⟨more, hmore, ⟨⟨name.data, a, x⟩ :: p.definitions, p.main⟩, ?_⟩
    have hdefine : DerivesProgram
        (t :: name :: colon :: (ts ++ equals :: (us ++ next :: (ws ++ more))))
        ⟨⟨name.data, a, x⟩ :: p.definitions, p.main⟩ :=
      .define ht hname hcolon htype hequals hbody (hends next rfl) hp
    simpa using hdefine

theorem opensProgram_type (hname : name.kind = .ident) (hcolon : colon.kind = .colon)
    (h : Opens (IsType .type) ts) : Opens IsProgram (t :: name :: colon :: ts) := by
  refine h.within (fun part => t :: name :: colon :: part) (by simp) ?_
  rintro us ⟨a, ha⟩
  have hequals : (Token.missing .equals).kind = .equals := rfl
  have hbody := opensProgram_body ht hname hcolon ha hequals (opens_term true)
  exact hbody.before .equals (by simp) (by decide)

theorem opensProgram_name (hname : name.kind = .ident) : Opens IsProgram [t, name] := by
  have hcolon : (Token.missing .colon).kind = .colon := rfl
  exact (opensProgram_type ht hname hcolon (opensType_nil .type)).before .colon rfl (by decide)

theorem opensProgram_keyword : Opens IsProgram [t] := by
  have hname : (Token.missing .ident).kind = .ident := rfl
  exact (opensProgram_name ht hname).before .ident rfl (by decide)

end

end Grammar

end TypedLambda
