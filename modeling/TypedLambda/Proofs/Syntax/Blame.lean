import TypedLambda.Proofs.Syntax.Soundness

/-!
# Whom a syntax error blames

Whatever the tokens, a syntax error stands at one of them, the end of input included, and that token
shows the fault: `Program.blames_of_parse`. A fault that no token shows is therefore never reported.

`Parser.Accounts` has a rule for each way in which the reading functions are put together. As in the
proof of soundness, each fact about a function takes the facts about fewer tokens as hypotheses.
-/

namespace TypedLambda

/-- The token is one for which the fault is reported. -/
def SyntaxFault.ShownBy (t : Token) : SyntaxFault → Prop
  | illegalToken message => t.kind = .illegal ∧ t.data = message
  | expectedToken kind _ found => t = found ∧ t.kind ≠ kind
  | unknownType name => t.kind = .ident ∧ t.data = name ∧ Ty.ofName? name = none
  | expectedType found => t = found ∧ t.kind ≠ .ident ∧ t.kind ≠ .leftParen
  | expectedTerm found => t = found ∧ t.kind.beginsArgument = false
  | invalidString data => t.kind = .string ∧ t.data = data ∧ Text.literalBytes? data = none
  | outOfRange data => t.kind = .number ∧ t.data = data ∧ Numeral.value? data = none

/-- The error stands at one of the tokens or at the end of input after them, and that token shows
the fault. -/
def SyntaxError.Blames (e : SyntaxError) (ts : List Token) : Prop :=
  ∃ t, (t ∈ ts ∨ t = Parser.current []) ∧ e.pos = t.pos ∧ e.fault.ShownBy t

namespace Parser

variable {α β : Type} {all ts : List Token} {m n : Nat}

/-- Either some of the tokens `all` are left, fewer than `n`, or an error blames one of them. -/
def Accounts (all : List Token) (n : Nat) : Except Rejection (α × List Token) → Prop
  | .ok (_, rest) => rest ⊆ all ∧ rest.length < n
  | .error r => r.error.Blames all

/-! ## Rules -/

theorem mem_or_eq_current (h : ts ⊆ all) : current ts ∈ all ∨ current ts = current [] := by
  cases ts with
  | nil => exact .inr rfl
  | cons t r => exact .inl (h List.mem_cons_self)

namespace Accounts

theorem reject {t : Token} {fault : SyntaxFault} (ht : t ∈ all ∨ t = current [])
    (h : fault.ShownBy t) : Accounts (α := α) all n (Parser.reject ts t.pos fault) :=
  ⟨t, ht, rfl, h⟩

theorem mono {x : Except Rejection (α × List Token)} (h : Accounts all m x) (hle : m ≤ n) :
    Accounts all n x := by
  cases x with
  | error r => exact h
  | ok p => exact ⟨h.1, Nat.lt_of_lt_of_le h.2 hle⟩

theorem bind {x : Except Rejection (α × List Token)}
    {f : α × List Token → Except Rejection (β × List Token)} (h : Accounts all m x)
    (hnext : ∀ a rest, rest ⊆ all → rest.length < m → Accounts all n (f (a, rest))) :
    Accounts all n (x >>= f) := by
  cases x with
  | error r => exact h
  | ok p => exact hnext p.1 p.2 h.1 h.2

theorem legal {f : Unit → Except Rejection (α × List Token)} (hts : ts ⊆ all)
    (h : Accounts all n (f ())) : Accounts all n (legal ts >>= f) := by
  by_cases hkind : (current ts).kind = .illegal
  · rw [Parser.legal, if_pos hkind]
    exact reject (mem_or_eq_current hts) ⟨hkind, rfl⟩
  · rw [Parser.legal, if_neg hkind]
    exact h

theorem symbol {kind : TokenKind} {place : Place}
    {f : Token × List Token → Except Rejection (α × List Token)} (hts : ts ⊆ all)
    (hkind : kind ≠ .eof)
    (hnext : ∀ t rest, rest ⊆ all → rest.length < ts.length → Accounts all n (f (t, rest))) :
    Accounts all n (readSymbol kind place ts >>= f) := by
  refine bind (m := ts.length) ?_ hnext
  cases ts with
  | nil => exact reject (t := current []) (.inr rfl) ⟨rfl, hkind.symm⟩
  | cons t r =>
    have hr : r ⊆ all := List.subset_of_cons_subset hts
    by_cases ht : t.kind = kind
    · rw [readSymbol_cons ht]
      exact legal hr ⟨hr, Nat.lt_succ_self _⟩
    · rw [readSymbol, Parser.symbol, if_neg ht]
      exact reject (.inl (hts List.mem_cons_self)) ⟨rfl, ht⟩

end Accounts

/-! ## Types -/

abbrev AccountsType (all ts : List Token) : Prop :=
  ts ⊆ all → Accounts all ts.length (readType ts)

theorem accounts_readAtomType
    (ih : ∀ us : List Token, us.length < ts.length → AccountsType all us) (hts : ts ⊆ all) :
    Accounts all ts.length (readAtomType ts) := by
  cases ts with
  | nil =>
    rw [readAtomType, atomType]
    exact .reject (t := current []) (.inr rfl) ⟨rfl, by decide, by decide⟩
  | cons t r =>
    have hr : r ⊆ all := List.subset_of_cons_subset hts
    have ht : t ∈ all ∨ t = current [] := .inl (hts List.mem_cons_self)
    by_cases hident : t.kind = .ident
    · rw [readAtomType_ident hident]
      cases hname : Ty.ofName? t.data with
      | none => exact .reject ht ⟨hident, rfl, hname⟩
      | some base => exact .legal hr ⟨hr, Nat.lt_succ_self _⟩
    · by_cases hparen : t.kind = .leftParen
      · rw [readAtomType_paren hparen]
        refine .legal hr (.bind (ih r (Nat.lt_succ_self _) hr) fun a r₁ hr₁ hlt₁ => ?_)
        refine .symbol hr₁ (by decide) fun right r₂ hr₂ hlt₂ => ⟨hr₂, ?_⟩
        exact Nat.lt_succ_of_lt (Nat.lt_trans hlt₂ hlt₁)
      · rw [readAtomType, atomType]
        split
        · next hkind => exact absurd hkind hident
        · next hkind => exact absurd hkind hparen
        · exact .reject ht ⟨rfl, hident, hparen⟩

theorem accounts_readType (ts : List Token) : AccountsType all ts := by
  induction hl : ts.length using Nat.strongRecOn generalizing ts with
  | ind l ih =>
    subst hl
    intro hts
    rw [readType_eq]
    refine .bind (accounts_readAtomType (fun us hus => ih us.length hus us rfl) hts) ?_
    intro a r₁ hr₁ hlt₁
    cases r₁ with
    | nil => exact ⟨hr₁, hlt₁⟩
    | cons t r₂ =>
      have hr₂ : r₂ ⊆ all := List.subset_of_cons_subset hr₁
      by_cases harrow : t.kind = .rightArrow
      · simp only [if_pos harrow]
        have hlt₂ : r₂.length < ts.length := Nat.lt_of_succ_lt hlt₁
        refine .legal hr₂ (.bind (ih r₂.length hlt₂ r₂ rfl hr₂) fun b r₃ hr₃ hlt₃ => ?_)
        exact ⟨hr₃, Nat.lt_trans hlt₃ hlt₂⟩
      · simp only [if_neg harrow]
        exact ⟨hr₁, hlt₁⟩

/-! ## Terms -/

section

variable {inBody : Bool} {least : Nat}

abbrev AccountsTerm (all ts : List Token) : Prop :=
  ∀ inBody, ts ⊆ all → Accounts all ts.length (readTerm inBody ts)

abbrev AccountsAtom (all ts : List Token) : Prop :=
  ts ⊆ all → Accounts all ts.length (readAtom ts)

theorem accounts_readAtom (ih : ∀ us : List Token, us.length < ts.length → AccountsTerm all us) :
    AccountsAtom all ts := by
  intro hts
  cases ts with
  | nil =>
    rw [readAtom, atom]
    exact .reject (t := current []) (.inr rfl) ⟨rfl, by decide⟩
  | cons t r =>
    have hr : r ⊆ all := List.subset_of_cons_subset hts
    have ht : t ∈ all ∨ t = current [] := .inl (hts List.mem_cons_self)
    cases hkind : t.kind with
    | number =>
      rw [readAtom_number hkind]
      refine .legal hr ?_
      cases hvalue : Numeral.value? t.data with
      | none => exact .reject ht ⟨hkind, rfl, hvalue⟩
      | some n => exact ⟨hr, Nat.lt_succ_self _⟩
    | string =>
      rw [readAtom_string hkind]
      cases hbytes : Text.literalBytes? t.data with
      | none => exact .reject ht ⟨hkind, rfl, hbytes⟩
      | some bytes => exact .legal hr ⟨hr, Nat.lt_succ_self _⟩
    | trueKeyword =>
      rw [readAtom_true hkind]
      exact .legal hr ⟨hr, Nat.lt_succ_self _⟩
    | falseKeyword =>
      rw [readAtom_false hkind]
      exact .legal hr ⟨hr, Nat.lt_succ_self _⟩
    | ident =>
      rw [readAtom_var hkind]
      exact .legal hr ⟨hr, Nat.lt_succ_self _⟩
    | leftParen =>
      rw [readAtom_paren hkind]
      refine .legal hr (.bind (ih r (Nat.lt_succ_self _) false hr) fun x r₁ hr₁ hlt₁ => ?_)
      refine .symbol hr₁ (by decide) fun right r₂ hr₂ hlt₂ => ⟨hr₂, ?_⟩
      exact Nat.lt_succ_of_lt (Nat.lt_trans hlt₂ hlt₁)
    | _ =>
      have hbegins : t.kind.beginsArgument = false := by rw [hkind]; rfl
      rw [readAtom_eq_reject hbegins]
      exact .reject ht ⟨rfl, hbegins⟩

theorem accounts_readArguments {func : Term}
    (hatom : ∀ us : List Token, us.length ≤ ts.length → AccountsAtom all us) (hts : ts ⊆ all) :
    Accounts all (ts.length + 1) (readArguments inBody func ts) := by
  induction hl : ts.length using Nat.strongRecOn generalizing ts func with
  | ind l ih =>
    subst hl
    by_cases hends : EndsArguments inBody ts
    · rw [hends.readArguments_eq]
      exact ⟨hts, Nat.lt_succ_self _⟩
    · obtain ⟨t, r₁, rfl, hbegins, hbody⟩ := exists_of_not_endsArguments hends
      rw [readArguments_argument hbegins hbody]
      refine .bind (hatom _ (Nat.le_refl _) hts) fun arg r₂ hr₂ hlt₂ => ?_
      refine (ih r₂.length hlt₂ (fun us hus => hatom us ?_) hr₂ rfl).mono (Nat.le_succ_of_le hlt₂)
      exact Nat.le_trans hus (Nat.le_of_lt hlt₂)

theorem accounts_readApplication
    (hatom : ∀ us : List Token, us.length ≤ ts.length → AccountsAtom all us) (hts : ts ⊆ all) :
    Accounts all ts.length (readApplication inBody ts) := by
  rw [readApplication_eq]
  refine .bind (hatom ts (Nat.le_refl _) hts) fun func r₁ hr₁ hlt₁ => ?_
  refine (accounts_readArguments (fun us hus => hatom us ?_) hr₁).mono hlt₁
  exact Nat.le_trans hus (Nat.le_of_lt hlt₁)

abbrev AccountsBinary (all ts : List Token) : Prop :=
  ∀ least inBody, 0 < least → ts ⊆ all → Accounts all ts.length (readBinary least inBody ts)

theorem accounts_readChain {left : Term} (hpos : 0 < least)
    (hbinary : ∀ us : List Token, us.length < ts.length → AccountsBinary all us)
    (hts : ts ⊆ all) : Accounts all (ts.length + 1) (readChain least inBody left ts) := by
  induction hl : ts.length using Nat.strongRecOn generalizing ts left with
  | ind l ih =>
    subst hl
    by_cases hends : EndsChain least inBody ts
    · rw [hends.readChain_eq]
      exact ⟨hts, Nat.lt_succ_self _⟩
    · obtain ⟨t, r₁, rfl, hleast, hbody⟩ := exists_of_not_endsChain hends
      obtain ⟨op, hop⟩ := exists_operator (Nat.lt_of_lt_of_le hpos hleast)
      have hr₁ : r₁ ⊆ all := List.subset_of_cons_subset hts
      rw [readChain_operator hop hleast hbody]
      refine .legal hr₁ (.bind (hbinary r₁ (Nat.lt_succ_self _) _ _ (Nat.succ_pos _) hr₁) ?_)
      intro right r₂ hr₂ hlt₂
      have hlt : r₂.length < (t :: r₁).length := Nat.lt_succ_of_lt hlt₂
      refine (ih r₂.length hlt (fun us hus => hbinary us ?_) hr₂ rfl).mono (Nat.le_succ_of_le hlt)
      exact Nat.lt_trans hus hlt

theorem accounts_readBinary
    (hatom : ∀ us : List Token, us.length ≤ ts.length → AccountsAtom all us) :
    AccountsBinary all ts := by
  induction hl : ts.length using Nat.strongRecOn generalizing ts with
  | ind l ih =>
    subst hl
    intro least inBody hpos hts
    rw [readBinary_eq]
    refine .bind (accounts_readApplication hatom hts) fun left r₁ hr₁ hlt₁ => ?_
    refine (accounts_readChain hpos (fun us hus => ?_) hr₁).mono hlt₁
    have hlt : us.length < ts.length := Nat.lt_trans hus hlt₁
    exact ih us.length hlt (fun vs hvs => hatom vs (Nat.le_trans hvs (Nat.le_of_lt hlt))) rfl

section

variable {t : Token} {r₀ : List Token}
  (ih : ∀ us : List Token, us.length < (t :: r₀).length → AccountsTerm all us)
  (hts : t :: r₀ ⊆ all)

include ih hts

theorem accounts_readTerm_lam (ht : t.kind = .backslash) :
    Accounts all (t :: r₀).length (readTerm inBody (t :: r₀)) := by
  have hr₀ : r₀ ⊆ all := List.subset_of_cons_subset hts
  rw [readTerm_lam ht]
  refine .legal hr₀ (.symbol hr₀ (by decide) fun param r₁ hr₁ hlt₁ => ?_)
  refine .symbol hr₁ (by decide) fun colon r₂ hr₂ hlt₂ => ?_
  refine .bind (accounts_readAtomType (fun us _ => accounts_readType us) hr₂) ?_
  intro a r₃ hr₃ hlt₃
  refine .symbol hr₃ (by decide) fun arrow r₄ hr₄ hlt₄ => ?_
  simp only at hlt₂ hlt₃ hlt₄
  have hlt : r₄.length < (t :: r₀).length := by
    rw [List.length_cons]
    omega
  refine .bind (ih r₄ hlt inBody hr₄) fun body r₅ hr₅ hlt₅ => ?_
  exact ⟨hr₅, Nat.lt_trans hlt₅ hlt⟩

theorem accounts_readTerm_letIn (ht : t.kind = .letKeyword) :
    Accounts all (t :: r₀).length (readTerm inBody (t :: r₀)) := by
  have hr₀ : r₀ ⊆ all := List.subset_of_cons_subset hts
  rw [readTerm_letIn ht]
  refine .legal hr₀ (.symbol hr₀ (by decide) fun name r₁ hr₁ hlt₁ => ?_)
  refine .symbol hr₁ (by decide) fun equals r₂ hr₂ hlt₂ => ?_
  simp only at hlt₂
  have hltBound : r₂.length < (t :: r₀).length := by
    rw [List.length_cons]
    omega
  refine .bind (ih r₂ hltBound inBody hr₂) fun bound r₃ hr₃ hlt₃ => ?_
  refine .symbol hr₃ (by decide) fun keyword r₄ hr₄ hlt₄ => ?_
  have hltBody : r₄.length < (t :: r₀).length :=
    Nat.lt_trans hlt₄ (Nat.lt_trans hlt₃ hltBound)
  refine .bind (ih r₄ hltBody inBody hr₄) fun body r₅ hr₅ hlt₅ => ?_
  exact ⟨hr₅, Nat.lt_trans hlt₅ hltBody⟩

theorem accounts_readTerm_ite (ht : t.kind = .ifKeyword) :
    Accounts all (t :: r₀).length (readTerm inBody (t :: r₀)) := by
  have hr₀ : r₀ ⊆ all := List.subset_of_cons_subset hts
  rw [readTerm_ite ht]
  refine .legal hr₀ (.bind (ih r₀ (Nat.lt_succ_self _) inBody hr₀) fun cond r₁ hr₁ hlt₁ => ?_)
  refine .symbol hr₁ (by decide) fun keywordThen r₂ hr₂ hlt₂ => ?_
  have hltYes : r₂.length < (t :: r₀).length := Nat.lt_succ_of_lt (Nat.lt_trans hlt₂ hlt₁)
  refine .bind (ih r₂ hltYes inBody hr₂) fun yes r₃ hr₃ hlt₃ => ?_
  refine .symbol hr₃ (by decide) fun keywordElse r₄ hr₄ hlt₄ => ?_
  have hltNo : r₄.length < (t :: r₀).length := Nat.lt_trans hlt₄ (Nat.lt_trans hlt₃ hltYes)
  refine .bind (ih r₄ hltNo inBody hr₄) fun no r₅ hr₅ hlt₅ => ?_
  exact ⟨hr₅, Nat.lt_trans hlt₅ hltNo⟩

end

theorem accounts_readTerm (ts : List Token) : AccountsTerm all ts := by
  induction hl : ts.length using Nat.strongRecOn generalizing ts with
  | ind l ih =>
    subst hl
    replace ih : ∀ us : List Token, us.length < ts.length → AccountsTerm all us :=
      fun us hus => ih us.length hus us rfl
    intro inBody hts
    cases ts with
    | nil =>
      rw [readTerm, term]
      exact .reject (t := current []) (.inr rfl) ⟨rfl, by decide⟩
    | cons t r₀ =>
      by_cases hlam : t.kind = .backslash
      · exact accounts_readTerm_lam ih hts hlam
      by_cases hlet : t.kind = .letKeyword
      · exact accounts_readTerm_letIn ih hts hlet
      by_cases hif : t.kind = .ifKeyword
      · exact accounts_readTerm_ite ih hts hif
      have hatom : ∀ us : List Token, us.length ≤ (t :: r₀).length → AccountsAtom all us :=
        fun us hus => accounts_readAtom fun vs hvs => ih vs (Nat.lt_of_lt_of_le hvs hus)
      rw [readTerm_binary hlam hlet hif]
      exact accounts_readBinary hatom 1 inBody (by decide) hts

end

/-! ## Programs -/

theorem accounts_mainTerm (hts : ts ⊆ all) : Accounts all ts.length (mainTerm ts) := by
  rw [mainTerm_eq]
  refine .bind (accounts_readTerm ts false hts) fun x rest hrest hlt => ?_
  by_cases heof : (current rest).kind = .eof
  · simp only [if_pos heof]
    exact .legal (fun t ht => hrest (List.mem_of_mem_tail ht)) ⟨hrest, hlt⟩
  · simp only [if_neg heof]
    exact .reject (mem_or_eq_current hrest) ⟨rfl, heof⟩

theorem accounts_readDefinition (hts : ts ⊆ all) : Accounts all ts.length (readDefinition ts) := by
  rw [readDefinition_eq]
  refine .symbol hts (by decide) fun name r₁ hr₁ hlt₁ => ?_
  refine .symbol hr₁ (by decide) fun colon r₂ hr₂ hlt₂ => ?_
  refine .bind (accounts_readType r₂ hr₂) fun a r₃ hr₃ hlt₃ => ?_
  refine .symbol hr₃ (by decide) fun equals r₄ hr₄ hlt₄ => ?_
  refine .bind (accounts_readTerm r₄ true hr₄) fun body r₅ hr₅ hlt₅ => ⟨hr₅, ?_⟩
  simp only at hlt₂ hlt₄ ⊢
  omega

theorem accounts_programAfter (definitions : List Definition) (hts : ts ⊆ all) :
    Accounts all ts.length (programAfter definitions ts) := by
  induction hl : ts.length using Nat.strongRecOn generalizing ts definitions with
  | ind l ih =>
    subst hl
    by_cases hdef : ∀ t ∈ ts.head?, t.kind ≠ .defKeyword
    · rw [programAfter_main hdef]
      exact .bind (accounts_mainTerm hts) fun main rest hrest hlt => ⟨hrest, hlt⟩
    · cases ts with
      | nil => exact absurd (fun _ ht => by cases ht) hdef
      | cons t r₀ =>
        have hr₀ : r₀ ⊆ all := List.subset_of_cons_subset hts
        rw [programAfter_define (by simpa using hdef)]
        refine .legal hr₀ (.bind (accounts_readDefinition hr₀) fun d r₁ hr₁ hlt₁ => ?_)
        have hlt : r₁.length < (t :: r₀).length := Nat.lt_succ_of_lt hlt₁
        exact (ih r₁.length hlt _ hr₁ rfl).mono (Nat.le_of_lt hlt)

end Parser

/-- **A syntax error blames a token that shows its fault.** -/
theorem Program.blames_of_parse {ts : List Token} {e : SyntaxError}
    (h : (Program.parse ts).result = .error e) : e.Blames ts := by
  have haccounts : Parser.Accounts ts ts.length
      (Parser.legal ts >>= fun _ => Parser.programAfter [] ts) :=
    .legal (List.Subset.refl ts) (Parser.accounts_programAfter [] (List.Subset.refl ts))
  unfold Program.parse at h
  split at h
  · cases h
  · next rejection hrejection =>
    rw [hrejection] at haccounts
    obtain rfl := Except.error.inj h
    exact haccounts

end TypedLambda
