import TypedLambda.Proofs.Syntax.Grammar
import TypedLambda.Proofs.Syntax.Reading

/-!
# What is read is derived

Each reading function takes off the front of the tokens a phrase that the grammar derives, and stops
only where nothing goes on with it. The functions call one another on fewer tokens, so each fact
below takes the facts about fewer tokens as hypotheses, and an induction on the number of tokens
puts them together.

* `Parser.derivesType_of_readType`: types;
* `Parser.derives_of_readTerm`: terms;
* `Parser.derivesProgram_of_programAfter`: programs.
-/

namespace TypedLambda.Parser

open Grammar

variable {t : Token} {ts : List Token} {inBody : Bool}

/-! ## Types -/

def TypeSound (ts : List Token) : Prop :=
  ∀ {a : Ty} {rest : List Token}, readType ts = .ok (a, rest) →
    ∃ front, ts = front ++ rest ∧ DerivesType .type front a

theorem derivesType_of_name {a : Ty} (hkind : t.kind = .ident) (h : Ty.ofName? t.data = some a) :
    DerivesType .atom [t] a := by
  unfold Ty.ofName? at h
  by_cases hint : t.data = "Int"
  · rw [if_pos hint] at h
    cases h
    exact .int hkind hint
  · rw [if_neg hint] at h
    by_cases hbool : t.data = "Bool"
    · rw [if_pos hbool] at h
      cases h
      exact .bool hkind hbool
    · rw [if_neg hbool] at h
      by_cases htext : t.data = "Text"
      · rw [if_pos htext] at h
        cases h
        exact .text hkind htext
      · rw [if_neg htext] at h
        cases h

theorem derivesType_of_readAtomType {a : Ty} {rest : List Token}
    (ih : ∀ us : List Token, us.length < ts.length → TypeSound us)
    (h : readAtomType ts = .ok (a, rest)) :
    ∃ front, ts = front ++ rest ∧ DerivesType .atom front a := by
  cases ts with
  | nil =>
    rw [readAtomType, atomType] at h
    cases h
  | cons t r₁ =>
    by_cases hident : t.kind = .ident
    · rw [readAtomType_ident hident] at h
      cases hname : Ty.ofName? t.data with
      | none =>
        rw [hname] at h
        cases h
      | some base =>
        rw [hname] at h
        obtain ⟨_, _, h₁⟩ := bind_eq_ok h
        cases h₁
        exact ⟨[t], rfl, derivesType_of_name hident hname⟩
    · by_cases hparen : t.kind = .leftParen
      · rw [readAtomType_paren hparen] at h
        obtain ⟨_, _, h₁⟩ := bind_eq_ok h
        obtain ⟨⟨b, r₂⟩, hinner, h₂⟩ := bind_eq_ok h₁
        obtain ⟨⟨right, r₃⟩, hright, h₃⟩ := bind_eq_ok h₂
        cases h₃
        obtain ⟨front, rfl, hfront⟩ := ih r₁ (Nat.lt_succ_self _) hinner
        obtain ⟨rfl, hkind⟩ := readSymbol_eq_ok hright
        exact ⟨t :: (front ++ [right]), by simp, .paren hparen hfront hkind⟩
      · rw [readAtomType, atomType] at h
        split at h
        · next hkind => exact absurd hkind hident
        · next hkind => exact absurd hkind hparen
        · cases h

theorem derivesType_of_readType (ts : List Token) : TypeSound ts := by
  induction hl : ts.length using Nat.strongRecOn generalizing ts with
  | ind l ih =>
    subst hl
    intro a rest h
    rw [readType_eq] at h
    obtain ⟨⟨b, r₁⟩, hb, h₁⟩ := bind_eq_ok h
    obtain ⟨front, rfl, hfront⟩ := derivesType_of_readAtomType (fun us hus => ih _ hus us rfl) hb
    cases r₁ with
    | nil =>
      cases h₁
      exact ⟨front, rfl, .single hfront⟩
    | cons t r₂ =>
      simp only at h₁
      by_cases harrow : t.kind = .rightArrow
      · rw [if_pos harrow] at h₁
        obtain ⟨_, _, h₂⟩ := bind_eq_ok h₁
        obtain ⟨⟨c, r₃⟩, hc, h₃⟩ := bind_eq_ok h₂
        cases h₃
        have hlt : r₂.length < (front ++ t :: r₂).length := by
          rw [List.length_append, List.length_cons]
          omega
        obtain ⟨back, rfl, hback⟩ := ih r₂.length hlt r₂ rfl hc
        exact ⟨front ++ t :: back, by simp, .arrow hfront harrow hback⟩
      · rw [if_neg harrow] at h₁
        cases h₁
        exact ⟨front, rfl, .single hfront⟩

/-! ## Atoms and applications -/

def AtomSound (ts : List Token) : Prop :=
  ∀ {x : Term} {rest : List Token}, readAtom ts = .ok (x, rest) →
    ∃ front, ts = front ++ rest ∧ Derives .atom front x

/-- What is read as a term is derived as one, and nothing goes on with it. -/
def TermSound (ts : List Token) : Prop :=
  ∀ {inBody : Bool} {x : Term} {rest : List Token}, readTerm inBody ts = .ok (x, rest) →
    ∃ front, ts = front ++ rest ∧ Derives (.term inBody) front x ∧
      EndsChain 1 inBody rest ∧ EndsArguments inBody rest

theorem derives_of_readAtom (ih : ∀ us : List Token, us.length < ts.length → TermSound us) :
    AtomSound ts := by
  intro x rest h
  cases ts with
  | nil =>
    rw [readAtom, atom] at h
    cases h
  | cons t r₁ =>
    cases hkind : t.kind with
    | number =>
      rw [readAtom_number hkind] at h
      obtain ⟨_, _, h₁⟩ := bind_eq_ok h
      cases hvalue : Numeral.value? t.data with
      | none =>
        rw [hvalue] at h₁
        cases h₁
      | some n =>
        rw [hvalue] at h₁
        cases h₁
        exact ⟨[t], rfl, .number hkind hvalue⟩
    | string =>
      rw [readAtom_string hkind] at h
      cases hbytes : Text.literalBytes? t.data with
      | none =>
        rw [hbytes] at h
        cases h
      | some bytes =>
        rw [hbytes] at h
        obtain ⟨_, _, h₁⟩ := bind_eq_ok h
        cases h₁
        exact ⟨[t], rfl, .string hkind hbytes⟩
    | trueKeyword =>
      rw [readAtom_true hkind] at h
      obtain ⟨_, _, h₁⟩ := bind_eq_ok h
      cases h₁
      exact ⟨[t], rfl, .true hkind⟩
    | falseKeyword =>
      rw [readAtom_false hkind] at h
      obtain ⟨_, _, h₁⟩ := bind_eq_ok h
      cases h₁
      exact ⟨[t], rfl, .false hkind⟩
    | ident =>
      rw [readAtom_var hkind] at h
      obtain ⟨_, _, h₁⟩ := bind_eq_ok h
      cases h₁
      exact ⟨[t], rfl, .var hkind⟩
    | leftParen =>
      rw [readAtom_paren hkind] at h
      obtain ⟨_, _, h₁⟩ := bind_eq_ok h
      obtain ⟨⟨inner, r₂⟩, hinner, h₂⟩ := bind_eq_ok h₁
      obtain ⟨⟨right, r₃⟩, hright, h₃⟩ := bind_eq_ok h₂
      cases h₃
      obtain ⟨front, rfl, hfront, _⟩ := ih r₁ (Nat.lt_succ_self _) hinner
      obtain ⟨rfl, hrightKind⟩ := readSymbol_eq_ok hright
      exact ⟨t :: (front ++ [right]), by simp, .paren hkind hfront hrightKind⟩
    | _ =>
      rw [readAtom_eq_reject (by rw [hkind]; rfl)] at h
      cases h

theorem continues_iff {inBody : Bool} {t : Token} :
    Continues inBody t ↔ endsBody inBody t = false := by
  cases inBody <;> simp [Continues, endsBody]

/-- Reading arguments goes on with the application that is there, until no argument follows. -/
theorem derives_of_readArguments {l : List Token} {func x : Term} {rest : List Token}
    (hatom : ∀ us : List Token, us.length ≤ ts.length → AtomSound us)
    (hfunc : Derives (.application inBody) l func)
    (h : readArguments inBody func ts = .ok (x, rest)) :
    ∃ front, ts = front ++ rest ∧ Derives (.application inBody) (l ++ front) x ∧
      EndsArguments inBody rest := by
  induction hl : ts.length using Nat.strongRecOn generalizing ts l func with
  | ind k ih =>
    subst hl
    by_cases hends : EndsArguments inBody ts
    · rw [hends.readArguments_eq] at h
      cases h
      exact ⟨[], rfl, by rwa [List.append_nil], hends⟩
    · obtain ⟨t, r₁, rfl, hbegins, hbody⟩ := exists_of_not_endsArguments hends
      rw [readArguments_argument hbegins hbody] at h
      obtain ⟨⟨arg, r₂⟩, harg, h₁⟩ := bind_eq_ok h
      have hlt : r₂.length < (t :: r₁).length := length_lt_of_forget harg
      obtain ⟨front, hfront, hargument⟩ := hatom _ (Nat.le_refl _) harg
      obtain ⟨first, us, rfl, _⟩ := hargument.begins
      obtain ⟨rfl, rfl⟩ := List.cons.inj hfront
      have happ := Derives.app hfunc (continues_iff.mpr hbody) hargument
      obtain ⟨back, rfl, hback, hend⟩ := ih r₂.length hlt
        (fun us hus => hatom us (Nat.le_trans hus (Nat.le_of_lt hlt))) happ h₁ rfl
      refine ⟨t :: us ++ back, by simp, ?_, hend⟩
      rwa [← List.append_assoc]

theorem derives_of_readApplication {x : Term} {rest : List Token}
    (hatom : ∀ us : List Token, us.length ≤ ts.length → AtomSound us)
    (h : readApplication inBody ts = .ok (x, rest)) :
    ∃ front, ts = front ++ rest ∧ Derives (.application inBody) front x ∧
      EndsArguments inBody rest := by
  rw [readApplication_eq] at h
  obtain ⟨⟨func, r₁⟩, hfunc, h₁⟩ := bind_eq_ok h
  have hlt : r₁.length < ts.length := length_lt_of_forget hfunc
  obtain ⟨front, rfl, hfront⟩ := hatom ts (Nat.le_refl _) hfunc
  obtain ⟨back, rfl, hback, hend⟩ := derives_of_readArguments
    (fun us hus => hatom us (Nat.le_trans hus (Nat.le_of_lt hlt))) (.single hfront) h₁
  exact ⟨front ++ back, by simp, hback, hend⟩

/-! ## Chains of operators -/

/-- What is read as a chain from level `least` on is derived at that level, and nothing goes on with
it. -/
def BinarySound (ts : List Token) : Prop :=
  ∀ {least : Nat} {inBody : Bool} {x : Term} {rest : List Token}, 0 < least → least ≤ 7 →
    readBinary least inBody ts = .ok (x, rest) →
    ∃ front, ts = front ++ rest ∧ Derives (.binary inBody least) front x ∧
      EndsChain least inBody rest ∧ EndsArguments inBody rest

theorem derives_of_le {low high : Nat} {x : Term} (hle : low ≤ high)
    (h : Derives (.binary inBody high) ts x) : Derives (.binary inBody low) ts x := by
  induction hle with
  | refl => exact h
  | step _ ih => exact ih (.tighter h)

theorem precedence_le (kind : TokenKind) : kind.precedence ≤ 6 := by
  cases kind <;> simp [TokenKind.precedence]

theorem exists_operator {kind : TokenKind} (h : 0 < kind.precedence) :
    ∃ op, kind.operator? = some op := by
  cases kind <;> first | exact ⟨_, rfl⟩ | exact absurd h (Nat.lt_irrefl 0)

/-- Reading a chain goes on with the left operand that is there. The operand was read at some level
`level`, so the next operator binds no stronger than that; it is the operand of that operator after
the steps down to the level of the operator. -/
theorem derives_of_readChain {least level : Nat} {l : List Token} {left x : Term}
    {rest : List Token} (hbinary : ∀ us : List Token, us.length < ts.length → BinarySound us)
    (hpos : 0 < least) (hle : least ≤ level) (hleft : Derives (.binary inBody level) l left)
    (hchain : EndsChain (level + 1) inBody ts) (hargs : EndsArguments inBody ts)
    (h : readChain least inBody left ts = .ok (x, rest)) :
    ∃ front, ts = front ++ rest ∧ Derives (.binary inBody least) (l ++ front) x ∧
      EndsChain least inBody rest ∧ EndsArguments inBody rest := by
  induction hl : ts.length using Nat.strongRecOn generalizing ts l left level with
  | ind k ih =>
    subst hl
    by_cases hends : EndsChain least inBody ts
    · rw [hends.readChain_eq] at h
      cases h
      refine ⟨[], rfl, ?_, hends, hargs⟩
      rw [List.append_nil]
      exact derives_of_le hle hleft
    · obtain ⟨t, r₁, rfl, hleast, hbody⟩ := exists_of_not_endsChain hends
      have hlevel : t.kind.precedence ≤ level := by
        rcases hchain t rfl with hlt | hends
        · exact Nat.le_of_lt_succ hlt
        · rw [hbody] at hends
          cases hends
      obtain ⟨op, hop⟩ := exists_operator (Nat.lt_of_lt_of_le hpos hleast)
      rw [readChain_operator hop hleast hbody] at h
      obtain ⟨_, _, h₁⟩ := bind_eq_ok h
      obtain ⟨⟨right, r₂⟩, hright, h₂⟩ := bind_eq_ok h₁
      have hlt : r₂.length < r₁.length := length_lt_of_forget hright
      obtain ⟨front, rfl, hfront, hchain₂, hargs₂⟩ := hbinary r₁ (Nat.lt_succ_self _)
        (Nat.succ_pos _) (Nat.succ_le_succ (precedence_le t.kind)) hright
      have hbin := Derives.operator (derives_of_le hlevel hleft) (binds_iff.mpr ⟨hop, rfl⟩)
        (continues_iff.mpr hbody) hfront
      obtain ⟨back, rfl, hback, hend⟩ := ih r₂.length (Nat.lt_succ_of_lt hlt)
        (fun us hus => hbinary us (Nat.lt_trans hus (Nat.lt_succ_of_lt hlt)))
        hleast hbin hchain₂ hargs₂ h₂ rfl
      refine ⟨t :: front ++ back, by simp, ?_, hend⟩
      rwa [← List.append_assoc]

theorem derives_of_readBinary (hatom : ∀ us : List Token, us.length ≤ ts.length → AtomSound us) :
    BinarySound ts := by
  induction hl : ts.length using Nat.strongRecOn generalizing ts with
  | ind k ih =>
    subst hl
    intro least inBody x rest hpos hle h
    rw [readBinary_eq] at h
    obtain ⟨⟨left, r₁⟩, hleft, h₁⟩ := bind_eq_ok h
    have hlt : r₁.length < ts.length := length_lt_of_forget hleft
    obtain ⟨front, rfl, hfront, hargs⟩ := derives_of_readApplication hatom hleft
    have hbinary : ∀ us : List Token, us.length < r₁.length → BinarySound us := by
      intro us hus
      refine ih us.length (Nat.lt_trans hus hlt) (fun vs hvs => hatom vs ?_) rfl
      exact Nat.le_trans hvs (Nat.le_of_lt (Nat.lt_trans hus hlt))
    have hchain : EndsChain (7 + 1) inBody r₁ := fun t _ =>
      .inl (Nat.lt_of_le_of_lt (precedence_le t.kind) (by decide))
    obtain ⟨back, rfl, hback, hend⟩ :=
      derives_of_readChain hbinary hpos hle (.operand hfront) hchain hargs h₁
    exact ⟨front ++ back, by simp, hback, hend⟩

/-! ## Terms -/

section

variable {r₀ rest : List Token} {x : Term}

theorem derives_of_readTerm_lam
    (ih : ∀ us : List Token, us.length < (t :: r₀).length → TermSound us)
    (hkind : t.kind = .backslash) (h : readTerm inBody (t :: r₀) = .ok (x, rest)) :
    ∃ front, t :: r₀ = front ++ rest ∧ Derives (.term inBody) front x ∧
      EndsChain 1 inBody rest ∧ EndsArguments inBody rest := by
  rw [readTerm_lam hkind] at h
  obtain ⟨_, _, h₁⟩ := bind_eq_ok h
  obtain ⟨⟨param, r₁⟩, hparam, h₂⟩ := bind_eq_ok h₁
  obtain ⟨⟨colon, r₂⟩, hcolon, h₃⟩ := bind_eq_ok h₂
  obtain ⟨⟨a, r₃⟩, ha, h₄⟩ := bind_eq_ok h₃
  obtain ⟨⟨arrow, r₄⟩, harrow, h₅⟩ := bind_eq_ok h₄
  obtain ⟨⟨body, r₅⟩, hbody, h₆⟩ := bind_eq_ok h₅
  cases h₆
  obtain ⟨rfl, hparamKind⟩ := readSymbol_eq_ok hparam
  obtain ⟨rfl, hcolonKind⟩ := readSymbol_eq_ok hcolon
  obtain ⟨us, rfl, hus⟩ := derivesType_of_readAtomType (fun us _ => derivesType_of_readType us) ha
  obtain ⟨rfl, harrowKind⟩ := readSymbol_eq_ok harrow
  have hlt : r₄.length < (t :: param :: colon :: (us ++ arrow :: r₄)).length := by
    simp only [List.length_cons, List.length_append]
    omega
  obtain ⟨vs, rfl, hvs, hend⟩ := ih r₄ hlt hbody
  exact ⟨t :: param :: colon :: (us ++ arrow :: vs), by simp,
    .lam hkind hparamKind hcolonKind hus harrowKind hvs, hend⟩

theorem derives_of_readTerm_letIn
    (ih : ∀ us : List Token, us.length < (t :: r₀).length → TermSound us)
    (hkind : t.kind = .letKeyword) (h : readTerm inBody (t :: r₀) = .ok (x, rest)) :
    ∃ front, t :: r₀ = front ++ rest ∧ Derives (.term inBody) front x ∧
      EndsChain 1 inBody rest ∧ EndsArguments inBody rest := by
  rw [readTerm_letIn hkind] at h
  obtain ⟨_, _, h₁⟩ := bind_eq_ok h
  obtain ⟨⟨name, r₁⟩, hname, h₂⟩ := bind_eq_ok h₁
  obtain ⟨⟨equals, r₂⟩, hequals, h₃⟩ := bind_eq_ok h₂
  obtain ⟨⟨bound, r₃⟩, hbound, h₄⟩ := bind_eq_ok h₃
  obtain ⟨⟨keyword, r₄⟩, hkeyword, h₅⟩ := bind_eq_ok h₄
  obtain ⟨⟨body, r₅⟩, hbody, h₆⟩ := bind_eq_ok h₅
  cases h₆
  obtain ⟨rfl, hnameKind⟩ := readSymbol_eq_ok hname
  obtain ⟨rfl, hequalsKind⟩ := readSymbol_eq_ok hequals
  have hltBound : r₂.length < (t :: name :: equals :: r₂).length := by
    simp only [List.length_cons]
    omega
  obtain ⟨us, rfl, hus, _⟩ := ih r₂ hltBound hbound
  obtain ⟨rfl, hkeywordKind⟩ := readSymbol_eq_ok hkeyword
  have hltBody : r₄.length < (t :: name :: equals :: (us ++ keyword :: r₄)).length := by
    simp only [List.length_cons, List.length_append]
    omega
  obtain ⟨vs, rfl, hvs, hend⟩ := ih r₄ hltBody hbody
  exact ⟨t :: name :: equals :: (us ++ keyword :: vs), by simp,
    .letIn hkind hnameKind hequalsKind hus hkeywordKind hvs, hend⟩

theorem derives_of_readTerm_ite
    (ih : ∀ us : List Token, us.length < (t :: r₀).length → TermSound us)
    (hkind : t.kind = .ifKeyword) (h : readTerm inBody (t :: r₀) = .ok (x, rest)) :
    ∃ front, t :: r₀ = front ++ rest ∧ Derives (.term inBody) front x ∧
      EndsChain 1 inBody rest ∧ EndsArguments inBody rest := by
  rw [readTerm_ite hkind] at h
  obtain ⟨_, _, h₁⟩ := bind_eq_ok h
  obtain ⟨⟨cond, r₁⟩, hcond, h₂⟩ := bind_eq_ok h₁
  obtain ⟨⟨keywordThen, r₂⟩, hthen, h₃⟩ := bind_eq_ok h₂
  obtain ⟨⟨yes, r₃⟩, hyes, h₄⟩ := bind_eq_ok h₃
  obtain ⟨⟨keywordElse, r₄⟩, helse, h₅⟩ := bind_eq_ok h₄
  obtain ⟨⟨no, r₅⟩, hno, h₆⟩ := bind_eq_ok h₅
  cases h₆
  obtain ⟨us, rfl, hus, _⟩ := ih r₀ (Nat.lt_succ_self _) hcond
  obtain ⟨rfl, hthenKind⟩ := readSymbol_eq_ok hthen
  have hltYes : r₂.length < (t :: (us ++ keywordThen :: r₂)).length := by
    simp only [List.length_cons, List.length_append]
    omega
  obtain ⟨vs, rfl, hvs, _⟩ := ih r₂ hltYes hyes
  obtain ⟨rfl, helseKind⟩ := readSymbol_eq_ok helse
  have hltNo : r₄.length <
      (t :: (us ++ keywordThen :: (vs ++ keywordElse :: r₄))).length := by
    simp only [List.length_cons, List.length_append]
    omega
  obtain ⟨ws, rfl, hws, hend⟩ := ih r₄ hltNo hno
  exact ⟨t :: (us ++ keywordThen :: (vs ++ keywordElse :: ws)), by simp,
    .ite hkind hus hthenKind hvs helseKind hws, hend⟩

end

/-- **What is read as a term is derived as one, and nothing goes on with it.** -/
theorem derives_of_readTerm (ts : List Token) : TermSound ts := by
  induction hl : ts.length using Nat.strongRecOn generalizing ts with
  | ind k ih =>
    subst hl
    replace ih : ∀ us : List Token, us.length < ts.length → TermSound us :=
      fun us hus => ih us.length hus us rfl
    intro inBody x rest h
    cases ts with
    | nil =>
      rw [readTerm, term] at h
      cases h
    | cons t r₀ =>
      by_cases hlam : t.kind = .backslash
      · exact derives_of_readTerm_lam ih hlam h
      by_cases hlet : t.kind = .letKeyword
      · exact derives_of_readTerm_letIn ih hlet h
      by_cases hif : t.kind = .ifKeyword
      · exact derives_of_readTerm_ite ih hif h
      rw [readTerm_binary hlam hlet hif] at h
      have hatom : ∀ us : List Token, us.length ≤ (t :: r₀).length → AtomSound us :=
        fun us hus => derives_of_readAtom fun vs hvs => ih vs (Nat.lt_of_lt_of_le hvs hus)
      obtain ⟨front, hfront, hderives, hend⟩ :=
        derives_of_readBinary hatom (by decide) (by decide) h
      exact ⟨front, hfront, .chain hderives, hend⟩

/-! ## Programs -/

theorem endsBody_of_ends {next : Token} {rest : List Token}
    (hchain : EndsChain 1 true (next :: rest)) (hargs : EndsArguments true (next :: rest)) :
    EndsBody next := by
  by_cases hcolumn : next.pos.column = 1
  · exact .inl hcolumn
  · have hends : endsBody true next = false := by simpa [endsBody] using hcolumn
    have hprec : next.kind.precedence < 1 := (hchain next rfl).resolve_right (by simp [hends])
    have harg : next.kind.beginsArgument = false := (hargs next rfl).resolve_right (by simp [hends])
    exact .inr ⟨by simpa [TokenKind.isBinary] using hprec, harg⟩

theorem derives_of_mainTerm {x : Term} {rest : List Token} (h : mainTerm ts = .ok (x, rest)) :
    ∃ used, ts = used ++ rest ∧ (current rest).kind = .eof ∧ Derives (.term false) used x := by
  rw [mainTerm_eq] at h
  obtain ⟨⟨main, r₁⟩, hmain, h₁⟩ := bind_eq_ok h
  obtain ⟨used, rfl, hused, _⟩ := derives_of_readTerm ts hmain
  dsimp only at h₁
  split at h₁
  · next heof =>
    obtain ⟨_, _, h₂⟩ := bind_eq_ok h₁
    cases h₂
    exact ⟨used, rfl, heof, hused⟩
  · cases h₁

/-- **What is read as a program, up to the end of input, is derived as one.** -/
theorem exists_derivesProgram_of_programAfter {definitions : List Definition} {p : Program}
    {rest : List Token} (h : programAfter definitions ts = .ok (p, rest)) :
    ∃ used q, ts = used ++ rest ∧ (current rest).kind = .eof ∧ DerivesProgram used q ∧
      p = ⟨definitions ++ q.definitions, q.main⟩ := by
  induction hl : ts.length using Nat.strongRecOn generalizing ts definitions with
  | ind k ih =>
    subst hl
    by_cases hdef : ∀ t ∈ ts.head?, t.kind ≠ .defKeyword
    · rw [programAfter_main hdef] at h
      obtain ⟨⟨main, r₁⟩, hmain, h₁⟩ := bind_eq_ok h
      cases h₁
      obtain ⟨used, hts, heof, hused⟩ := derives_of_mainTerm hmain
      exact ⟨used, ⟨[], main⟩, hts, heof, .main hused, by simp⟩
    · cases ts with
      | nil => exact absurd (fun _ ht => by cases ht) hdef
      | cons t r₀ =>
        have hkind : t.kind = .defKeyword := by simpa using hdef
        rw [programAfter_define hkind] at h
        obtain ⟨_, _, h₁⟩ := bind_eq_ok h
        obtain ⟨⟨d, r₅⟩, hd, hprogram⟩ := bind_eq_ok h₁
        rw [readDefinition_eq] at hd
        obtain ⟨⟨name, r₁⟩, hname, h₂⟩ := bind_eq_ok hd
        obtain ⟨⟨colon, r₂⟩, hcolon, h₃⟩ := bind_eq_ok h₂
        obtain ⟨⟨a, r₃⟩, ha, h₄⟩ := bind_eq_ok h₃
        obtain ⟨⟨equals, r₄⟩, hequals, h₅⟩ := bind_eq_ok h₄
        obtain ⟨⟨body, r₅⟩, hbody, h₆⟩ := bind_eq_ok h₅
        cases h₆
        obtain ⟨rfl, hnameKind⟩ := readSymbol_eq_ok hname
        obtain ⟨rfl, hcolonKind⟩ := readSymbol_eq_ok hcolon
        obtain ⟨us, rfl, hus⟩ := derivesType_of_readType r₂ ha
        obtain ⟨rfl, hequalsKind⟩ := readSymbol_eq_ok hequals
        obtain ⟨vs, rfl, hvs, hchain, hargs⟩ := derives_of_readTerm r₄ hbody
        have hlt : r₅.length <
            (t :: name :: colon :: (us ++ equals :: (vs ++ r₅))).length := by
          simp only [List.length_cons, List.length_append]
          omega
        obtain ⟨used, q, rfl, heof, hq, hp⟩ := ih r₅.length hlt hprogram rfl
        -- A program has a first token, which is the one that ended the body.
        obtain ⟨next, ws, rfl, _⟩ := hq.begins
        refine ⟨_, _, ?_, heof, .define hkind hnameKind hcolonKind hus hequalsKind hvs
          (endsBody_of_ends hchain hargs) hq, ?_⟩
        · simp
        · rw [hp, List.append_assoc]
          rfl

theorem derivesProgram_of_programAfter {definitions : List Definition} {p : Program}
    {rest : List Token} (hts : ∀ t ∈ ts, t.kind ≠ .eof)
    (h : programAfter definitions ts = .ok (p, rest)) :
    ∃ q : Program, DerivesProgram ts q ∧ p = ⟨definitions ++ q.definitions, q.main⟩ := by
  obtain ⟨used, q, rfl, heof, hq, hp⟩ := exists_derivesProgram_of_programAfter h
  cases rest with
  | nil => exact ⟨q, by rwa [List.append_nil], hp⟩
  | cons t r => exact absurd heof (hts t (by simp))

end TypedLambda.Parser
