import TypedLambda.Proofs.Syntax.Completion

/-!
# Where reading stops

The reading functions decide by the current token alone. So what they take and what they refuse does
not depend on the tokens after the current one.

* `Parser.Takes`: what is read depends on its own tokens and on the token after them only;
* `Parser.Stops`: reading stops at a token after which nothing could help, and the tokens before it
  begin something that would be read.

`Stops` has a rule for each way in which the reading functions are put together. As in the proof of
soundness, each fact about a function takes the facts about fewer tokens as hypotheses.
-/

namespace TypedLambda.Parser

open Grammar

abbrev Reader (α : Type) := List Token → Except Rejection (α × List Token)

def Valid (ts : List Token) : Prop := ∀ t ∈ ts, t.Valid

variable {α β : Type}

/-- What is read from `ts` is a front of them that satisfies `whole`. It is also read if the tokens
after the current one are others. -/
def Takes (read : Reader α) (whole : List Token → α → Prop) (ts : List Token) : Prop :=
  ∀ a rest, read ts = .ok (a, rest) → ∃ front, ts = front ++ rest ∧ whole front a ∧
    ∀ rest', Valid rest' → rest'.head? = rest.head? → read (front ++ rest') = .ok (a, rest')

/-- The error is at the current token of `rest`, after a front of `ts` that satisfies `opens`. There
is also an error if the tokens after the current one are others. -/
def StopsAt (read : Reader α) (opens : List Token → Prop) (ts : List Token) (e : SyntaxError)
    (rest : List Token) : Prop :=
  ∃ front, ts = front ++ rest ∧ e.pos = (current rest).pos ∧ opens front ∧
    ∀ rest', Valid rest' → rest'.head? = rest.head? → ∃ r, read (front ++ rest') = .error r

/-- If `ts` are refused, then reading stops at the token of the error. -/
def Stops (read : Reader α) (opens : List Token → Prop) (ts : List Token) : Prop :=
  Valid ts → ∀ e rest, read ts = .error ⟨e, rest⟩ → StopsAt read opens ts e rest

theorem valid_cons {t : Token} {ts : List Token} : Valid (t :: ts) ↔ t.Valid ∧ Valid ts :=
  List.forall_mem_cons

theorem valid_append {ts us : List Token} : Valid (ts ++ us) ↔ Valid ts ∧ Valid us :=
  List.forall_mem_append

theorem legal_of_valid {ts : List Token} (h : Valid ts) : legal ts = .ok () := by
  cases ts with
  | nil => exact legal_nil
  | cons t r => exact legal_cons (valid_cons.mp h).1.notIllegal

theorem current_congr {ts us : List Token} (h : ts.head? = us.head?) : current ts = current us := by
  rw [current, current, List.headD_eq_head?_getD, List.headD_eq_head?_getD, h]

theorem head?_append_congr {ts us : List Token} (front : List Token) (h : ts.head? = us.head?) :
    (front ++ ts).head? = (front ++ us).head? := by
  rw [List.head?_append, List.head?_append, h]

/-! ## Rules -/

section

variable {read : Reader α} {opens opens' : List Token → Prop} {ts rest : List Token}
  {e : SyntaxError}

theorem StopsAt.mono (h : StopsAt read opens ts e rest)
    (hopens : ∀ front, ts = front ++ rest → opens front → opens' front) :
    StopsAt read opens' ts e rest := by
  obtain ⟨front, hfront, hpos, hopen, hrefused⟩ := h
  exact ⟨front, hfront, hpos, hopens front hfront hopen, hrefused⟩

theorem StopsAt.bind (h : StopsAt read opens ts e rest)
    (f : α × List Token → Except Rejection (β × List Token)) :
    StopsAt (fun us => read us >>= f) opens ts e rest := by
  obtain ⟨front, hfront, hpos, hopen, hrefused⟩ := h
  refine ⟨front, hfront, hpos, hopen, fun rest' hrest' hhead => ?_⟩
  obtain ⟨rejection, hrejection⟩ := hrefused rest' hrest' hhead
  refine ⟨rejection, ?_⟩
  simp only [hrejection]
  rfl

end

namespace Stops

variable {read read' : Reader α} {opens opens' : List Token → Prop} {t : Token} {ts r : List Token}

theorem of_ok (h : Valid ts → ∃ p, read ts = .ok p) : Stops read opens ts := by
  intro hts e rest herror
  obtain ⟨p, hp⟩ := h hts
  rw [hp] at herror
  cases herror

theorem here (hopens : opens [])
    (h : ∀ us, us.head? = ts.head? → ∃ fault, read us = reject us (current us).pos fault) :
    Stops read opens ts := by
  intro _ e rest herror
  obtain ⟨fault, hfault⟩ := h ts rfl
  rw [hfault] at herror
  cases herror
  refine ⟨[], rfl, rfl, hopens, fun rest' _ hhead => ?_⟩
  obtain ⟨fault', hfault'⟩ := h rest' hhead
  exact ⟨_, hfault'⟩

theorem here_nil (fault : SyntaxFault) (hopens : opens [])
    (h : read [] = reject [] (current []).pos fault) : Stops read opens [] := by
  refine here hopens fun us hhead => ?_
  obtain rfl : us = [] := List.head?_eq_none_iff.mp hhead
  exact ⟨fault, h⟩

theorem here_cons (fault : SyntaxFault) (hopens : opens [])
    (h : ∀ us, read (t :: us) = reject (t :: us) t.pos fault) : Stops read opens (t :: r) := by
  refine here hopens fun us hhead => ?_
  obtain ⟨us, rfl⟩ : ∃ vs, us = t :: vs := List.head?_eq_some_iff.mp hhead
  exact ⟨fault, h us⟩

theorem mono (h : Stops read opens ts)
    (hopens : ∀ front rest, ts = front ++ rest → opens front → opens' front) :
    Stops read opens' ts := by
  intro hts e rest herror
  exact (h hts e rest herror).mono fun front => hopens front rest

theorem congr (h : Stops read' opens ts)
    (hread : ∀ us, us.head? = ts.head? → read us = read' us) : Stops read opens ts := by
  intro hts e rest herror
  rw [hread ts rfl] at herror
  obtain ⟨front, rfl, hpos, hopen, hrefused⟩ := h hts e rest herror
  refine ⟨front, rfl, hpos, hopen, fun rest' hrest' hhead => ?_⟩
  rw [hread _ (head?_append_congr front hhead)]
  exact hrefused rest' hrest' hhead

theorem congr_cons (h : Stops read' opens (t :: r))
    (hread : ∀ us, read (t :: us) = read' (t :: us)) : Stops read opens (t :: r) := by
  refine h.congr fun us hhead => ?_
  obtain ⟨us, rfl⟩ : ∃ vs, us = t :: vs := List.head?_eq_some_iff.mp hhead
  exact hread us

theorem cons (h : Stops read' (fun front => opens (t :: front)) r)
    (hread : ∀ us, read (t :: us) = legal us >>= fun _ => read' us) :
    Stops read opens (t :: r) := by
  intro hts e rest herror
  have hr : Valid r := (valid_cons.mp hts).2
  rw [hread, legal_of_valid hr, ok_bind] at herror
  obtain ⟨front, rfl, hpos, hopen, hrefused⟩ := h hr e rest herror
  refine ⟨t :: front, rfl, hpos, hopen, fun rest' hrest' hhead => ?_⟩
  have hvalid : Valid (front ++ rest') := valid_append.mpr ⟨(valid_append.mp hr).1, hrest'⟩
  rw [List.cons_append, hread, legal_of_valid hvalid, ok_bind]
  exact hrefused rest' hrest' hhead

theorem bind {opens₁ : List Token → Prop} {whole : List Token → α → Prop}
    {f : α × List Token → Except Rejection (β × List Token)} (hstops : Stops read opens₁ ts)
    (htakes : Takes read whole ts)
    (hopens : ∀ front rest, ts = front ++ rest → opens₁ front → opens front)
    (hnext : ∀ a front rest, ts = front ++ rest → read ts = .ok (a, rest) → whole front a →
      Stops (fun us => f (a, us)) (fun back => opens (front ++ back)) rest) :
    Stops (fun us => read us >>= f) opens ts := by
  intro hts e rest herror
  cases hread : read ts with
  | error rejection =>
    simp only [hread] at herror
    cases herror
    exact ((hstops hts e rest hread).bind f).mono fun front => hopens front rest
  | ok p =>
    obtain ⟨a, us⟩ := p
    simp only [hread, ok_bind] at herror
    obtain ⟨front, hfront, hwhole, htaken⟩ := htakes a us hread
    have hus : Valid us := (valid_append.mp (hfront ▸ hts)).2
    obtain ⟨back, rfl, hpos, hopen, hrefused⟩ :=
      hnext a front us hfront hread hwhole hus e rest herror
    refine ⟨front ++ back, by rw [hfront, List.append_assoc], hpos, hopen, ?_⟩
    intro rest' hrest' hhead
    -- the first part is read again, since the token after it is the same
    have hvalid : Valid (back ++ rest') := valid_append.mpr ⟨(valid_append.mp hus).1, hrest'⟩
    obtain ⟨rejection, hrejection⟩ := hrefused rest' hrest' hhead
    refine ⟨rejection, ?_⟩
    simp only [List.append_assoc, htaken _ hvalid (head?_append_congr back hhead), ok_bind]
    exact hrejection

theorem map (h : Stops read opens ts) (g : α × List Token → β × List Token) :
    Stops (fun us => read us >>= fun p => pure (g p)) opens ts := by
  intro hts e rest herror
  cases hread : read ts with
  | ok p =>
    simp only [hread] at herror
    cases herror
  | error rejection =>
    simp only [hread] at herror
    cases herror
    exact (h hts e rest hread).bind _

theorem symbol {kind : TokenKind} {place : Place}
    {f : Token × List Token → Except Rejection (β × List Token)} (hopens : opens [])
    (hnext : ∀ t r, ts = t :: r → t.kind = kind →
      Stops (fun us => f (t, us)) (fun back => opens (t :: back)) r) :
    Stops (fun us => readSymbol kind place us >>= f) opens ts := by
  cases ts with
  | nil => exact here_nil (.expectedToken kind place (current [])) hopens rfl
  | cons t r =>
    by_cases hkind : t.kind = kind
    · refine cons (hnext t r rfl hkind) fun us => ?_
      rw [readSymbol_cons hkind, bind_assoc]
      rfl
    · refine here_cons (.expectedToken kind place t) hopens fun us => ?_
      rw [readSymbol, Parser.symbol, if_neg hkind]
      rfl

end Stops

/-! ## Types -/

theorem takes_readAtomType (ts : List Token) : Takes readAtomType (DerivesType .atom) ts := by
  intro a rest h
  obtain ⟨front, hfront, ha⟩ :=
    derivesType_of_readAtomType (fun us _ => derivesType_of_readType us) h
  refine ⟨front, hfront, ha, fun rest' hrest' _ => ?_⟩
  exact readsType_of_derivesType ha rest' (legal_of_valid hrest')

theorem kind_ne_of_readType {ts rest : List Token} {a : Ty} (h : readType ts = .ok (a, rest)) :
    ∀ t ∈ rest.head?, t.kind ≠ .rightArrow := by
  induction hl : ts.length using Nat.strongRecOn generalizing ts a with
  | ind l ih =>
    subst hl
    rw [readType_eq] at h
    obtain ⟨⟨b, r₁⟩, hb, h₁⟩ := bind_eq_ok h
    have hlt : r₁.length < ts.length := length_lt_of_forget hb
    cases r₁ with
    | nil =>
      cases h₁
      rintro _ ⟨⟩
    | cons t r₂ =>
      simp only at h₁
      by_cases harrow : t.kind = .rightArrow
      · rw [if_pos harrow] at h₁
        obtain ⟨_, _, h₂⟩ := bind_eq_ok h₁
        obtain ⟨⟨c, r₃⟩, hc, h₃⟩ := bind_eq_ok h₂
        cases h₃
        exact ih r₂.length (Nat.lt_of_succ_lt hlt) hc rfl
      · rw [if_neg harrow] at h₁
        cases h₁
        rintro _ ⟨⟩
        exact harrow

theorem takes_readType (ts : List Token) : Takes readType (DerivesType .type) ts := by
  intro a rest h
  obtain ⟨front, hfront, ha⟩ := derivesType_of_readType ts h
  refine ⟨front, hfront, ha, fun rest' hrest' hhead => ?_⟩
  refine readsType_of_derivesType ha rest' (legal_of_valid hrest') ?_
  rw [hhead]
  exact kind_ne_of_readType h

abbrev StopsInType (ts : List Token) : Prop := Stops readType (Opens (IsType .type)) ts

theorem stops_readAtomType {ts : List Token}
    (ih : ∀ us : List Token, us.length < ts.length → StopsInType us) :
    Stops readAtomType (Opens (IsType .atom)) ts := by
  cases ts with
  | nil =>
    refine .here_nil (.expectedType (current [])) (opensType_nil .atom) ?_
    rw [readAtomType, atomType]
    rfl
  | cons t r =>
    by_cases hident : t.kind = .ident
    · cases hname : Ty.ofName? t.data with
      | none =>
        refine .here_cons (.unknownType t.data) (opensType_nil .atom) fun us => ?_
        rw [readAtomType_ident hident, hname]
      | some base =>
        refine .of_ok fun hts => ⟨(base, r), ?_⟩
        rw [readAtomType_ident hident, hname]
        simp only [legal_of_valid (valid_cons.mp hts).2]
        rfl
    · by_cases hparen : t.kind = .leftParen
      · refine .cons ?_ fun us => readAtomType_paren hparen
        refine .bind (ih r (Nat.lt_succ_self _)) (takes_readType r)
          (fun front _ _ hopen => opensType_paren hparen hopen) ?_
        intro a front r₁ _ _ ha
        refine .symbol ?_ fun right r₂ _ _ => .of_ok fun _ => ⟨_, rfl⟩
        rw [List.append_nil]
        exact opensType_paren hparen (.of_whole ⟨a, ha⟩)
      · refine .here_cons (.expectedType t) (opensType_nil .atom) fun us => ?_
        rw [readAtomType, atomType]
        split
        · next hkind => exact absurd hkind hident
        · next hkind => exact absurd hkind hparen
        · rfl

theorem stops_readType (ts : List Token) : StopsInType ts := by
  induction hl : ts.length using Nat.strongRecOn generalizing ts with
  | ind l ih =>
    subst hl
    refine .congr ?_ fun us _ => readType_eq us
    refine .bind (stops_readAtomType fun us hus => ih us.length hus us rfl)
      (takes_readAtomType ts) (fun _ _ _ => opensType_single) ?_
    intro a front r₁ hsplit hread ha
    have hlt : r₁.length < ts.length := length_lt_of_forget hread
    cases r₁ with
    | nil => exact .of_ok fun _ => ⟨_, rfl⟩
    | cons t r₂ =>
      by_cases harrow : t.kind = .rightArrow
      · refine .cons ?_ fun us => if_pos harrow
        have hstops : StopsInType r₂ := ih r₂.length (Nat.lt_of_succ_lt hlt) r₂ rfl
        exact .map (hstops.mono fun _ _ _ hopen => opensType_arrow ha harrow hopen) _
      · exact .of_ok fun _ => ⟨_, if_neg harrow⟩

/-! ## Atoms and applications -/

section

variable {ts : List Token} {inBody : Bool}

theorem EndsChain.of_head? {least : Nat} {us : List Token} (h : EndsChain least inBody ts)
    (hhead : us.head? = ts.head?) : EndsChain least inBody us := by
  unfold EndsChain
  rwa [hhead]

theorem EndsArguments.of_head? {us : List Token} (h : EndsArguments inBody ts)
    (hhead : us.head? = ts.head?) : EndsArguments inBody us := by
  unfold EndsArguments
  rwa [hhead]

theorem atomSound (ts : List Token) : AtomSound ts :=
  derives_of_readAtom fun us _ => derives_of_readTerm us

theorem binarySound (ts : List Token) : BinarySound ts :=
  derives_of_readBinary fun us _ => atomSound us

theorem takes_readAtom (ts : List Token) : Takes readAtom (Derives .atom) ts := by
  intro x rest h
  obtain ⟨front, hfront, hx⟩ := atomSound ts h
  refine ⟨front, hfront, hx, fun rest' hrest' _ => ?_⟩
  exact reads_of_derives hx rest' (legal_of_valid hrest')

theorem takes_readApplication (ts : List Token) :
    Takes (readApplication inBody) (Derives (.application inBody)) ts := by
  intro x rest h
  obtain ⟨front, hfront, hx, hargs⟩ := derives_of_readApplication (fun us _ => atomSound us) h
  refine ⟨front, hfront, hx, fun rest' hrest' hhead => ?_⟩
  rw [reads_of_derives hx rest' (legal_of_valid hrest')]
  exact (hargs.of_head? hhead).readArguments_eq

theorem takes_readBinary {least : Nat} (hpos : 0 < least) (hle : least ≤ 7) (ts : List Token) :
    Takes (readBinary least inBody) (Derives (.binary inBody least)) ts := by
  intro x rest h
  obtain ⟨front, hfront, hx, hchain, hargs⟩ := binarySound ts hpos hle h
  refine ⟨front, hfront, hx, fun rest' hrest' hhead => ?_⟩
  have hchain' : EndsChain least inBody rest' := hchain.of_head? hhead
  rw [reads_of_derives hx rest' (legal_of_valid hrest') (hchain'.mono (Nat.le_succ _))
    (hargs.of_head? hhead)]
  exact hchain'.readChain_eq

theorem takes_readTerm (ts : List Token) :
    Takes (readTerm inBody) (Derives (.term inBody)) ts := by
  intro x rest h
  obtain ⟨front, hfront, hx, hchain, hargs⟩ := derives_of_readTerm ts h
  refine ⟨front, hfront, hx, fun rest' hrest' hhead => ?_⟩
  exact reads_of_derives hx rest' (legal_of_valid hrest') (hchain.of_head? hhead)
    (hargs.of_head? hhead)

abbrev StopsInAtom (ts : List Token) : Prop := Stops readAtom (Opens (IsPhrase .atom)) ts

abbrev StopsInTerm (ts : List Token) : Prop :=
  ∀ inBody, Stops (readTerm inBody) (Opens (IsPhrase (.term inBody))) ts

theorem stops_readAtom (ih : ∀ us : List Token, us.length < ts.length → StopsInTerm us) :
    StopsInAtom ts := by
  cases ts with
  | nil =>
    refine .here_nil (.expectedTerm (current [])) opens_atom ?_
    rw [readAtom, atom]
    rfl
  | cons t r =>
    cases hkind : t.kind with
    | number =>
      refine .of_ok fun hts => ?_
      obtain ⟨ht, hr⟩ := valid_cons.mp hts
      obtain ⟨n, hn⟩ := Option.isSome_iff_exists.mp (ht.inRange hkind)
      rw [readAtom_number hkind, legal_of_valid hr, ok_bind, hn]
      exact ⟨_, rfl⟩
    | string =>
      refine .of_ok fun hts => ?_
      obtain ⟨ht, hr⟩ := valid_cons.mp hts
      obtain ⟨bytes, hbytes⟩ := Option.isSome_iff_exists.mp (ht.denotes hkind)
      rw [readAtom_string hkind, hbytes]
      simp only [legal_of_valid hr]
      exact ⟨_, rfl⟩
    | trueKeyword =>
      refine .of_ok fun hts => ?_
      rw [readAtom_true hkind, legal_of_valid (valid_cons.mp hts).2]
      exact ⟨_, rfl⟩
    | falseKeyword =>
      refine .of_ok fun hts => ?_
      rw [readAtom_false hkind, legal_of_valid (valid_cons.mp hts).2]
      exact ⟨_, rfl⟩
    | ident =>
      refine .of_ok fun hts => ?_
      rw [readAtom_var hkind, legal_of_valid (valid_cons.mp hts).2]
      exact ⟨_, rfl⟩
    | leftParen =>
      refine .cons ?_ fun us => readAtom_paren hkind
      refine .bind (ih r (Nat.lt_succ_self _) false) (takes_readTerm r)
        (fun _ _ _ hopen => opens_paren hkind hopen) ?_
      intro x front r₁ _ _ hx
      refine .symbol ?_ fun right r₂ _ _ => .of_ok fun _ => ⟨_, rfl⟩
      rw [List.append_nil]
      exact opens_paren hkind (.of_whole ⟨x, hx⟩)
    | _ =>
      refine .here_cons (.expectedTerm t) opens_atom fun us => ?_
      exact readAtom_eq_reject (by rw [hkind]; rfl)

/-- The error is in the first argument that is not read, after the application that is there. -/
theorem stops_readArguments {l : List Token} {func : Term}
    (hatom : ∀ us : List Token, us.length ≤ ts.length → StopsInAtom us)
    (hfunc : Derives (.application inBody) l func) :
    Stops (readArguments inBody func)
      (fun front => Opens (IsPhrase (.application inBody)) (l ++ front)) ts := by
  induction hl : ts.length using Nat.strongRecOn generalizing ts l func with
  | ind k ih =>
    subst hl
    by_cases hends : EndsArguments inBody ts
    · exact .of_ok fun _ => ⟨_, hends.readArguments_eq⟩
    · obtain ⟨t, r₁, rfl, hbegins, hbody⟩ := exists_of_not_endsArguments hends
      have hcontinues : Continues inBody t := continues_iff.mpr hbody
      suffices hstops : Stops
          (fun us => readAtom us >>= fun p => readArguments inBody (.app func p.1) p.2)
          (fun front => Opens (IsPhrase (.application inBody)) (l ++ front)) (t :: r₁) from
        hstops.congr_cons fun us => readArguments_argument hbegins hbody
      refine .bind (hatom _ (Nat.le_refl _)) (takes_readAtom _) ?_ ?_
      · intro front rest hsplit hopen
        cases front with
        | nil =>
          rw [List.append_nil]
          exact .of_whole ⟨func, hfunc⟩
        | cons first us =>
          obtain ⟨rfl, _⟩ := List.cons.inj hsplit
          exact opens_app hfunc hcontinues hopen
      · intro arg front r₂ hsplit hread harg
        have hlt : r₂.length < (t :: r₁).length := length_lt_of_forget hread
        obtain ⟨first, us, rfl, _⟩ := harg.begins
        obtain ⟨rfl, rfl⟩ := List.cons.inj hsplit
        have happ := Derives.app hfunc hcontinues harg
        have hstops := ih r₂.length hlt
          (fun us hus => hatom us (Nat.le_trans hus (Nat.le_of_lt hlt))) happ rfl
        refine hstops.mono fun back _ _ hopen => ?_
        rwa [List.append_assoc] at hopen

theorem stops_readApplication (hatom : ∀ us : List Token, us.length ≤ ts.length → StopsInAtom us) :
    Stops (readApplication inBody) (Opens (IsPhrase (.application inBody))) ts := by
  refine .congr ?_ fun us _ => readApplication_eq inBody us
  refine .bind (hatom ts (Nat.le_refl _)) (takes_readAtom ts) (fun _ _ _ => opens_single) ?_
  intro func front r₁ _ hread hfunc
  have hlt : r₁.length < ts.length := length_lt_of_forget hread
  exact stops_readArguments (fun us hus => hatom us (Nat.le_trans hus (Nat.le_of_lt hlt)))
    (.single hfunc)

/-! ## Chains of operators -/

abbrev StopsInBinary (ts : List Token) : Prop :=
  ∀ {least : Nat} {inBody : Bool}, 0 < least → least ≤ 7 →
    Stops (readBinary least inBody) (Opens (IsPhrase (.binary inBody least))) ts

/-- The error is in the first right operand that is not read, after the chain that is there. -/
theorem stops_readChain {least level : Nat} {l : List Token} {left : Term}
    (hbinary : ∀ us : List Token, us.length < ts.length → StopsInBinary us)
    (hpos : 0 < least) (hle : least ≤ level) (hleft : Derives (.binary inBody level) l left)
    (hchain : EndsChain (level + 1) inBody ts) :
    Stops (readChain least inBody left)
      (fun front => Opens (IsPhrase (.binary inBody least)) (l ++ front)) ts := by
  induction hl : ts.length using Nat.strongRecOn generalizing ts l left level with
  | ind k ih =>
    subst hl
    by_cases hends : EndsChain least inBody ts
    · exact .of_ok fun _ => ⟨_, hends.readChain_eq⟩
    · obtain ⟨t, r₁, rfl, hleast, hbody⟩ := exists_of_not_endsChain hends
      have hlevel : t.kind.precedence ≤ level := by
        rcases hchain t rfl with hlt | hends
        · exact Nat.le_of_lt_succ hlt
        · rw [hbody] at hends
          cases hends
      obtain ⟨op, hop⟩ := exists_operator (Nat.lt_of_lt_of_le hpos hleast)
      have hbinds : Binds t.kind op t.kind.precedence := binds_iff.mpr ⟨hop, rfl⟩
      have hcontinues : Continues inBody t := continues_iff.mpr hbody
      have hoperand := derives_of_le hlevel hleft
      have hprec : t.kind.precedence + 1 ≤ 7 := Nat.succ_le_succ (precedence_le t.kind)
      refine .cons ?_ fun us => readChain_operator hop hleast hbody
      refine .bind (hbinary r₁ (Nat.lt_succ_self _) (Nat.succ_pos _) hprec)
        (takes_readBinary (Nat.succ_pos _) hprec r₁)
        (fun _ _ _ hopen => opens_of_le hleast (opens_operator hoperand hbinds hcontinues hopen)) ?_
      intro right front r₂ _ hread hright
      have hlt : r₂.length < r₁.length := length_lt_of_forget hread
      obtain ⟨_, _, _, hchain₂, _⟩ := binarySound r₁ (Nat.succ_pos _) hprec hread
      have hbin := Derives.operator hoperand hbinds hcontinues hright
      have hstops := ih r₂.length (Nat.lt_succ_of_lt hlt)
        (fun us hus => hbinary us (Nat.lt_trans hus (Nat.lt_succ_of_lt hlt)))
        hleast hbin hchain₂ rfl
      refine hstops.mono fun back _ _ hopen => ?_
      rwa [List.append_assoc] at hopen

theorem stops_readBinary (hatom : ∀ us : List Token, us.length ≤ ts.length → StopsInAtom us) :
    StopsInBinary ts := by
  induction hl : ts.length using Nat.strongRecOn generalizing ts with
  | ind k ih =>
    subst hl
    intro least inBody hpos hle
    refine .congr ?_ fun us _ => readBinary_eq least inBody us
    refine .bind (stops_readApplication hatom) (takes_readApplication ts)
      (fun _ _ _ => opens_operand hle) ?_
    intro left front r₁ _ hread hleft
    have hlt : r₁.length < ts.length := length_lt_of_forget hread
    have hbinary : ∀ us : List Token, us.length < r₁.length → StopsInBinary us := by
      intro us hus
      refine ih us.length (Nat.lt_trans hus hlt) (fun vs hvs => hatom vs ?_) rfl
      exact Nat.le_trans hvs (Nat.le_of_lt (Nat.lt_trans hus hlt))
    have hchain : EndsChain (7 + 1) inBody r₁ := fun t _ =>
      .inl (Nat.lt_of_le_of_lt (precedence_le t.kind) (by decide))
    exact stops_readChain hbinary hpos hle (.operand hleft) hchain

/-! ## Terms -/

section

variable {t : Token} {r₀ : List Token}
  (ih : ∀ us : List Token, us.length < (t :: r₀).length → StopsInTerm us)

include ih

theorem stops_readTerm_lam (ht : t.kind = .backslash) :
    Stops (readTerm inBody) (Opens (IsPhrase (.term inBody))) (t :: r₀) := by
  refine .cons ?_ fun us => readTerm_lam ht
  refine .symbol (opens_lam ht) ?_
  rintro param r₁ rfl hparam
  refine .symbol (opens_lam_param ht hparam) ?_
  rintro colon r₂ rfl hcolon
  refine .bind (stops_readAtomType fun us _ => stops_readType us) (takes_readAtomType r₂)
    (fun _ _ _ hopen => opens_lam_type ht hparam hcolon hopen) ?_
  rintro a front r₃ rfl _ ha
  refine .symbol ?_ ?_
  · rw [List.append_nil]
    exact opens_lam_type ht hparam hcolon (.of_whole ⟨a, ha⟩)
  rintro arrow r₄ rfl harrow
  have hlt : r₄.length < (t :: param :: colon :: (front ++ arrow :: r₄)).length := by
    simp only [List.length_cons, List.length_append]
    omega
  refine .map ((ih r₄ hlt inBody).mono fun _ _ _ hopen => ?_) _
  exact opens_lam_body ht hparam hcolon ha harrow hopen

theorem stops_readTerm_letIn (ht : t.kind = .letKeyword) :
    Stops (readTerm inBody) (Opens (IsPhrase (.term inBody))) (t :: r₀) := by
  refine .cons ?_ fun us => readTerm_letIn ht
  refine .symbol (opens_letIn ht) ?_
  rintro name r₁ rfl hname
  refine .symbol (opens_letIn_name ht hname) ?_
  rintro equals r₂ rfl hequals
  have hltBound : r₂.length < (t :: name :: equals :: r₂).length := by
    simp only [List.length_cons]
    omega
  refine .bind (ih r₂ hltBound inBody) (takes_readTerm r₂)
    (fun _ _ _ hopen => opens_letIn_bound ht hname hequals hopen) ?_
  rintro bound front r₃ rfl _ hbound
  refine .symbol ?_ ?_
  · rw [List.append_nil]
    exact opens_letIn_bound ht hname hequals (.of_whole ⟨bound, hbound⟩)
  rintro keyword r₄ rfl hkeyword
  have hltBody : r₄.length < (t :: name :: equals :: (front ++ keyword :: r₄)).length := by
    simp only [List.length_cons, List.length_append]
    omega
  refine .map ((ih r₄ hltBody inBody).mono fun _ _ _ hopen => ?_) _
  exact opens_letIn_body ht hname hequals hbound hkeyword hopen

theorem stops_readTerm_ite (ht : t.kind = .ifKeyword) :
    Stops (readTerm inBody) (Opens (IsPhrase (.term inBody))) (t :: r₀) := by
  refine .cons ?_ fun us => readTerm_ite ht
  refine .bind (ih r₀ (Nat.lt_succ_self _) inBody) (takes_readTerm r₀)
    (fun _ _ _ hopen => opens_ite_cond ht hopen) ?_
  rintro cond us r₁ rfl _ hcond
  refine .symbol ?_ ?_
  · rw [List.append_nil]
    exact opens_ite_cond ht (.of_whole ⟨cond, hcond⟩)
  rintro keywordThen r₂ rfl hthen
  have hltYes : r₂.length < (t :: (us ++ keywordThen :: r₂)).length := by
    simp only [List.length_cons, List.length_append]
    omega
  refine .bind (ih r₂ hltYes inBody) (takes_readTerm r₂)
    (fun _ _ _ hopen => opens_ite_yes ht hcond hthen hopen) ?_
  rintro yes vs r₃ rfl _ hyes
  refine .symbol ?_ ?_
  · rw [List.append_nil]
    exact opens_ite_yes ht hcond hthen (.of_whole ⟨yes, hyes⟩)
  rintro keywordElse r₄ rfl helse
  have hltNo : r₄.length < (t :: (us ++ keywordThen :: (vs ++ keywordElse :: r₄))).length := by
    simp only [List.length_cons, List.length_append]
    omega
  refine .map ((ih r₄ hltNo inBody).mono fun _ _ _ hopen => ?_) _
  exact opens_ite_no ht hcond hthen hyes helse hopen

end

/-- **The tokens before an error in a term begin a term, and no others after the error help.** -/
theorem stops_readTerm (ts : List Token) : StopsInTerm ts := by
  induction hl : ts.length using Nat.strongRecOn generalizing ts with
  | ind k ih =>
    subst hl
    replace ih : ∀ us : List Token, us.length < ts.length → StopsInTerm us :=
      fun us hus => ih us.length hus us rfl
    intro inBody
    cases ts with
    | nil =>
      refine .here_nil (.expectedTerm (current [])) (opens_term inBody) ?_
      rw [readTerm, term]
      rfl
    | cons t r₀ =>
      by_cases hlam : t.kind = .backslash
      · exact stops_readTerm_lam ih hlam
      by_cases hlet : t.kind = .letKeyword
      · exact stops_readTerm_letIn ih hlet
      by_cases hif : t.kind = .ifKeyword
      · exact stops_readTerm_ite ih hif
      have hatom : ∀ us : List Token, us.length ≤ (t :: r₀).length → StopsInAtom us :=
        fun us hus => stops_readAtom fun vs hvs => ih vs (Nat.lt_of_lt_of_le hvs hus)
      have hstops : Stops (readBinary 1 inBody) _ (t :: r₀) :=
        stops_readBinary hatom (by decide) (by decide)
      refine .congr_cons (hstops.mono fun _ _ _ => opens_chain) fun us => ?_
      exact readTerm_binary hlam hlet hif

/-! ## Programs -/

theorem stops_mainTerm (ts : List Token) : Stops mainTerm (Opens (IsPhrase (.term false))) ts := by
  refine .congr ?_ fun us _ => mainTerm_eq us
  refine .bind (stops_readTerm ts false) (takes_readTerm ts) (fun _ _ _ hopen => hopen) ?_
  intro x front rest _ _ hx
  by_cases heof : (current rest).kind = .eof
  · refine .of_ok fun hrest => ⟨(x, rest), ?_⟩
    have htail : Valid rest.tail := fun t ht => hrest t (List.mem_of_mem_tail ht)
    simp only [if_pos heof, legal_of_valid htail]
    rfl
  · refine .here ?_ fun us hhead => ⟨.expectedToken .eof .endOfProgram (current us), ?_⟩
    · rw [List.append_nil]
      exact .of_whole ⟨x, hx⟩
    · rw [← current_congr hhead] at heof
      exact if_neg heof

theorem programAfter_definition {t : Token} {definitions : List Definition}
    (ht : t.kind = .defKeyword) (us : List Token) :
    programAfter definitions (t :: us) = (do
      legal us
      let name ← readSymbol .ident .afterDef us
      let colon ← readSymbol .colon .afterDefinitionName name.2
      let declared ← readType colon.2
      let equals ← readSymbol .equals .afterDefinitionType declared.2
      let body ← readTerm true equals.2
      programAfter (definitions ++ [⟨name.1.data, declared.1, body.1⟩]) body.2) := by
  rw [programAfter_define ht, readDefinition_eq]
  simp only [bind_assoc, pure_bind]

/-- **The tokens before an error in a program begin a program, and no others after the error
help.** -/
theorem stops_programAfter (definitions : List Definition) (ts : List Token) :
    Stops (programAfter definitions) (Opens IsProgram) ts := by
  induction hl : ts.length using Nat.strongRecOn generalizing ts definitions with
  | ind k ih =>
    subst hl
    by_cases hdef : ∀ t ∈ ts.head?, t.kind ≠ .defKeyword
    · have hmain := (stops_mainTerm ts).mono fun _ _ _ => opensProgram_main
      refine .congr (hmain.map fun main => (⟨definitions, main.1⟩, main.2)) fun us hhead => ?_
      exact programAfter_main (hhead ▸ hdef)
    · cases ts with
      | nil => exact absurd (fun _ ht => by cases ht) hdef
      | cons t r₀ =>
        have ht : t.kind = .defKeyword := by simpa using hdef
        refine .cons ?_ (programAfter_definition ht)
        refine .symbol (opensProgram_keyword ht) ?_
        rintro name r₁ rfl hname
        refine .symbol (opensProgram_name ht hname) ?_
        rintro colon r₂ rfl hcolon
        refine .bind (stops_readType r₂) (takes_readType r₂)
          (fun _ _ _ hopen => opensProgram_type ht hname hcolon hopen) ?_
        rintro a us r₃ rfl _ ha
        refine .symbol ?_ ?_
        · rw [List.append_nil]
          exact opensProgram_type ht hname hcolon (.of_whole ⟨a, ha⟩)
        rintro equals r₄ rfl hequals
        refine .bind (stops_readTerm r₄ true) (takes_readTerm r₄)
          (fun _ _ _ hopen => opensProgram_body ht hname hcolon ha hequals hopen) ?_
        rintro x vs r₅ rfl hread hx
        have hlt : r₅.length <
            (t :: name :: colon :: (us ++ equals :: (vs ++ r₅))).length := by
          simp only [List.length_cons, List.length_append]
          omega
        obtain ⟨_, _, _, hchain, hargs⟩ := derives_of_readTerm _ hread
        refine (ih r₅.length hlt _ r₅ rfl).mono fun front rest hsplit hopen => ?_
        refine opensProgram_define ht hname hcolon ha hequals hx ?_ hopen
        -- a program that goes on begins with the token that ended the body
        intro next hnext
        obtain ⟨ws, rfl⟩ := List.head?_eq_some_iff.mp hnext
        subst hsplit
        exact endsBody_of_ends hchain hargs

end

end TypedLambda.Parser
