import TypedLambda.Proofs.Syntax.Asking
import TypedLambda.Proofs.Syntax.FirstError

/-!
# How often the parser asks for a token

If a source replays a list of tokens and then gives the end of input for ever, the parser that asks
the source ends, with what the parser reads from the list and after as many calls as `Parsed.reads`
says: `Program.ask_eq_parse`. From this and from what is read as a program follows how many calls
there are: `Program.ask_ends`.

Some functions call one another without using up a token, but every cycle of calls uses one up. Each
fact about a function therefore takes the facts about fewer tokens as hypotheses, or about no more
tokens where the call is not part of a cycle. No function goes beyond an end of input but the one
that reads the last symbol of a program (`Asking.endsAs_end`).
-/

namespace TypedLambda

theorem Parser.readTerm_nil (inBody : Bool) : readTerm inBody [] = readBinary 1 inBody [] := by
  rw [readBinary_eq, readApplication_eq, readTerm, term, readAtom, atom]
  rfl

theorem Parser.programAfter_eq_end {definitions : List Definition} {ts : List Token}
    (h : (current ts).kind ≠ .defKeyword) :
    programAfter definitions ts = (do
      let main ← readTerm false ts
      if (current main.2).kind = .eof then do
        legal main.2.tail
        pure (⟨definitions, main.1⟩, main.2)
      else
        reject main.2 (current main.2).pos
          (.expectedToken .eof .endOfProgram (current main.2))) := by
  have hhead : ∀ t ∈ ts.head?, t.kind ≠ .defKeyword := by
    intro t ht
    cases ts with
    | nil => cases ht
    | cons u us =>
      cases ht
      exact h
  rw [programAfter_main hhead, mainTerm_eq]
  cases readTerm false ts with
  | error e => rfl
  | ok main =>
    simp only [ok_bind]
    by_cases heof : (current main.2).kind = .eof
    · rw [if_pos heof, if_pos heof]
      cases legal main.2.tail <;> rfl
    · rw [if_neg heof, if_neg heof]
      rfl

theorem Parser.EndsChain.current {least : Nat} {inBody : Bool} {ts : List Token}
    (h : EndsChain least inBody ts) (hpos : 0 < least) :
    (least ≤ (Parser.current ts).kind.precedence && !endsBody inBody (Parser.current ts)) =
      false := by
  cases ts with
  | nil =>
    have hlt : (Parser.current []).kind.precedence < least := hpos
    simp [Nat.not_le.mpr hlt]
  | cons t r =>
    show (least ≤ t.kind.precedence && !endsBody inBody t) = false
    rcases h t rfl with hlt | hends
    · simp [Nat.not_le.mpr hlt]
    · simp [hends]

theorem Parser.EndsArguments.current {inBody : Bool} {ts : List Token}
    (h : EndsArguments inBody ts) :
    ((Parser.current ts).kind.beginsArgument && !endsBody inBody (Parser.current ts)) = false := by
  cases ts with
  | nil => rfl
  | cons t r =>
    show (t.kind.beginsArgument && !endsBody inBody t) = false
    rcases h t rfl with hbegins | hends
    · simp [hbegins]
    · simp [hends]

namespace Asking

open TypedLambda.Parser (legal readType readAtomType readTerm readBinary readChain readApplication
  readArguments readAtom readDefinition EndsChain EndsArguments length_lt_of_forget)
open Readers (within)

variable {source : Nat → Token} {all ts : List Token} {t : Token} {r : List Token}

/-! ## Types -/

abbrev FollowsType (source : Nat → Token) (all ts : List Token) : Prop :=
  ts <:+ all → Follows all (fun n => (within source n).type) ts (readType ts)

theorem follows_atomType (hsource : Replays source all)
    (ih : ∀ us : List Token, us.length < ts.length → FollowsType source all us)
    (hts : ts <:+ all) :
    Follows all (fun n => (within source n).atomType) ts (readAtomType ts) := by
  refine .of_succ ?_
  cases ts with
  | nil =>
    rw [readAtomType, Parser.atomType]
    exact .current (.reject _ _)
  | cons t r =>
    refine .currentCons ?_
    cases hkind : t.kind with
    | ident =>
      rw [Parser.readAtomType_ident hkind]
      cases Ty.ofName? t.data with
      | none => exact .reject _ _
      | some base => exact .next hsource hts (by simp [hkind]) fun hr => .pure hr base
    | leftParen =>
      rw [Parser.readAtomType_paren hkind]
      refine .next hsource hts (by simp [hkind]) fun hr => ?_
      refine .bind (ih r (Nat.lt_succ_self _) hr) fun a r₁ _ hr₁ => ?_
      exact .bind (.symbol hsource hr₁ (by decide) _) fun _ r₂ _ hr₂ => .pure hr₂ a
    | _ =>
      rw [readAtomType, Parser.atomType]
      simp only [hkind]
      exact .reject _ _

theorem follows_type (hsource : Replays source all) (ts : List Token) :
    FollowsType source all ts := by
  induction hl : ts.length using Nat.strongRecOn generalizing ts with
  | ind l ih =>
    subst hl
    intro hts
    rw [Parser.readType_eq]
    refine .of_succ (.bind (follows_atomType hsource (fun us hus => ih _ hus us rfl) hts) ?_)
    intro a r₁ ha hr₁
    cases r₁ with
    | nil => exact .current (.pure hr₁ a)
    | cons t r₂ =>
      refine .currentCons ?_
      by_cases harrow : t.kind = .rightArrow
      · simp only [if_pos harrow]
        have hlt : r₂.length < ts.length := Nat.lt_of_succ_lt (length_lt_of_forget ha)
        refine .next hsource hr₁ (by simp [harrow]) fun hr₂ => ?_
        exact .bind (ih r₂.length hlt r₂ rfl hr₂) fun b r₃ _ hr₃ => .pure hr₃ (Ty.fn a b)
      · simp only [if_neg harrow]
        exact .pure hr₁ a

/-! ## Terms -/

section

variable {inBody : Bool} {least : Nat}

abbrev FollowsTerm (source : Nat → Token) (all ts : List Token) : Prop :=
  ∀ inBody, ts <:+ all →
    Follows all (fun n => (within source n).term inBody) ts (readTerm inBody ts)

abbrev FollowsAtom (source : Nat → Token) (all ts : List Token) : Prop :=
  ts <:+ all → Follows all (fun n => (within source n).atom) ts (readAtom ts)

abbrev FollowsBinary (source : Nat → Token) (all ts : List Token) : Prop :=
  ∀ least inBody, 0 < least → ts <:+ all →
    Follows all (fun n => (within source n).binary least inBody) ts (readBinary least inBody ts)

theorem follows_atom (hsource : Replays source all)
    (ih : ∀ us : List Token, us.length < ts.length → FollowsTerm source all us) :
    FollowsAtom source all ts := by
  intro hts
  refine .of_succ ?_
  cases ts with
  | nil =>
    rw [readAtom, Parser.atom]
    exact .current (.reject _ _)
  | cons t r =>
    refine .currentCons ?_
    cases hkind : t.kind with
    | number =>
      rw [Parser.readAtom_number hkind]
      refine .next hsource hts (by simp [hkind]) fun hr => ?_
      cases Numeral.value? t.data with
      | none => exact .reject _ _
      | some n => exact .pure hr _
    | string =>
      rw [Parser.readAtom_string hkind]
      cases Text.literalBytes? t.data with
      | none => exact .reject _ _
      | some bytes => exact .next hsource hts (by simp [hkind]) fun hr => .pure hr _
    | trueKeyword =>
      rw [Parser.readAtom_true hkind]
      exact .next hsource hts (by simp [hkind]) fun hr => .pure hr _
    | falseKeyword =>
      rw [Parser.readAtom_false hkind]
      exact .next hsource hts (by simp [hkind]) fun hr => .pure hr _
    | ident =>
      rw [Parser.readAtom_var hkind]
      exact .next hsource hts (by simp [hkind]) fun hr => .pure hr _
    | leftParen =>
      rw [Parser.readAtom_paren hkind]
      refine .next hsource hts (by simp [hkind]) fun hr => ?_
      refine .bind (ih r (Nat.lt_succ_self _) false hr) fun x r₁ _ hr₁ => ?_
      exact .bind (.symbol hsource hr₁ (by decide) _) fun _ r₂ _ hr₂ => .pure hr₂ x
    | _ =>
      rw [Parser.readAtom_eq_reject (by rw [hkind]; rfl)]
      exact .reject _ _

theorem follows_arguments {func : Term}
    (hatom : ∀ us : List Token, us.length ≤ ts.length → FollowsAtom source all us)
    (hts : ts <:+ all) :
    Follows all (fun n => (within source n).arguments inBody func) ts
      (readArguments inBody func ts) := by
  induction hl : ts.length using Nat.strongRecOn generalizing ts func with
  | ind l ih =>
    subst hl
    refine .of_succ ?_
    -- The end of input begins no argument, so the loop stops there at the latest.
    by_cases hends : EndsArguments inBody ts
    · rw [hends.readArguments_eq]
      refine .current ?_
      rw [hends.current]
      exact .pure hts func
    · obtain ⟨t, r₁, rfl, hbegins, hbody⟩ := Parser.exists_of_not_endsArguments hends
      rw [Parser.readArguments_argument hbegins hbody]
      refine .currentCons ?_
      simp only [hbegins, hbody, Bool.not_false, Bool.and_self, if_true]
      refine .bind (hatom _ (Nat.le_refl _) hts) fun arg r₂ harg hr₂ => ?_
      have hlt : r₂.length < (t :: r₁).length := length_lt_of_forget harg
      exact ih r₂.length hlt (fun us hus => hatom us (Nat.le_trans hus (Nat.le_of_lt hlt))) hr₂ rfl

theorem follows_application
    (hatom : ∀ us : List Token, us.length ≤ ts.length → FollowsAtom source all us)
    (hts : ts <:+ all) :
    Follows all (fun n => (within source n).application inBody) ts (readApplication inBody ts) := by
  rw [Parser.readApplication_eq]
  refine .of_succ (.bind (hatom ts (Nat.le_refl _) hts) fun func r₁ hfunc hr₁ => ?_)
  have hle : r₁.length ≤ ts.length := Nat.le_of_lt (length_lt_of_forget hfunc)
  exact follows_arguments (fun us hus => hatom us (Nat.le_trans hus hle)) hr₁

theorem follows_chain {left : Term} (hsource : Replays source all) (hpos : 0 < least)
    (hbinary : ∀ us : List Token, us.length < ts.length → FollowsBinary source all us)
    (hts : ts <:+ all) :
    Follows all (fun n => (within source n).chain least inBody left) ts
      (readChain least inBody left ts) := by
  induction hl : ts.length using Nat.strongRecOn generalizing ts left with
  | ind l ih =>
    subst hl
    refine .of_succ ?_
    by_cases hends : EndsChain least inBody ts
    · rw [hends.readChain_eq]
      refine .current ?_
      rw [hends.current hpos]
      cases (Parser.current ts).kind.operator? with
      | none => exact .pure hts left
      | some op => exact .pure hts left
    · obtain ⟨t, r₁, rfl, hleast, hbody⟩ := Parser.exists_of_not_endsChain hends
      obtain ⟨op, hop⟩ := Parser.exists_operator (Nat.lt_of_lt_of_le hpos hleast)
      have heof : t.kind ≠ .eof := by
        intro heof
        rw [heof] at hop
        cases hop
      rw [Parser.readChain_operator hop hleast hbody]
      refine .currentCons ?_
      simp only [hop, hleast, hbody, decide_true, Bool.not_false, Bool.and_self, if_true]
      refine .next hsource hts heof fun hr₁ => ?_
      refine .bind (hbinary r₁ (Nat.lt_succ_self _) _ _ (Nat.succ_pos _) hr₁) ?_
      intro right r₂ hright hr₂
      have hlt : r₂.length < (t :: r₁).length := Nat.lt_succ_of_lt (length_lt_of_forget hright)
      exact ih r₂.length hlt (fun us hus => hbinary us (Nat.lt_trans hus hlt)) hr₂ rfl

theorem follows_binary (hsource : Replays source all)
    (hatom : ∀ us : List Token, us.length ≤ ts.length → FollowsAtom source all us) :
    FollowsBinary source all ts := by
  induction hl : ts.length using Nat.strongRecOn generalizing ts with
  | ind l ih =>
    subst hl
    intro least inBody hpos hts
    rw [Parser.readBinary_eq]
    refine .of_succ (.bind (follows_application hatom hts) fun left r₁ hleft hr₁ => ?_)
    refine follows_chain hsource hpos (fun us hus => ?_) hr₁
    have hlt : us.length < ts.length := Nat.lt_trans hus (length_lt_of_forget hleft)
    exact ih us.length hlt (fun vs hvs => hatom vs (Nat.le_trans hvs (Nat.le_of_lt hlt))) rfl

section

variable (hsource : Replays source all)
  (ih : ∀ us : List Token, us.length < (t :: r).length → FollowsTerm source all us)
  (hts : t :: r <:+ all)

include hsource ih hts

theorem follows_term_lam (ht : t.kind = .backslash) :
    Follows all (fun n => (within source n).term inBody) (t :: r) (readTerm inBody (t :: r)) := by
  rw [Parser.readTerm_lam ht]
  refine .of_succ (.currentCons ?_)
  simp only [ht]
  refine .next hsource hts (by simp [ht]) fun hr => ?_
  refine .bind (.symbol hsource hr (by decide) _) fun param r₁ hparam hr₁ => ?_
  refine .bind (.symbol hsource hr₁ (by decide) _) fun colon r₂ hcolon hr₂ => ?_
  refine .bind (follows_atomType hsource (fun us _ => follows_type hsource us) hr₂) ?_
  intro a r₃ ha hr₃
  refine .bind (.symbol hsource hr₃ (by decide) _) fun arrow r₄ harrow hr₄ => ?_
  have hlt : r₄.length < (t :: r).length := by
    calc r₄.length < r₃.length := length_lt_of_forget harrow
      _ < r₂.length := length_lt_of_forget ha
      _ < r₁.length := length_lt_of_forget hcolon
      _ < r.length := length_lt_of_forget hparam
      _ < (t :: r).length := Nat.lt_succ_self _
  exact .bind (ih r₄ hlt inBody hr₄) fun _ r₅ _ hr₅ => .pure hr₅ _

theorem follows_term_letIn (ht : t.kind = .letKeyword) :
    Follows all (fun n => (within source n).term inBody) (t :: r) (readTerm inBody (t :: r)) := by
  rw [Parser.readTerm_letIn ht]
  refine .of_succ (.currentCons ?_)
  simp only [ht]
  refine .next hsource hts (by simp [ht]) fun hr => ?_
  refine .bind (.symbol hsource hr (by decide) _) fun name r₁ hname hr₁ => ?_
  refine .bind (.symbol hsource hr₁ (by decide) _) fun equals r₂ hequals hr₂ => ?_
  have hltBound : r₂.length < (t :: r).length :=
    Nat.lt_succ_of_lt (Nat.lt_trans (length_lt_of_forget hequals) (length_lt_of_forget hname))
  refine .bind (ih r₂ hltBound inBody hr₂) fun bound r₃ hbound hr₃ => ?_
  refine .bind (.symbol hsource hr₃ (by decide) _) fun keyword r₄ hkeyword hr₄ => ?_
  have hltBody : r₄.length < (t :: r).length := Nat.lt_trans (length_lt_of_forget hkeyword)
    (Nat.lt_trans (length_lt_of_forget hbound) hltBound)
  exact .bind (ih r₄ hltBody inBody hr₄) fun _ r₅ _ hr₅ => .pure hr₅ _

theorem follows_term_ite (ht : t.kind = .ifKeyword) :
    Follows all (fun n => (within source n).term inBody) (t :: r) (readTerm inBody (t :: r)) := by
  rw [Parser.readTerm_ite ht]
  refine .of_succ (.currentCons ?_)
  simp only [ht]
  refine .next hsource hts (by simp [ht]) fun hr => ?_
  refine .bind (ih r (Nat.lt_succ_self _) inBody hr) fun cond r₁ hcond hr₁ => ?_
  refine .bind (.symbol hsource hr₁ (by decide) _) fun keywordThen r₂ hthen hr₂ => ?_
  have hltYes : r₂.length < (t :: r).length :=
    Nat.lt_succ_of_lt (Nat.lt_trans (length_lt_of_forget hthen) (length_lt_of_forget hcond))
  refine .bind (ih r₂ hltYes inBody hr₂) fun yes r₃ hyes hr₃ => ?_
  refine .bind (.symbol hsource hr₃ (by decide) _) fun keywordElse r₄ helse hr₄ => ?_
  have hltNo : r₄.length < (t :: r).length := Nat.lt_trans (length_lt_of_forget helse)
    (Nat.lt_trans (length_lt_of_forget hyes) hltYes)
  exact .bind (ih r₄ hltNo inBody hr₄) fun _ r₅ _ hr₅ => .pure hr₅ _

end

theorem follows_term (hsource : Replays source all) (ts : List Token) :
    FollowsTerm source all ts := by
  induction hl : ts.length using Nat.strongRecOn generalizing ts with
  | ind l ih =>
    subst hl
    replace ih : ∀ us : List Token, us.length < ts.length → FollowsTerm source all us :=
      fun us hus => ih us.length hus us rfl
    intro inBody hts
    -- An atom may begin where the term does, but the term in its parentheses has fewer tokens.
    have hatom : ∀ us : List Token, us.length ≤ ts.length → FollowsAtom source all us :=
      fun us hus => follows_atom hsource fun vs hvs => ih vs (Nat.lt_of_lt_of_le hvs hus)
    have hbinary := follows_binary hsource hatom 1 inBody (by decide) hts
    cases ts with
    | nil =>
      rw [Parser.readTerm_nil]
      exact .of_succ (.current hbinary)
    | cons t r =>
      by_cases hlam : t.kind = .backslash
      · exact follows_term_lam hsource ih hts hlam
      by_cases hlet : t.kind = .letKeyword
      · exact follows_term_letIn hsource ih hts hlet
      by_cases hif : t.kind = .ifKeyword
      · exact follows_term_ite hsource ih hts hif
      rw [Parser.readTerm_binary hlam hlet hif]
      refine .of_succ (.currentCons ?_)
      split
      · next h => exact absurd h hlam
      · next h => exact absurd h hlet
      · next h => exact absurd h hif
      · exact hbinary

end

/-! ## Programs -/

theorem follows_definition (hsource : Replays source all) (hts : ts <:+ all) :
    Follows all (fun n => (within source n).definition source) ts (readDefinition ts) := by
  rw [Parser.readDefinition_eq]
  refine .bind (.symbol hsource hts (by decide) _) fun name r₁ _ hr₁ => ?_
  refine .bind (.symbol hsource hr₁ (by decide) _) fun colon r₂ _ hr₂ => ?_
  refine .bind (follows_type hsource r₂ hr₂) fun declared r₃ _ hr₃ => ?_
  refine .bind (.symbol hsource hr₃ (by decide) _) fun equals r₄ _ hr₄ => ?_
  exact .bind (follows_term hsource r₄ true hr₄) fun _ r₅ _ hr₅ => .pure hr₅ _

/-- The last symbol of a program is the end of input, and what the source gives after it is asked
for too. -/
theorem endsAs_end (hsource : Replays source all) (hts : ts <:+ all) (p : Program) :
    EndsAs all (Past all) (fun _ => symbol source .eof .endOfProgram >>= fun _ => pure p) ts
      (if (Parser.current ts).kind = .eof then legal ts.tail >>= fun _ => pure (p, ts)
      else Parser.reject ts (Parser.current ts).pos
        (.expectedToken .eof .endOfProgram (Parser.current ts))) := by
  have hsymbol : (symbol source .eof .endOfProgram).runFrom (.facing all ts) = _ :=
    runFrom_bind_of_ok runFrom_current
  by_cases heof : (Parser.current ts).kind = .eof
  · rw [if_pos (show (State.facing all ts).token.kind = .eof from heof)] at hsymbol
    rw [if_pos heof]
    have hlen : ts.length ≤ all.length := hts.length_le
    rcases hsource.legal_or_illegal hts with ⟨hkind, hlegal⟩ | ⟨htoken, hillegal⟩
    · rw [runFrom_bind_of_ok (runFrom_next_of_legal hkind)] at hsymbol
      have hasked : all.length + 1 - ts.length + 1 = all.length + 2 - ts.length := by omega
      rw [hlegal]
      exact ⟨(State.facing all ts).ask source, hasked, .of_runFrom (runFrom_bind_of_ok hsymbol)⟩
    · -- The list goes on after its end of input, with an illegal token.
      cases ts with
      | nil => cases hillegal
      | cons t r =>
        rw [runFrom_bind_of_error (runFrom_next_of_illegal htoken hillegal),
          State.ask_facing_of_token hts htoken] at hsymbol
        rw [legal, if_pos hillegal]
        exact Settles.of_runFrom (runFrom_bind_of_error hsymbol)
  · rw [if_neg (show (State.facing all ts).token.kind ≠ .eof from heof)] at hsymbol
    rw [if_neg heof]
    exact Settles.of_runFrom (runFrom_bind_of_error hsymbol)

theorem endsAs_programAfter (hsource : Replays source all) (definitions : List Definition)
    (hts : ts <:+ all) :
    EndsAs all (Past all) (fun n => (within source n).programAfter definitions) ts
      (Parser.programAfter definitions ts) := by
  induction hl : ts.length using Nat.strongRecOn generalizing ts definitions with
  | ind l ih =>
    subst hl
    refine .of_succ (.current ?_)
    by_cases hdef : (Parser.current ts).kind = .defKeyword
    · simp only [if_pos hdef]
      cases ts with
      | nil => cases hdef
      | cons t r =>
        have ht : t.kind = .defKeyword := hdef
        rw [Parser.programAfter_define ht]
        refine .next hsource hts (by simp [ht]) fun hr => ?_
        refine .bind (follows_definition hsource hr) fun d r₁ hd hr₁ => ?_
        exact ih r₁.length (Nat.lt_succ_of_lt (length_lt_of_forget hd)) _ hr₁ rfl
    · simp only [if_neg hdef]
      rw [Parser.programAfter_eq_end hdef]
      refine .bind (follows_term hsource ts false hts) fun main rest _ hrest => ?_
      exact endsAs_end hsource hrest _

end Asking

/-! ## Calls -/

namespace Program

/-- **Asking is reading**: from a source that replays the tokens, the parser gives what it reads
from the list of them, after as many calls. -/
theorem ask_eq_parse {source : Nat → Token} {all : List Token} (hsource : Replays source all) :
    ∃ least, ∀ levels, least ≤ levels → Program.ask source levels = some (Program.parse all) := by
  have hstart : Asking.State.start.ask source = .facing all all := by
    simp [Asking.State.ask, Asking.State.start, Asking.State.facing, hsource.first]
  rw [parse_eq]
  rcases Asking.runFrom_next_of_ask hstart with ⟨hlegal, hrun⟩ | ⟨e, hlegal, hrun⟩
  · obtain ⟨least, hleast⟩ :=
      (Asking.endsAs_programAfter hsource [] (List.suffix_refl all)).ofRun
    refine ⟨least, fun levels hlevels => ?_⟩
    rw [hlegal, ask, Asking.runFrom_bind_of_ok hrun]
    exact hleast levels hlevels
  · refine ⟨0, fun levels _ => ?_⟩
    rw [hlegal, ask, Asking.runFrom_bind_of_error hrun]
    rfl

/-- Before an end of input, the parser asks for that end of input and for one token more if it reads
a program and meets no end of input before. -/
theorem reads_of_parse (ts : List Token) {e : Token} (he : e.kind = .eof) :
    (parse (ts ++ [e])).reads ≤ ts.length + 2 ∧
      ∀ p, (parse (ts ++ [e])).result = .ok p → (∀ t ∈ ts, t.kind ≠ .eof) →
        (parse (ts ++ [e])).reads = ts.length + 2 := by
  have hlength : (ts ++ [e]).length = ts.length + 1 := List.length_append
  rw [parse_eq]
  cases hread : Parser.legal (ts ++ [e]) >>= fun _ => Parser.programAfter [] (ts ++ [e]) with
  | error r =>
    refine ⟨?_, fun p hp => by cases hp⟩
    show (ts ++ [e]).length + 1 - r.rest.length ≤ ts.length + 2
    omega
  | ok q =>
    obtain ⟨p, rest⟩ := q
    show (ts ++ [e]).length + 2 - rest.length ≤ ts.length + 2 ∧
      ∀ q, Except.ok p = .ok q → _ → (ts ++ [e]).length + 2 - rest.length = ts.length + 2
    obtain ⟨_, _, hprogram⟩ := Parser.bind_eq_ok hread
    obtain ⟨used, q, hsplit, heof, hq, _⟩ := Parser.exists_derivesProgram_of_programAfter hprogram
    obtain ⟨back, rfl, rfl⟩ := split_of_opens (List.forall_mem_singleton.mpr he)
      (Grammar.Opens.of_whole ⟨q, hq⟩) hsplit
    have hrest : (back ++ [e]).length = back.length + 1 := List.length_append
    refine ⟨by omega, fun _ _ hfree => ?_⟩
    cases back with
    | nil =>
      rw [hlength]
      rfl
    | cons t back => exact absurd heof (hfree t (by simp))

end Program

/-- A source that has the tokens of the list, and after them the end of input, replays the list if
the first end of input after them is the one that every list has, or if the list has an end of input
of its own as its last token. -/
theorem Replays.of_agrees {source : Nat → Token} {all : List Token}
    (hagrees : ∀ i t, all[i]? = some t → source i = t)
    (hend : ∀ i, all.length ≤ i → (source i).kind = .eof)
    (hlast : source all.length = Parser.current [] ∨ ∃ e, all.getLast? = some e ∧ e.kind = .eof) :
    Replays source all := by
  refine ⟨?_, fun {ts} hts => ?_⟩
  · cases all with
    | nil =>
      rcases hlast with hzero | ⟨e, he, _⟩
      · exact hzero
      · cases he
    | cons t r => exact hagrees 0 t rfl
  · obtain ⟨front, rfl⟩ := hts
    have hindex : (front ++ ts).length + 1 - ts.length = front.length + 1 := by
      rw [List.length_append]
      omega
    rw [hindex]
    rcases ts with _ | ⟨u, _ | ⟨v, r⟩⟩
    · exact .inr ⟨rfl, rfl, hend _ (by simp)⟩
    · rcases hlast with hzero | ⟨e, he, hkind⟩
      · rw [List.length_append] at hzero
        exact .inl hzero
      · rw [List.getLast?_concat] at he
        obtain rfl := Option.some.inj he
        exact .inr ⟨hkind, rfl, hend _ (by simp)⟩
    · exact .inl (hagrees _ v (by simp))

theorem Replays.of_agrees_end {source : Nat → Token} {ts : List Token}
    (hts : ∀ i t, ts[i]? = some t → source i = t)
    (hend : ∀ i, ts.length ≤ i → (source i).kind = .eof) :
    Replays source (ts ++ [source ts.length]) := by
  refine .of_agrees (fun i t ht => ?_) (fun i hi => hend i ?_)
    (.inr ⟨_, List.getLast?_concat, hend ts.length (Nat.le_refl _)⟩)
  · rcases Nat.lt_or_ge i ts.length with hlt | hge
    · rw [List.getElem?_append_left hlt] at ht
      exact hts i t ht
    · rw [List.getElem?_append_right hge] at ht
      obtain ⟨hzero, rfl⟩ : i - ts.length = 0 ∧ source ts.length = t := by
        simpa [List.getElem?_singleton] using ht
      congr 1
      omega
  · rw [List.length_append] at hi
    omega

/-- **The parser ends without backtracking.** Let a source give the tokens of a list, of any kinds
and with any places and data, and then the end of input for ever. With enough levels, the parser
ends after at most two calls more than the list has tokens, and after exactly so many if it reads a
program and the list holds no end of input. What it gives is what is read from the list, with the
first end of input after it as a last token; that token can be left out if it has neither a place
nor data. -/
theorem Program.ask_ends (ts : List Token) (source : Nat → Token)
    (hts : ∀ i t, ts[i]? = some t → source i = t)
    (hend : ∀ i, ts.length ≤ i → (source i).kind = .eof) :
    ∃ parsed, (∃ least, ∀ levels, least ≤ levels → Program.ask source levels = some parsed) ∧
      parsed.reads ≤ ts.length + 2 ∧
      (∀ p, parsed.result = .ok p → (∀ t ∈ ts, t.kind ≠ .eof) → parsed.reads = ts.length + 2) ∧
      parsed = Program.parse (ts ++ [source ts.length]) ∧
      (source ts.length = .endAt ⟨0, 0, 0⟩ → parsed = Program.parse ts) := by
  have heof : (source ts.length).kind = .eof := hend ts.length (Nat.le_refl _)
  have hwhole : Replays source (ts ++ [source ts.length]) := .of_agrees_end hts hend
  obtain ⟨hle, heq⟩ := reads_of_parse ts heof
  refine ⟨_, ask_eq_parse hwhole, hle, heq, rfl, fun hzero => ?_⟩
  have hlist : Replays source ts := .of_agrees hts hend (.inl hzero)
  obtain ⟨least, hwhole⟩ := ask_eq_parse hwhole
  obtain ⟨least', hlist⟩ := ask_eq_parse hlist
  refine Option.some.inj ?_
  rw [← hwhole _ (Nat.le_max_left least least'), hlist _ (Nat.le_max_right least least')]

/-- The tokens of `1 + n`. -/
def Token.sum : List Token :=
  [.standingAt 1 1 .number "1", .standingAt 1 3 .plus "", .standingAt 1 5 .ident "n"]

theorem Program.ask_ends_sum :
    let source := fun i => Token.sum.getD i (.endAt ⟨5, 1, 6⟩)
    let p : Program := ⟨[], .bin .add (.lit (.int 1)) (.var "n")⟩
    (∀ i t, Token.sum[i]? = some t → source i = t) ∧
      (∀ i, Token.sum.length ≤ i → (source i).kind = .eof) ∧ (∀ t ∈ Token.sum, t.kind ≠ .eof) ∧
      ∃ least, ∀ levels, least ≤ levels → Program.ask source levels = some ⟨5, .ok p⟩ := by
  intro source p
  have hts : ∀ i t, Token.sum[i]? = some t → source i = t := by
    intro i t ht
    simp [source, List.getD, ht]
  have hend : ∀ i, Token.sum.length ≤ i → (source i).kind = .eof := by
    intro i hi
    simp [source, List.getD, List.getElem?_eq_none hi, Token.endAt]
  have hfree : ∀ t ∈ Token.sum, t.kind ≠ .eof := by decide
  have hsum : Grammar.Derives (.term false)
      ([.standingAt 1 1 .number "1"] ++ .standingAt 1 3 .plus "" :: [.standingAt 1 5 .ident "n"])
      p.main := by
    refine .chain (Parser.derives_of_le (by decide) (.operator ?_ .add (by rintro ⟨⟩) ?_))
    · exact Parser.derives_of_le (by decide) (.operand (.single (.number rfl (by decide))))
    · exact Parser.derives_of_le (by decide) (.operand (.single (.var rfl)))
  have hp : Grammar.DerivesProgram Token.sum p := .main hsum
  have hresult : (Program.parse (Token.sum ++ [source Token.sum.length])).result = .ok p := by
    rw [parse_eq, Parser.legal_append_of_derivesProgram hp, Parser.ok_bind,
      Parser.programAfter_append_of_derivesProgram hp rfl rfl]
    rfl
  obtain ⟨⟨reads, result⟩, hask, _, hreads, hparsed, _⟩ := Program.ask_ends _ source hts hend
  obtain rfl : result = .ok p := (congrArg Parsed.result hparsed).trans hresult
  obtain rfl : reads = 5 := hreads p rfl hfree
  exact ⟨hts, hend, hfree, hask⟩

end TypedLambda
