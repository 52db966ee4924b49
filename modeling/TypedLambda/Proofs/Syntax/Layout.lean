import TypedLambda.Proofs.Syntax.Image

/-!
# The layout of definitions

What column 1 means in the body of a definition. The rule one would expect is `Indented`: outside
parentheses no token of a body stands in column 1. It does not hold of every program that is read
(`Program.ofFile_unindented`), since a token in column 1 is refused only where it would go on with
what is complete: as an operator, or as the first token of an argument. The tokens that stand in
column 1 all the same are those that separate the parts of a term, and those that begin a part which
the token before them demands (`Program.bodies_of_ofFile`).

Parentheses are counted. A phrase of the grammar closes what it opens and never more
(`Derives.nested`), so that inside parentheses the count is positive, and what is said about the
tokens outside them is said of the parts of a phrase one after the other (`Grammar.laid_append`).
-/

namespace TypedLambda

/-- Whether a name, a type or a term has to begin after a token of this kind. -/
def TokenKind.demandsMore : TokenKind → Bool
  | equals => true
  | colon => true
  | backslash => true
  | rightArrow => true
  | letKeyword => true
  | inKeyword => true
  | ifKeyword => true
  | thenKeyword => true
  | elseKeyword => true
  | kind => kind.isBinary

/-- Whether a token of this kind stands between the parts of a term. -/
def TokenKind.separates : TokenKind → Bool
  | equals => true
  | colon => true
  | rightArrow => true
  | inKeyword => true
  | thenKeyword => true
  | elseKeyword => true
  | _ => false

namespace Grammar

/-! ## Parentheses -/

/-- How a token of a kind changes the number of open parentheses. -/
def turn : TokenKind → Int
  | .leftParen => 1
  | .rightParen => -1
  | _ => 0

/-- The number of parentheses that some tokens open and do not close. -/
def depth : List Token → Int
  | [] => 0
  | t :: ts => turn t.kind + depth ts

theorem depth_append (ts us : List Token) : depth (ts ++ us) = depth ts + depth us := by
  induction ts with
  | nil => simp [depth]
  | cons t ts ih =>
    rw [List.cons_append, depth, depth, ih]
    omega

/-- With `d` parentheses open before them, the tokens never close one that is not open. -/
def Above : Int → List Token → Prop
  | d, [] => 0 ≤ d
  | d, t :: ts => 0 ≤ d ∧ Above (d + turn t.kind) ts

theorem Above.nonneg {d : Int} {ts : List Token} (h : Above d ts) : 0 ≤ d := by
  cases ts with
  | nil => exact h
  | cons t ts => exact h.1

theorem above_append {d : Int} {ts us : List Token} :
    Above d (ts ++ us) ↔ Above d ts ∧ Above (d + depth ts) us := by
  induction ts generalizing d with
  | nil =>
    rw [List.nil_append, depth, Int.add_zero]
    exact ⟨fun h => ⟨h.nonneg, h⟩, fun h => h.2⟩
  | cons t ts ih =>
    rw [List.cons_append, Above, Above, ih, depth, Int.add_assoc, and_assoc]

theorem Above.mono {d e : Int} {ts : List Token} (h : Above d ts) (hle : d ≤ e) : Above e ts := by
  induction ts generalizing d e with
  | nil => exact Int.le_trans h hle
  | cons t ts ih => exact ⟨Int.le_trans h.1 hle, ih h.2 (by omega)⟩

/-- The tokens close the parentheses that they open and no others. -/
structure Nested (ts : List Token) : Prop where
  depth_eq : depth ts = 0
  above : Above 0 ts

namespace Nested

variable {t left right : Token} {ts us : List Token}

theorem nil : Nested [] := ⟨rfl, Int.le_refl 0⟩

theorem append (hts : Nested ts) (hus : Nested us) : Nested (ts ++ us) := by
  refine ⟨?_, above_append.mpr ⟨hts.above, ?_⟩⟩
  · rw [depth_append, hts.depth_eq, hus.depth_eq]
    rfl
  · rw [hts.depth_eq]
    exact hus.above

theorem cons (ht : turn t.kind = 0) (h : Nested ts) : Nested (t :: ts) := by
  refine ⟨?_, Int.le_refl 0, ?_⟩
  · rw [depth, ht, h.depth_eq]
    rfl
  · rw [ht]
    exact h.above

theorem single (ht : turn t.kind = 0) : Nested [t] := nil.cons ht

theorem paren (hleft : left.kind = .leftParen) (h : Nested ts) (hright : right.kind = .rightParen) :
    Nested (left :: (ts ++ [right])) := by
  have hopen : turn left.kind = 1 := by rw [hleft]; rfl
  have hclose : turn right.kind = -1 := by rw [hright]; rfl
  refine ⟨?_, Int.le_refl 0, above_append.mpr ⟨h.above.mono (by omega), ?_⟩⟩
  · rw [depth, depth_append, h.depth_eq, hopen, depth, depth, hclose]
    rfl
  · rw [h.depth_eq, hopen]
    show (0 : Int) ≤ 1 ∧ (0 : Int) ≤ 1 + turn right.kind
    rw [hclose]
    exact ⟨by omega, by omega⟩

end Nested

theorem turn_of_kind {kind other : TokenKind} (h : kind = other) (hother : turn other = 0) :
    turn kind = 0 := by
  rw [h, hother]

theorem DerivesType.nested {ph : TypePhrase} {ts : List Token} {a : Ty}
    (h : DerivesType ph ts a) : Nested ts := by
  induction h with
  | int hkind | bool hkind | text hkind => exact .single (turn_of_kind hkind rfl)
  | paren hleft _ hright ih => exact .paren hleft ih hright
  | single _ ih => exact ih
  | arrow _ harrow _ ih₁ ih₂ => exact ih₁.append (ih₂.cons (turn_of_kind harrow rfl))

theorem Binds.turn_eq {kind : TokenKind} {op : Operator} {level : Nat} (h : Binds kind op level) :
    turn kind = 0 := by
  cases h <;> rfl

/-- **A phrase closes the parentheses that it opens**, and no others. -/
theorem Derives.nested {ph : Phrase} {ts : List Token} {x : Term} (h : Derives ph ts x) :
    Nested ts := by
  induction h with
  | number hkind | string hkind | true hkind | false hkind | var hkind =>
    exact .single (turn_of_kind hkind rfl)
  | paren hleft _ hright ih => exact .paren hleft ih hright
  | single _ ih | operand _ ih | tighter _ ih | chain _ ih => exact ih
  | app _ _ _ ih₁ ih₂ => exact ih₁.append ih₂
  | operator _ hbinds _ _ ih₁ ih₂ => exact ih₁.append (ih₂.cons hbinds.turn_eq)
  | lam hbackslash hparam hcolon htype harrow _ ih =>
    exact (((htype.nested.append (ih.cons (turn_of_kind harrow rfl))).cons
      (turn_of_kind hcolon rfl)).cons (turn_of_kind hparam rfl)).cons (turn_of_kind hbackslash rfl)
  | letIn hlet hname hequals _ hin _ ih₁ ih₂ =>
    exact (((ih₁.append (ih₂.cons (turn_of_kind hin rfl))).cons
      (turn_of_kind hequals rfl)).cons (turn_of_kind hname rfl)).cons (turn_of_kind hlet rfl)
  | ite hif _ hthen _ helse _ ih₁ ih₂ ih₃ =>
    exact (ih₁.append ((ih₂.append (ih₃.cons (turn_of_kind helse rfl))).cons
      (turn_of_kind hthen rfl))).cons (turn_of_kind hif rfl)

/-! ## Column 1 -/

/-- Whether a token may stand in column 1 right after another: it separates parts of a term, or it
begins a part that the other demands. -/
def MayBegin (last kind : TokenKind) : Prop :=
  kind.separates = true ∨ last.demandsMore = true ∧ kind.isBinary = false

/-- After a token of the kind `last` and with `d` parentheses open, each token that stands in column
1 outside parentheses is one that may. -/
def Laid : Int → TokenKind → List Token → Prop
  | _, _, [] => True
  | d, last, t :: ts =>
    (d = 0 → t.pos.column = 1 → MayBegin last t.kind) ∧ Laid (d + turn t.kind) t.kind ts

def lastKind : TokenKind → List Token → TokenKind
  | kind, [] => kind
  | _, t :: ts => lastKind t.kind ts

theorem lastKind_concat (kind : TokenKind) (ts : List Token) (t : Token) :
    lastKind kind (ts ++ [t]) = t.kind := by
  induction ts generalizing kind with
  | nil => rfl
  | cons s ts ih => exact ih s.kind

theorem lastKind_append (kind : TokenKind) (ts us : List Token) :
    lastKind kind (ts ++ us) = lastKind (lastKind kind ts) us := by
  induction ts generalizing kind with
  | nil => rfl
  | cons t ts ih => exact ih t.kind

theorem laid_append {d : Int} {last : TokenKind} {ts us : List Token} :
    Laid d last (ts ++ us) ↔ Laid d last ts ∧ Laid (d + depth ts) (lastKind last ts) us := by
  induction ts generalizing d last with
  | nil => simp [Laid, depth, lastKind]
  | cons t ts ih =>
    rw [List.cons_append, Laid, Laid, ih, depth, lastKind, Int.add_assoc, and_assoc]

theorem laid_of_above {d : Int} {ts : List Token} (h : Above d ts) (last : TokenKind) :
    Laid (d + 1) last ts := by
  induction ts generalizing d last with
  | nil => exact trivial
  | cons t ts ih =>
    refine ⟨fun hzero => ?_, ?_⟩
    · have hnonneg := h.1
      omega
    · have htail := ih h.2 t.kind
      rwa [Int.add_right_comm] at htail

section

variable {last : TokenKind} {t : Token} {ts us : List Token}

theorem Laid.append (hts : Laid 0 last ts) (hnested : Nested ts)
    (hus : Laid 0 (lastKind last ts) us) :
    Laid 0 last (ts ++ us) := by
  refine laid_append.mpr ⟨hts, ?_⟩
  rwa [hnested.depth_eq]

theorem Laid.left (h : Laid 0 last (ts ++ us)) : Laid 0 last ts := (laid_append.mp h).1

theorem Laid.right (h : Laid 0 last (ts ++ us)) (hnested : Nested ts) :
    Laid 0 (lastKind last ts) us := by
  have hus := (laid_append.mp h).2
  rwa [hnested.depth_eq] at hus

theorem Laid.tail (h : Laid 0 last (t :: ts)) (hturn : turn t.kind = 0) : Laid 0 t.kind ts := by
  have hts := h.2
  rwa [hturn] at hts

theorem laid_separator {kind : TokenKind} (hkind : t.kind = kind)
    (hseparates : kind.separates = true) (hturn : turn kind = 0) (h : Laid 0 kind ts) :
    Laid 0 last (t :: ts) := by
  subst hkind
  refine ⟨fun _ _ => .inl hseparates, ?_⟩
  rwa [hturn]

theorem laid_demanded {kind : TokenKind} (hlast : last.demandsMore = true) (hkind : t.kind = kind)
    (hbinary : kind.isBinary = false) (hturn : turn kind = 0) (h : Laid 0 kind ts) :
    Laid 0 last (t :: ts) := by
  subst hkind
  refine ⟨fun _ _ => .inr ⟨hlast, hbinary⟩, ?_⟩
  rwa [hturn]

theorem Laid.of_column (h : Laid 0 last (t :: ts)) (hcolumn : t.pos.column ≠ 1)
    (other : TokenKind) :
    Laid 0 other (t :: ts) :=
  ⟨fun _ heq => absurd heq hcolumn, h.2⟩

theorem laid_paren {left right : Token} (hlast : last.demandsMore = true)
    (hleft : left.kind = .leftParen) (hts : Nested ts) : Laid 0 last (left :: (ts ++ [right])) := by
  refine ⟨fun _ _ => .inr ⟨hlast, by rw [hleft]; rfl⟩, laid_append.mpr ?_⟩
  rw [hleft, hts.depth_eq]
  exact ⟨laid_of_above hts.above _, fun hzero => absurd hzero (by decide), trivial⟩

theorem DerivesType.laid {a : Ty} (h : DerivesType .atom ts a) (hlast : last.demandsMore = true) :
    Laid 0 last ts := by
  cases h with
  | int hkind | bool hkind | text hkind => exact laid_demanded hlast hkind rfl rfl trivial
  | paren hleft htype _ => exact laid_paren hlast hleft htype.nested

end

theorem Binds.demandsMore {kind : TokenKind} {op : Operator} {level : Nat}
    (h : Binds kind op level) : kind.demandsMore = true := by
  cases h <;> rfl

/-- Whether a phrase stands in the body of a definition, as atoms may. -/
def Phrase.inBody : Phrase → Bool
  | term inBody => inBody
  | binary inBody _ => inBody
  | application inBody => inBody
  | atom => true

/-- **Column 1 in a phrase of a body**, where the token before the phrase demands it. -/
theorem laid_of_derives {ph : Phrase} {ts : List Token} {x : Term} (h : Derives ph ts x)
    (hbody : ph.inBody = true) {last : TokenKind} (hlast : last.demandsMore = true) :
    Laid 0 last ts := by
  induction h generalizing last with
  | number hkind | string hkind | true hkind | false hkind | var hkind =>
    exact laid_demanded hlast hkind rfl rfl trivial
  | paren hleft hinner _ _ => exact laid_paren hlast hleft hinner.nested
  | single _ ih => exact ih rfl hlast
  | operand _ ih | tighter _ ih | chain _ ih => exact ih hbody hlast
  | app hfunc hfirst _ ih₁ ih₂ =>
    -- The argument is laid out as if it were demanded, and its first token is not in column 1.
    have harg : Laid 0 .equals _ := ih₂ rfl rfl
    exact (ih₁ hbody hlast).append hfunc.nested (harg.of_column (hfirst hbody) _)
  | operator hleft hbinds hcontinues _ ih₁ ih₂ =>
    refine (ih₁ hbody hlast).append hleft.nested ⟨fun _ heq => absurd heq (hcontinues hbody), ?_⟩
    rw [hbinds.turn_eq]
    exact ih₂ hbody hbinds.demandsMore
  | lam hbackslash hparam hcolon htype harrow _ ih =>
    refine laid_demanded hlast hbackslash rfl rfl (laid_demanded rfl hparam rfl rfl
      (laid_separator hcolon rfl rfl ((htype.laid rfl).append htype.nested ?_)))
    exact laid_separator harrow rfl rfl (ih hbody rfl)
  | letIn hlet hname hequals hbound hin _ ih₁ ih₂ =>
    refine laid_demanded hlast hlet rfl rfl (laid_demanded rfl hname rfl rfl
      (laid_separator hequals rfl rfl ((ih₁ hbody rfl).append hbound.nested ?_)))
    exact laid_separator hin rfl rfl (ih₂ hbody rfl)
  | ite hif hcond hthen hyes helse _ ih₁ ih₂ ih₃ =>
    refine laid_demanded hlast hif rfl rfl ((ih₁ hbody rfl).append hcond.nested ?_)
    refine laid_separator hthen rfl rfl ((ih₂ hbody rfl).append hyes.nested ?_)
    exact laid_separator helse rfl rfl (ih₃ hbody rfl)

def Phrase.place (inBody : Bool) : Phrase → Phrase
  | term _ => term inBody
  | binary _ level => binary inBody level
  | application _ => application inBody
  | atom => atom

theorem demandsMore_lastKind {ph : Phrase} {ts : List Token} {x : Term} (h : Derives ph ts x)
    (last : TokenKind) : (lastKind last ts).demandsMore = false := by
  induction h generalizing last with
  | number hkind | string hkind | true hkind | false hkind | var hkind =>
    rw [lastKind, lastKind, hkind]
    rfl
  | paren _ _ hright _ =>
    rw [lastKind, lastKind_concat, hright]
    rfl
  | single _ ih | operand _ ih | tighter _ ih | chain _ ih => exact ih last
  | app _ _ _ _ ih₂ | operator _ _ _ _ _ ih₂ =>
    rw [lastKind_append]
    exact ih₂ _
  | lam _ _ _ _ _ _ ih =>
    simp only [lastKind, lastKind_append]
    exact ih _
  | letIn _ _ _ _ _ _ _ ih₂ =>
    simp only [lastKind, lastKind_append]
    exact ih₂ _
  | ite _ _ _ _ _ _ _ _ ih₃ =>
    simp only [lastKind, lastKind_append]
    exact ih₃ _

theorem not_mayBegin_of_beginsArgument {last kind : TokenKind} (hlast : last.demandsMore = false)
    (hkind : kind.beginsArgument = true) : ¬ MayBegin last kind := by
  rintro (hseparates | ⟨hdemands, _⟩)
  · cases kind <;> cases hseparates <;> cases hkind
  · rw [hlast] at hdemands
    cases hdemands

theorem Binds.not_mayBegin {last kind : TokenKind} {op : Operator} {level : Nat}
    (h : Binds kind op level) : ¬ MayBegin last kind := by
  rintro (hseparates | ⟨_, hbinary⟩)
  · cases h <;> cases hseparates
  · cases h <;> cases hbinary

theorem derives_place {ph : Phrase} {ts : List Token} {x : Term} (h : Derives ph ts x)
    {inBody : Bool} {last : TokenKind} (hlaid : inBody = true → Laid 0 last ts) :
    Derives (ph.place inBody) ts x := by
  induction h generalizing last with
  | number hkind hvalue => exact .number hkind hvalue
  | string hkind hvalue => exact .string hkind hvalue
  | true hkind => exact .true hkind
  | false hkind => exact .false hkind
  | var hkind => exact .var hkind
  | paren hleft hinner hright => exact .paren hleft hinner hright
  | single _ ih => exact .single (ih hlaid)
  | app hfunc _ harg ih₁ =>
    refine .app (ih₁ fun hb => (hlaid hb).left) (fun hb hcolumn => ?_) harg
    obtain ⟨first, _, heq, hbegins⟩ := harg.begins
    obtain ⟨rfl, rfl⟩ := List.cons.inj heq
    exact not_mayBegin_of_beginsArgument (demandsMore_lastKind hfunc last) hbegins
      (((hlaid hb).right hfunc.nested).1 rfl hcolumn)
  | operand _ ih => exact .operand (ih hlaid)
  | tighter _ ih => exact .tighter (ih hlaid)
  | operator hleft hbinds _ _ ih₁ ih₂ =>
    refine .operator (ih₁ fun hb => (hlaid hb).left) hbinds (fun hb hcolumn => ?_)
      (ih₂ fun hb => ((hlaid hb).right hleft.nested).tail hbinds.turn_eq)
    exact hbinds.not_mayBegin (((hlaid hb).right hleft.nested).1 rfl hcolumn)
  | chain _ ih => exact .chain (ih hlaid)
  | @lam _ _ _ colon _ _ _ _ _ hbackslash hparam hcolon htype harrow _ ih =>
    have hbegin (hb : inBody = true) : Laid 0 colon.kind _ :=
      (((hlaid hb).tail (turn_of_kind hbackslash rfl)).tail (turn_of_kind hparam rfl)).tail
        (turn_of_kind hcolon rfl)
    exact .lam hbackslash hparam hcolon htype harrow
      (ih fun hb => ((hbegin hb).right htype.nested).tail (turn_of_kind harrow rfl))
  | @letIn _ _ name equals _ _ _ _ _ hlet hname hequals hbound hin _ ih₁ ih₂ =>
    have hbegin (hb : inBody = true) : Laid 0 equals.kind _ :=
      (((hlaid hb).tail (turn_of_kind hlet rfl)).tail (turn_of_kind hname rfl)).tail
        (turn_of_kind hequals rfl)
    exact .letIn hlet hname hequals (ih₁ fun hb => (hbegin hb).left) hin
      (ih₂ fun hb => ((hbegin hb).right hbound.nested).tail (turn_of_kind hin rfl))
  | @ite _ keyword keywordThen _ _ _ _ _ _ _ hif hcond hthen hyes helse _ ih₁ ih₂ ih₃ =>
    have hbegin (hb : inBody = true) : Laid 0 keyword.kind _ :=
      (hlaid hb).tail (turn_of_kind hif rfl)
    have hbranch (hb : inBody = true) : Laid 0 keywordThen.kind _ :=
      ((hbegin hb).right hcond.nested).tail (turn_of_kind hthen rfl)
    exact .ite hif (ih₁ fun hb => (hbegin hb).left) hthen (ih₂ fun hb => (hbranch hb).left) helse
      (ih₃ fun hb => ((hbranch hb).right hyes.nested).tail (turn_of_kind helse rfl))

/-- **The layout rule of bodies**: after the equals sign, tokens are the body of a definition
exactly if they are a term and are laid out so. -/
theorem derives_inBody_iff {us : List Token} {x : Term} :
    Derives (.term true) us x ↔ Derives (.term false) us x ∧ Laid 0 .equals us := by
  constructor
  · intro h
    have hlaid : Laid 0 .equals us := laid_of_derives h rfl rfl
    exact ⟨derives_place h fun _ => hlaid, hlaid⟩
  · rintro ⟨h, hlaid⟩
    exact derives_place h fun _ => hlaid

/-! ## Bodies of a program -/

def Indented (us : List Token) : Prop :=
  ∀ before t after, us = before ++ t :: after → depth before = 0 → t.pos.column ≠ 1

/-- Of the body `us` after the token `equals`, the token `t` stands outside parentheses, and the
token `last` stands right before it. -/
def Outside (equals : Token) (us : List Token) (last t : Token) : Prop :=
  ∃ before after, equals :: us = before ++ last :: t :: after ∧ depth (before ++ [last]) = 0

/-- Somewhere among the tokens stands a definition, of which `us` is the body after the token
`equals`. -/
inductive BodyIn : List Token → Definition → Token → List Token → Prop
  | here {keyword name colon equals next : Token} {ts us rest : List Token} {a : Ty} {x : Term} :
      keyword.kind = .defKeyword → name.kind = .ident → colon.kind = .colon →
      DerivesType .type ts a → equals.kind = .equals → Derives (.term true) us x →
      EndsBody next →
      BodyIn (keyword :: name :: colon :: (ts ++ equals :: (us ++ next :: rest)))
        ⟨name.data, a, x⟩ equals us
  | later {t equals : Token} {ts us : List Token} {d : Definition} :
      BodyIn ts d equals us → BodyIn (t :: ts) d equals us

section

variable {ts us : List Token} {d : Definition} {equals last t : Token}

theorem BodyIn.append_left (h : BodyIn ts d equals us) (front : List Token) :
    BodyIn (front ++ ts) d equals us := by
  induction front with
  | nil => exact h
  | cons t front ih => exact .later ih

theorem DerivesProgram.exists_bodyIn {p : Program} (h : DerivesProgram ts p) (rest : List Token) :
    ∀ d ∈ p.definitions, ∃ equals us, BodyIn (ts ++ rest) d equals us := by
  induction h with
  | main => nofun
  | @define keyword name colon equals _ ts us _ _ _ _ hkeyword hname hcolon htype hequals hbody
      hends _ ih =>
    refine List.forall_mem_cons.mpr ⟨⟨equals, us, ?_⟩, fun d hd => ?_⟩
    · simpa using BodyIn.here hkeyword hname hcolon htype hequals hbody hends
    · obtain ⟨equals', us', hlater⟩ := ih d hd
      refine ⟨equals', us', ?_⟩
      simpa using hlater.append_left (keyword :: name :: colon :: (ts ++ equals :: us))

theorem BodyIn.kind_eq (h : BodyIn ts d equals us) : equals.kind = .equals := by
  induction h with
  | here _ _ _ _ hequals => exact hequals
  | later _ ih => exact ih

theorem BodyIn.derives (h : BodyIn ts d equals us) : Derives (.term true) us d.body := by
  induction h with
  | here _ _ _ _ _ hbody => exact hbody
  | later _ ih => exact ih

theorem BodyIn.mayBegin (h : BodyIn ts d equals us) (hout : Outside equals us last t)
    (hcolumn : t.pos.column = 1) : MayBegin last.kind t.kind := by
  obtain ⟨before, after, hsplit, hdepth⟩ := hout
  have hlaid : Laid 0 .equals (equals :: us) :=
    laid_separator h.kind_eq rfl rfl (derives_inBody_iff.mp h.derives).2
  have happend : before ++ last :: t :: after = (before ++ [last]) ++ t :: after := by simp
  rw [hsplit, happend, laid_append, lastKind_concat, hdepth] at hlaid
  exact hlaid.2.1 rfl hcolumn

theorem BodyIn.exists_outside_iff (h : BodyIn ts d equals us) :
    (∃ last, Outside equals us last t) ↔
      ∃ before after, us = before ++ t :: after ∧ depth before = 0 := by
  have hequals : depth [equals] = 0 := by
    rw [depth, h.kind_eq]
    rfl
  constructor
  · rintro ⟨last, before, after, hsplit, hdepth⟩
    cases before with
    | nil =>
      obtain ⟨rfl, rfl⟩ := List.cons.inj hsplit
      exact ⟨[], after, rfl, rfl⟩
    | cons first before =>
      obtain ⟨rfl, rfl⟩ := List.cons.inj hsplit
      have hcons : depth (equals :: before ++ [last]) = depth [equals] + depth (before ++ [last]) :=
        depth_append [equals] (before ++ [last])
      exact ⟨before ++ [last], after, by simp, by omega⟩
  · rintro ⟨before, after, rfl, hdepth⟩
    obtain ⟨init, last, hinit⟩ : ∃ init last, equals :: before = init ++ [last] :=
      ⟨_, _, (List.dropLast_concat_getLast (List.cons_ne_nil equals before)).symm⟩
    have hcons : depth (equals :: before) = depth [equals] + depth before :=
      depth_append [equals] before
    refine ⟨last, init, after, ?_, ?_⟩
    · rw [← List.cons_append, hinit]
      simp
    · rw [← hinit]
      omega

theorem BodyIn.indented_iff (h : BodyIn ts d equals us) :
    Indented us ↔ ∀ last t, Outside equals us last t → MayBegin last.kind t.kind →
      t.pos.column ≠ 1 := by
  constructor
  · intro hindented last t hout _
    obtain ⟨before, after, hsplit, hdepth⟩ := h.exists_outside_iff.mp ⟨last, hout⟩
    exact hindented before t after hsplit hdepth
  · intro hnone before t after hsplit hdepth hcolumn
    obtain ⟨last, hout⟩ := h.exists_outside_iff.mpr ⟨before, after, hsplit, hdepth⟩
    exact hnone last t hout (h.mayBegin hout hcolumn) hcolumn

end

end Grammar

open Grammar Text

/-! ## A body in column 1 -/

def Program.unindented : Program := ⟨[⟨"x", .int, .lit (.int 1)⟩], .var "x"⟩

/-- The words of the program, with the body of its definition in column 1. -/
def SpacedWord.unindented : List SpacedWord :=
  [⟨['\n'], .fixed .defKeyword⟩, ⟨[' '], .name "x"⟩, ⟨[' '], .fixed .colon⟩, ⟨[' '], .name "Int"⟩,
    ⟨[' '], .fixed .equals⟩, ⟨['\n'], (Literal.int 1).word⟩, ⟨['\n'], .name "x"⟩]

theorem SpacedWord.readable_unindented : Readable unindented [] := by
  have hx : (Word.name "x").Legible :=
    Word.legible_name (isName_of_isAlpha (by decide) (by decide) (by decide))
  have hInt : (Word.name "Int").Legible :=
    Word.legible_name (isName_of_isAlpha (by decide) (by decide) (by decide))
  have hone : (Literal.int 1).word.Legible := Literal.legible_word (by decide)
  refine readable_of_legible ?_
  simp only [unindented, List.forall_mem_cons]
  exact ⟨⟨.inl trivial, Word.legible_fixed rfl⟩, ⟨.inr trivial, hx⟩,
    ⟨.inr trivial, Word.legible_fixed rfl⟩, ⟨.inr trivial, hInt⟩,
    ⟨.inr trivial, Word.legible_fixed rfl⟩, ⟨.inl trivial, hone⟩, ⟨.inl trivial, hx⟩, nofun⟩

theorem Program.derives_unindented :
    DerivesProgram (SpacedWord.layOut .start SpacedWord.unindented) unindented :=
  .define rfl rfl rfl (.single (.int rfl rfl)) rfl
    ((Spells.lit (by decide)).term [_] rfl) (.inl rfl)
    (.main ((Spells.var "x").term [_] rfl))

theorem Program.result_unindented :
    (Program.ofFile (.holding (SpacedWord.spell SpacedWord.unindented)) "main.story").result =
      .ok unindented :=
  ofFile_spaced Source.extensionOf_main (FileSystem.openFile_holding _)
    SpacedWord.readable_unindented derives_unindented

/-- **Bodies are not always indented.** -/
theorem Program.ofFile_unindented :
    let fs := FileSystem.holding "\ndef x : Int =\n1\nx".toList
    (Program.ofFile fs "main.story").result = .ok unindented ∧
      ∃ file, Source.openNamed fs "main.story" = .ok file ∧ ∃ d ∈ unindented.definitions,
        ∃ equals us, BodyIn ((Lexer.ofFile file).tokens.map (·.1)) d equals us ∧
          ¬ Indented us := by
  intro fs
  have hspell : "\ndef x : Int =\n1\nx".toList = SpacedWord.spell SpacedWord.unindented := by
    decide +kernel
  have hfs : fs = .holding (SpacedWord.spell SpacedWord.unindented) :=
    congrArg FileSystem.holding hspell
  rw [hfs]
  refine ⟨result_unindented, _, Source.openNamed_holding _, _, List.mem_cons_self, ?_⟩
  rw [Lexer.tokens_spaced ((Lexer.rest_ofFile_encode _ _ _).trans (List.append_nil _).symm)
    SpacedWord.readable_unindented, Lexer.pos_ofFile]
  show ∃ equals us, BodyIn (_ :: _ :: _ :: ([_] ++ _ :: ([_] ++ _ :: [_]))) _ equals us ∧ _
  refine ⟨_, _, .here rfl rfl rfl (.single (.int rfl rfl)) rfl
    ((Spells.lit (by decide)).term [_] rfl) (.inl rfl), ?_⟩
  intro hindented
  exact hindented [] _ [] rfl rfl rfl

/-! ## Programs from files -/

/-- **The layout of a program that is read from a file.** Each of its definitions has a body among
the tokens of the file. A token of a body that stands in column 1 outside parentheses never goes on
with an operator or an argument: it separates parts of a term, or begins a part that the token
before it demands. The body is indented exactly if no such token stands in column 1. -/
theorem Program.bodies_of_ofFile {fs : FileSystem} {name : String} {p : Program}
    (h : (Program.ofFile fs name).result = .ok p) :
    ∃ file, Source.openNamed fs name = .ok file ∧
      (∀ d ∈ p.definitions, ∃ equals us,
        BodyIn ((Lexer.ofFile file).tokens.map (·.1)) d equals us) ∧
      ∀ d equals us, BodyIn ((Lexer.ofFile file).tokens.map (·.1)) d equals us →
        (∀ last t, Outside equals us last t → t.pos.column = 1 → MayBegin last.kind t.kind) ∧
        (Indented us ↔ ∀ last t, Outside equals us last t → MayBegin last.kind t.kind →
          t.pos.column ≠ 1) := by
  obtain ⟨file, hopen, hparse, _⟩ := Program.ofFile_eq_ok_iff.mp h
  refine ⟨file, hopen, ?_, fun d equals us hbody => ⟨?_, hbody.indented_iff⟩⟩
  · obtain ⟨rest, hread⟩ := Program.ofTokens_eq_ok_iff_programAfter.mp hparse
    obtain ⟨_, _, hprogram⟩ := Parser.bind_eq_ok hread
    obtain ⟨used, q, hts, _, hq, rfl⟩ := Parser.exists_derivesProgram_of_programAfter hprogram
    rw [hts]
    exact hq.exists_bodyIn rest
  · intro last t hout hcolumn
    exact hbody.mayBegin hout hcolumn

theorem Program.bodies_unindented :
    let fs := FileSystem.holding (SpacedWord.spell SpacedWord.unindented)
    (Program.ofFile fs "main.story").result = .ok unindented ∧
      ∃ file, Source.openNamed fs "main.story" = .ok file ∧ ∀ d ∈ unindented.definitions,
        ∃ equals us, BodyIn ((Lexer.ofFile file).tokens.map (·.1)) d equals us ∧
          ∀ last t, Outside equals us last t → t.pos.column = 1 → MayBegin last.kind t.kind := by
  obtain ⟨file, hopen, hexists, hbodies⟩ := bodies_of_ofFile result_unindented
  refine ⟨result_unindented, file, hopen, fun d hd => ?_⟩
  obtain ⟨equals, us, hbody⟩ := hexists d hd
  exact ⟨equals, us, hbody, (hbodies d equals us hbody).1⟩

end TypedLambda
