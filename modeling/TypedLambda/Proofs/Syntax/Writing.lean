import TypedLambda.Proofs.Lexing.Quoted
import TypedLambda.Proofs.Lexing.Spacing
import TypedLambda.Proofs.Syntax.Completeness

/-!
# Writing programs

A program can be written down if its names are names, its operators are known, its integers are not
negative and it holds no marker of a built-in function (`Program.Writable`). Its text has
parentheses around every compound type and term, so that each part is an atom, and each definition
and the main term stand on a line of their own, so that no line goes on with the body before it.

* `Term.spells_words`: the words of a term derive it, whatever the places of their tokens;
* `Term.legible_words`: each of the words is taken as a whole from a text;
* `Program.ofTokens_text`: the tokens of the text of a program are read as the program.
-/

namespace TypedLambda

open Grammar Text

/-! ## Programs that can be written -/

/-- Whether an operator is one of the seven. -/
def Operator.isKnown : Operator → Bool
  | unknown _ => false
  | _ => true

/-- A literal has a text unless it is a negative integer. -/
def Literal.Writable : Literal → Prop
  | int n => 0 ≤ n.toInt
  | bool _ => True
  | text _ => True

instance Literal.decidableWritable : (value : Literal) → Decidable value.Writable
  | int n => inferInstanceAs (Decidable (0 ≤ n.toInt))
  | bool _ => inferInstanceAs (Decidable True)
  | text _ => inferInstanceAs (Decidable True)

/-- The names in a term are names, its operators are known, its literals have texts, and it holds no
marker of a built-in function. -/
def Term.Writable : Term → Prop
  | app func arg => func.Writable ∧ arg.Writable
  | lam param _ body => isName param = true ∧ body.Writable
  | lit value => value.Writable
  | var name => isName name = true
  | bin op left right => op.isKnown = true ∧ left.Writable ∧ right.Writable
  | ite cond yes no => cond.Writable ∧ yes.Writable ∧ no.Writable
  | letIn name bound body => isName name = true ∧ bound.Writable ∧ body.Writable
  | builtin _ => False

instance Term.decidableWritable : (x : Term) → Decidable x.Writable
  | app func arg => @instDecidableAnd _ _ func.decidableWritable arg.decidableWritable
  | lam _ _ body => @instDecidableAnd _ _ inferInstance body.decidableWritable
  | lit value => value.decidableWritable
  | var name => inferInstanceAs (Decidable (isName name = true))
  | bin _ left right =>
    @instDecidableAnd _ _ inferInstance
      (@instDecidableAnd _ _ left.decidableWritable right.decidableWritable)
  | ite cond yes no =>
    @instDecidableAnd _ _ cond.decidableWritable
      (@instDecidableAnd _ _ yes.decidableWritable no.decidableWritable)
  | letIn _ bound body =>
    @instDecidableAnd _ _ inferInstance
      (@instDecidableAnd _ _ bound.decidableWritable body.decidableWritable)
  | builtin _ => inferInstanceAs (Decidable False)

def Definition.Writable (d : Definition) : Prop := isName d.name = true ∧ d.body.Writable

instance (d : Definition) : Decidable d.Writable := inferInstanceAs (Decidable (_ ∧ _))

def Program.Writable (p : Program) : Prop :=
  (∀ d ∈ p.definitions, d.Writable) ∧ p.main.Writable

instance (p : Program) : Decidable p.Writable := inferInstanceAs (Decidable (_ ∧ _))

/-! ## Words of a program -/

def Word.fixed (kind : TokenKind) : Word := ⟨kind, ""⟩

def Word.name (s : String) : Word := ⟨.ident, s⟩

def parenthesized (ws : List Word) : List Word :=
  .fixed .leftParen :: (ws ++ [.fixed .rightParen])

def Ty.words : Ty → List Word
  | int => [.name "Int"]
  | bool => [.name "Bool"]
  | text => [.name "Text"]
  | fn arg result => parenthesized (arg.words ++ .fixed .rightArrow :: result.words)

def Operator.kind : Operator → TokenKind
  | add => .plus
  | sub => .minus
  | mul => .times
  | eq => .logicalEquals
  | or => .logicalOr
  | and => .logicalAnd
  | concat => .concat
  | unknown _ => .illegal

/-- A literal is written as it is shown. -/
def Literal.word : Literal → Word
  | int n => ⟨.number, toString n.toInt⟩
  | bool b => .fixed (if b then .trueKeyword else .falseKeyword)
  | text bytes => ⟨.string, Quoted.ofBytes bytes⟩

/-- A term as an atom. -/
def Term.words : Term → List Word
  | app func arg => parenthesized (func.words ++ arg.words)
  | lam param type body =>
    parenthesized (.fixed .backslash :: .name param :: .fixed .colon ::
      (type.words ++ .fixed .rightArrow :: body.words))
  | lit value => [value.word]
  | var name => [.name name]
  | bin op left right => parenthesized (left.words ++ .fixed op.kind :: right.words)
  | ite cond yes no =>
    parenthesized (.fixed .ifKeyword ::
      (cond.words ++ .fixed .thenKeyword :: (yes.words ++ .fixed .elseKeyword :: no.words)))
  | letIn name bound body =>
    parenthesized (.fixed .letKeyword :: .name name :: .fixed .equals ::
      (bound.words ++ .fixed .inKeyword :: body.words))
  | builtin _ => []

def Definition.words (d : Definition) : List Word :=
  .fixed .defKeyword :: .name d.name :: .fixed .colon ::
    (d.type.words ++ .fixed .equals :: d.body.words)

/-! ## The words derive the program -/

/-- Whatever tokens say the words derive the type. -/
def SpellsType (ph : TypePhrase) (ws : List Word) (a : Ty) : Prop :=
  ∀ ts : List Token, ts.map Token.word = ws → DerivesType ph ts a

/-- Whatever tokens say the words derive the term. -/
def Spells (ph : Phrase) (ws : List Word) (x : Term) : Prop :=
  ∀ ts : List Token, ts.map Token.word = ws → Derives ph ts x

theorem exists_of_map_word_cons {ts : List Token} {w : Word} {ws : List Word}
    (h : ts.map Token.word = w :: ws) :
    ∃ t us, ts = t :: us ∧ t.kind = w.kind ∧ t.data = w.data ∧ us.map Token.word = ws := by
  obtain ⟨t, us, rfl, rfl, hus⟩ := List.map_eq_cons_iff.mp h
  exact ⟨t, us, rfl, rfl, rfl, hus⟩

theorem exists_of_map_word_parenthesized {ts : List Token} {ws : List Word}
    (h : ts.map Token.word = parenthesized ws) :
    ∃ left us right, ts = left :: (us ++ [right]) ∧ left.kind = .leftParen ∧
      us.map Token.word = ws ∧ right.kind = .rightParen := by
  obtain ⟨left, vs, rfl, hleft, _, hvs⟩ := exists_of_map_word_cons h
  obtain ⟨us, ws', rfl, hus, hws'⟩ := List.map_eq_append_iff.mp hvs
  obtain ⟨right, _, rfl, hright, _, hnil⟩ := exists_of_map_word_cons hws'
  obtain rfl := List.map_eq_nil_iff.mp hnil
  exact ⟨left, us, right, rfl, hleft, hus, hright⟩

theorem Ty.spellsType_words (a : Ty) : SpellsType .atom a.words a := by
  induction a with
  | int | bool | text =>
    intro ts hts
    obtain ⟨t, us, rfl, hkind, hdata, hus⟩ := exists_of_map_word_cons hts
    obtain rfl := List.map_eq_nil_iff.mp hus
    first
      | exact .int hkind hdata
      | exact .bool hkind hdata
      | exact .text hkind hdata
  | fn arg result ih₁ ih₂ =>
    intro ts hts
    obtain ⟨left, us, right, rfl, hleft, hus, hright⟩ := exists_of_map_word_parenthesized hts
    obtain ⟨args, vs, rfl, hargs, hvs⟩ := List.map_eq_append_iff.mp hus
    obtain ⟨arrow, results, rfl, harrow, _, hresults⟩ := exists_of_map_word_cons hvs
    exact .paren hleft (.arrow (ih₁ args hargs) harrow (.single (ih₂ results hresults))) hright

theorem exists_binds {op : Operator} (h : op.isKnown = true) :
    ∃ level, Binds op.kind op level ∧ 1 ≤ level ∧ level + 1 ≤ 7 := by
  cases op <;> first
    | exact ⟨_, binds_iff.mpr ⟨rfl, rfl⟩, by decide, by decide⟩
    | cases h

namespace Spells

variable {ws us vs : List Word} {x y z : Term}

theorem paren (h : Spells (.term false) ws x) : Spells .atom (parenthesized ws) x := by
  intro ts hts
  obtain ⟨left, us, right, rfl, hleft, hus, hright⟩ := exists_of_map_word_parenthesized hts
  exact .paren hleft (h us hus) hright

theorem binary (h : Spells .atom ws x) {inBody : Bool} {level : Nat} (hlevel : level ≤ 7) :
    Spells (.binary inBody level) ws x :=
  fun ts hts => Parser.derives_of_le hlevel (.operand (.single (h ts hts)))

theorem term (h : Spells .atom ws x) {inBody : Bool} : Spells (.term inBody) ws x :=
  fun ts hts => .chain (h.binary (by decide) ts hts)

theorem app (hfunc : Spells .atom ws x) (harg : Spells .atom us y) :
    Spells (.term false) (ws ++ us) (.app x y) := by
  intro ts hts
  obtain ⟨fs, as, rfl, hfs, has⟩ := List.map_eq_append_iff.mp hts
  have has := harg as has
  obtain ⟨first, rest, rfl, _⟩ := has.begins
  have happ : Derives (.application false) (fs ++ first :: rest) (.app x y) :=
    .app (.single (hfunc fs hfs)) nofun has
  exact .chain (Parser.derives_of_le (by decide) (.operand happ))

theorem bin {op : Operator} (hop : op.isKnown = true) (hleft : Spells .atom ws x)
    (hright : Spells .atom us y) :
    Spells (.term false) (ws ++ .fixed op.kind :: us) (.bin op x y) := by
  intro ts hts
  obtain ⟨ls, rs, rfl, hls, hrs⟩ := List.map_eq_append_iff.mp hts
  obtain ⟨t, rs, rfl, ht, _, hrs⟩ := exists_of_map_word_cons hrs
  obtain ⟨level, hbinds, hone, hseven⟩ := exists_binds hop
  rw [show (Word.fixed op.kind).kind = op.kind from rfl] at ht
  exact .chain (Parser.derives_of_le hone (.operator (hleft.binary (Nat.le_of_lt hseven) ls hls)
    (ht ▸ hbinds) nofun (hright.binary hseven rs hrs)))

theorem lam {param : String} {a : Ty} {inBody : Bool} (htype : SpellsType .atom ws a)
    (hbody : Spells (.term inBody) us x) :
    Spells (.term inBody)
      (.fixed .backslash :: .name param :: .fixed .colon :: (ws ++ .fixed .rightArrow :: us))
      (.lam param a x) := by
  intro ts hts
  obtain ⟨backslash, r₁, rfl, hbackslash, _, h₁⟩ := exists_of_map_word_cons hts
  obtain ⟨name, r₂, rfl, hname, hdata, h₂⟩ := exists_of_map_word_cons h₁
  obtain ⟨colon, r₃, rfl, hcolon, _, h₃⟩ := exists_of_map_word_cons h₂
  obtain ⟨as, r₄, rfl, has, h₄⟩ := List.map_eq_append_iff.mp h₃
  obtain ⟨arrow, bs, rfl, harrow, _, hbs⟩ := exists_of_map_word_cons h₄
  obtain rfl : name.data = param := hdata
  exact .lam hbackslash hname hcolon (htype as has) harrow (hbody bs hbs)

theorem letIn {name : String} {inBody : Bool} (hbound : Spells (.term inBody) ws x)
    (hbody : Spells (.term inBody) us y) :
    Spells (.term inBody)
      (.fixed .letKeyword :: .name name :: .fixed .equals :: (ws ++ .fixed .inKeyword :: us))
      (.letIn name x y) := by
  intro ts hts
  obtain ⟨keyword, r₁, rfl, hkeyword, _, h₁⟩ := exists_of_map_word_cons hts
  obtain ⟨t, r₂, rfl, hname, hdata, h₂⟩ := exists_of_map_word_cons h₁
  obtain ⟨equals, r₃, rfl, hequals, _, h₃⟩ := exists_of_map_word_cons h₂
  obtain ⟨as, r₄, rfl, has, h₄⟩ := List.map_eq_append_iff.mp h₃
  obtain ⟨keywordIn, bs, rfl, hin, _, hbs⟩ := exists_of_map_word_cons h₄
  obtain rfl : t.data = name := hdata
  exact .letIn hkeyword hname hequals (hbound as has) hin (hbody bs hbs)

theorem ite {inBody : Bool} (hcond : Spells (.term inBody) ws x)
    (hyes : Spells (.term inBody) us y) (hno : Spells (.term inBody) vs z) :
    Spells (.term inBody)
      (.fixed .ifKeyword ::
        (ws ++ .fixed .thenKeyword :: (us ++ .fixed .elseKeyword :: vs)))
      (.ite x y z) := by
  intro ts hts
  obtain ⟨keyword, r₁, rfl, hkeyword, _, h₁⟩ := exists_of_map_word_cons hts
  obtain ⟨as, r₂, rfl, has, h₂⟩ := List.map_eq_append_iff.mp h₁
  obtain ⟨keywordThen, r₃, rfl, hthen, _, h₃⟩ := exists_of_map_word_cons h₂
  obtain ⟨bs, r₄, rfl, hbs, h₄⟩ := List.map_eq_append_iff.mp h₃
  obtain ⟨keywordElse, cs, rfl, helse, _, hcs⟩ := exists_of_map_word_cons h₄
  exact .ite hkeyword (hcond as has) hthen (hyes bs hbs) helse (hno cs hcs)

theorem lit {value : Literal} (h : value.Writable) : Spells .atom [value.word] (.lit value) := by
  intro ts hts
  obtain ⟨t, r, rfl, hkind, hdata, hr⟩ := exists_of_map_word_cons hts
  obtain rfl := List.map_eq_nil_iff.mp hr
  cases value with
  | int n =>
    refine .number hkind ?_
    rw [hdata]
    exact Numeral.value?_toString h
  | bool b =>
    cases b with
    | true => exact .true hkind
    | false => exact .false hkind
  | text bytes =>
    refine .string hkind ?_
    rw [hdata]
    exact literalBytes?_ofBytes bytes

theorem var (name : String) : Spells .atom [.name name] (.var name) := by
  intro ts hts
  obtain ⟨t, r, rfl, hkind, hdata, hr⟩ := exists_of_map_word_cons hts
  obtain rfl := List.map_eq_nil_iff.mp hr
  obtain rfl : t.data = name := hdata
  exact .var hkind

end Spells

/-- **The words of a term derive it.** -/
theorem Term.spells_words {x : Term} (h : x.Writable) : Spells .atom x.words x := by
  induction x with
  | app func arg ih₁ ih₂ => exact ((ih₁ h.1).app (ih₂ h.2)).paren
  | lam param type body ih => exact (Spells.lam type.spellsType_words (ih h.2).term).paren
  | lit value => exact .lit h
  | var name => exact .var name
  | bin op left right ih₁ ih₂ => exact (Spells.bin h.1 (ih₁ h.2.1) (ih₂ h.2.2)).paren
  | ite cond yes no ih₁ ih₂ ih₃ =>
    exact (Spells.ite (ih₁ h.1).term (ih₂ h.2.1).term (ih₃ h.2.2).term).paren
  | letIn name bound body ih₁ ih₂ =>
    exact (Spells.letIn (ih₁ h.2.1).term (ih₂ h.2.2).term).paren
  | builtin name => exact h.elim

/-! ## The words are legible -/

theorem legible_parenthesized {ws : List Word} (h : ∀ w ∈ ws, w.Legible) :
    ∀ w ∈ parenthesized ws, w.Legible := by
  rw [parenthesized, List.forall_mem_cons, List.forall_mem_append, List.forall_mem_singleton]
  exact ⟨Word.legible_fixed rfl, h, Word.legible_fixed rfl⟩

theorem Ty.legible_words (a : Ty) : ∀ w ∈ a.words, w.Legible := by
  induction a with
  | int | bool | text =>
    rw [words, List.forall_mem_singleton]
    exact Word.legible_name (isName_of_isAlpha (by decide) (by decide) (by decide))
  | fn arg result ih₁ ih₂ =>
    refine legible_parenthesized ?_
    rw [List.forall_mem_append, List.forall_mem_cons]
    exact ⟨ih₁, Word.legible_fixed rfl, ih₂⟩

theorem Operator.legible_kind {op : Operator} (h : op.isKnown = true) :
    (Word.fixed op.kind).Legible := by
  cases op <;> first
    | exact Word.legible_fixed rfl
    | cases h

theorem Literal.legible_word {value : Literal} (h : value.Writable) : value.word.Legible := by
  cases value with
  | int n =>
    obtain ⟨k, hk⟩ := Int.eq_ofNat_of_zero_le h
    rw [word, hk]
    exact Word.legible_number (s := k.repr) (Numeral.denotes_repr k)
  | bool b => cases b <;> exact Word.legible_fixed rfl
  | text bytes => exact Word.legible_string (Quoted.denotes_ofBytes bytes)

theorem Term.legible_words {x : Term} (h : x.Writable) : ∀ w ∈ x.words, w.Legible := by
  induction x with
  | app func arg ih₁ ih₂ =>
    refine legible_parenthesized ?_
    rw [List.forall_mem_append]
    exact ⟨ih₁ h.1, ih₂ h.2⟩
  | lam param type body ih =>
    refine legible_parenthesized ?_
    simp only [List.forall_mem_cons, List.forall_mem_append]
    exact ⟨Word.legible_fixed rfl, Word.legible_name h.1, Word.legible_fixed rfl,
      type.legible_words, Word.legible_fixed rfl, ih h.2⟩
  | lit value =>
    rw [words, List.forall_mem_singleton]
    exact Literal.legible_word h
  | var name =>
    rw [words, List.forall_mem_singleton]
    exact Word.legible_name h
  | bin op left right ih₁ ih₂ =>
    refine legible_parenthesized ?_
    simp only [List.forall_mem_cons, List.forall_mem_append]
    exact ⟨ih₁ h.2.1, Operator.legible_kind h.1, ih₂ h.2.2⟩
  | ite cond yes no ih₁ ih₂ ih₃ =>
    refine legible_parenthesized ?_
    simp only [List.forall_mem_cons, List.forall_mem_append]
    exact ⟨Word.legible_fixed rfl, ih₁ h.1, Word.legible_fixed rfl, ih₂ h.2.1,
      Word.legible_fixed rfl, ih₃ h.2.2⟩
  | letIn name bound body ih₁ ih₂ =>
    refine legible_parenthesized ?_
    simp only [List.forall_mem_cons, List.forall_mem_append]
    exact ⟨Word.legible_fixed rfl, Word.legible_name h.1, Word.legible_fixed rfl, ih₁ h.2.1,
      Word.legible_fixed rfl, ih₂ h.2.2⟩
  | builtin name => exact h.elim

theorem Definition.legible_words {d : Definition} (h : d.Writable) :
    ∀ w ∈ d.words, w.Legible := by
  simp only [words, List.forall_mem_cons, List.forall_mem_append]
  exact ⟨Word.legible_fixed rfl, Word.legible_name h.1, Word.legible_fixed rfl,
    d.type.legible_words, Word.legible_fixed rfl, Term.legible_words h.2⟩

/-! ## The text of a program -/

/-- Words on a line of their own. -/
def SpacedWord.line : List Word → List SpacedWord
  | [] => []
  | w :: ws => ⟨['\n'], w⟩ :: ws.map fun w => ⟨[' '], w⟩

/-- The words of a program, with each definition and the main term on a line. -/
def Program.spacedWords (p : Program) : List SpacedWord :=
  (p.definitions.map Definition.words ++ [p.main.words]).flatMap SpacedWord.line

def Program.text (p : Program) : List Char := SpacedWord.spell p.spacedWords

namespace SpacedWord

theorem map_word_line (ws : List Word) : (line ws).map word = ws := by
  cases ws with
  | nil => rfl
  | cons w ws => simp [line, Function.comp_def]

theorem of_mem_line {s : SpacedWord} {ws : List Word} (h : s ∈ line ws) :
    (s.gap = ['\n'] ∨ s.gap = [' ']) ∧ s.word ∈ ws := by
  cases ws with
  | nil => cases h
  | cons w ws =>
    rcases List.mem_cons.mp h with rfl | h
    · exact ⟨.inl rfl, List.mem_cons_self⟩
    · obtain ⟨v, hv, rfl⟩ := List.mem_map.mp h
      exact ⟨.inr rfl, List.mem_cons_of_mem w hv⟩

theorem readable_of_legible {ss : List SpacedWord}
    (h : ∀ s ∈ ss, (s.gap = ['\n'] ∨ s.gap = [' ']) ∧ s.word.Legible) : Readable ss [] := by
  induction ss with
  | nil => nofun
  | cons s ss ih =>
    obtain ⟨⟨hgap, hlegible⟩, hss⟩ := List.forall_mem_cons.mp h
    have hblank : ∀ c ∈ s.gap, isBlank c = true := by
      rcases hgap with hgap | hgap <;> rw [hgap, List.forall_mem_singleton] <;> decide
    refine ⟨hblank, hlegible _ ?_, ih hss⟩
    -- The next word begins with its gap.
    cases ss with
    | nil => nofun
    | cons s' ss =>
      obtain ⟨⟨hgap', _⟩, _⟩ := List.forall_mem_cons.mp hss
      rw [spell_cons, chars]
      rcases hgap' with hgap' | hgap' <;> rw [hgap'] <;> rintro _ ⟨⟩ <;> decide

theorem column_head_layOut (p : Pos) (lines : List (List Word)) {t : Token}
    (h : t ∈ (layOut p (lines.flatMap line)).head?) : t.pos.column = 1 := by
  induction lines with
  | nil => cases h
  | cons ws lines ih =>
    cases ws with
    | nil => exact ih h
    | cons w ws =>
      obtain rfl := Option.some.inj h
      rfl

end SpacedWord

namespace Program

open SpacedWord (layOut line spell Readable)

theorem derives_definition {d : Definition} (hd : d.Writable) {ts rest : List Token} {next : Token}
    {p : Program} (hts : ts.map Token.word = d.words) (hends : EndsBody next)
    (hp : DerivesProgram (next :: rest) p) :
    DerivesProgram (ts ++ next :: rest) ⟨d :: p.definitions, p.main⟩ := by
  obtain ⟨keyword, r₁, rfl, hkeyword, _, h₁⟩ := exists_of_map_word_cons hts
  obtain ⟨name, r₂, rfl, hname, hdata, h₂⟩ := exists_of_map_word_cons h₁
  obtain ⟨colon, r₃, rfl, hcolon, _, h₃⟩ := exists_of_map_word_cons h₂
  obtain ⟨as, r₄, rfl, has, h₄⟩ := List.map_eq_append_iff.mp h₃
  obtain ⟨equals, bs, rfl, hequals, _, hbs⟩ := exists_of_map_word_cons h₄
  have htype : DerivesType .atom as d.type := d.type.spellsType_words as has
  have hbody : Derives (.term true) bs d.body := (Term.spells_words hd.2).term bs hbs
  have hdefine := DerivesProgram.define hkeyword hname hcolon (.single htype) hequals hbody hends hp
  rw [show name.data = d.name from hdata] at hdefine
  simpa using hdefine

/-- **The tokens of the text of a program derive it.** -/
theorem derives_layOut {definitions : List Definition} {main : Term}
    (hdefinitions : ∀ d ∈ definitions, d.Writable) (hmain : main.Writable) (p : Pos) :
    DerivesProgram (layOut p (spacedWords ⟨definitions, main⟩)) ⟨definitions, main⟩ := by
  induction definitions generalizing p with
  | nil =>
    refine .main ((Term.spells_words hmain).term _ ?_)
    rw [SpacedWord.map_word_layOut]
    show (line main.words ++ []).map SpacedWord.word = main.words
    rw [List.append_nil, SpacedWord.map_word_line]
  | cons d definitions ih =>
    obtain ⟨hd, hdefinitions⟩ := List.forall_mem_cons.mp hdefinitions
    have hprogram := ih hdefinitions (p.advance (spell (line d.words)))
    obtain ⟨next, rest, hnext, _⟩ := hprogram.begins
    -- The next line begins in column 1, which ends the body.
    have hends : EndsBody next :=
      .inl (SpacedWord.column_head_layOut _ _ (congrArg List.head? hnext))
    have hwords : (layOut p (line d.words)).map Token.word = d.words := by
      rw [SpacedWord.map_word_layOut, SpacedWord.map_word_line]
    show DerivesProgram (layOut p (line d.words ++ spacedWords ⟨definitions, main⟩)) _
    rw [SpacedWord.layOut_append, hnext]
    exact derives_definition hd hwords hends (hnext ▸ hprogram)

theorem readable_spacedWords {p : Program} (h : p.Writable) : Readable p.spacedWords [] := by
  refine SpacedWord.readable_of_legible fun s hs => ?_
  obtain ⟨ws, hws, hs⟩ := List.mem_flatMap.mp hs
  obtain ⟨hgap, hword⟩ := SpacedWord.of_mem_line hs
  refine ⟨hgap, ?_⟩
  rcases List.mem_append.mp hws with hws | hws
  · obtain ⟨d, hd, rfl⟩ := List.mem_map.mp hws
    exact Definition.legible_words (h.1 d hd) s.word hword
  · obtain rfl := List.mem_singleton.mp hws
    exact Term.legible_words h.2 s.word hword

theorem ofTokens_spaced {l : Lexer} {file : String} {ss : List SpacedWord} {p : Program}
    (hl : l.rest = spell ss) (hss : Readable ss []) (hp : DerivesProgram (layOut l.pos ss) p) :
    Program.ofTokens file none (l.tokens.map (·.1)) = .ok p := by
  rw [Lexer.tokens_spaced (hl.trans (List.append_nil _).symm) hss]
  refine ofTokens_eq_ok_iff_programAfter.mpr
    ⟨[Lexer.endAfter (l.pos.advance (spell ss)) []], ?_⟩
  rw [Parser.legal_append_of_derivesProgram hp, Parser.ok_bind,
    Parser.programAfter_append_of_derivesProgram hp rfl rfl]
  rfl

theorem ofTokens_text {l : Lexer} {file : String} {p : Program} (hp : p.Writable)
    (hl : l.rest = p.text) : Program.ofTokens file none (l.tokens.map (·.1)) = .ok p :=
  ofTokens_spaced hl (readable_spacedWords hp) (derives_layOut hp.1 hp.2 l.pos)

end Program

end TypedLambda
