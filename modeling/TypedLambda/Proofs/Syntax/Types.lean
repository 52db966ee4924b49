import TypedLambda.Proofs.Syntax.Image
import TypedLambda.Proofs.Typing.Checkers

/-!
# Types are read as they are shown

A type is shown with parentheses around a function in argument position only, since the arrow
associates to the right. `Ty.printed` has the words of what is shown, with the white space before
each of them:

* `Ty.spell_printed`: they make up what is shown;
* `Ty.readable_printed`: each of them is taken as a whole, before anything that ends a name;
* `Ty.spellsType_printed`: they derive the type.

So a type is read from what is shown of it (`Ty.readType_render`), and types that differ are shown
differently (`Ty.render_injective`). What a checker records are types that differ
(`Checker.ne_of_mem_recorded`).
-/

namespace TypedLambda

open Grammar Text

/-! ## Words of a type -/

/-- Words between parentheses, without white space inside of them. -/
def SpacedWord.parens (gap : List Char) (ss : List SpacedWord) : List SpacedWord :=
  ⟨gap, .fixed .leftParen⟩ :: (ss ++ [⟨[], .fixed .rightParen⟩])

/-- The words of a type as it is shown, with some white space before the first of them. -/
def Ty.printed (gap : List Char) : Ty → List SpacedWord
  | int => [⟨gap, .name "Int"⟩]
  | bool => [⟨gap, .name "Bool"⟩]
  | text => [⟨gap, .name "Text"⟩]
  | fn arg result =>
    (if arg.isFn then SpacedWord.parens gap (printed [] arg) else printed gap arg) ++
      ⟨[' '], .fixed .rightArrow⟩ :: printed [' '] result

namespace SpacedWord

theorem spell_parens (gap : List Char) (ss : List SpacedWord) :
    spell (parens gap ss) = gap ++ '(' :: (spell ss ++ [')']) := by
  rw [parens, spell_cons, spell_append]
  simp [chars, spell, Word.chars, Word.fixed, TokenKind.fixedText?]

theorem map_word_parens (gap : List Char) (ss : List SpacedWord) :
    (parens gap ss).map word = parenthesized (ss.map word) := by
  simp [parens, parenthesized]

theorem readsBefore_leftParen (rest : List Char) : (Word.fixed .leftParen).ReadsBefore rest := by
  refine ⟨rfl, '(', [], rfl, ?_⟩
  rw [Lexeme.scan_of_ascii (by decide) (by decide)]
  cases rest <;> rfl

theorem readsBefore_rightParen (rest : List Char) : (Word.fixed .rightParen).ReadsBefore rest := by
  refine ⟨rfl, ')', [], rfl, ?_⟩
  rw [Lexeme.scan_of_ascii (by decide) (by decide)]
  cases rest <;> rfl

theorem readable_rightParen {ss : List SpacedWord} {rest : List Char} (h : Readable ss rest) :
    Readable (⟨[], .fixed .rightParen⟩ :: ss) rest :=
  ⟨List.forall_mem_nil _, readsBefore_rightParen _, h⟩

theorem readable_parens {gap : List Char} (hgap : ∀ c ∈ gap, isBlank c = true)
    {us ss : List SpacedWord} {rest : List Char}
    (h : Readable (us ++ ⟨[], .fixed .rightParen⟩ :: ss) rest) :
    Readable (parens gap us ++ ss) rest := by
  rw [parens, List.cons_append, List.append_assoc]
  exact ⟨hgap, readsBefore_leftParen _, h⟩

end SpacedWord

namespace Ty

open SpacedWord (spell parens Readable)

theorem spell_printed (gap : List Char) (t : Ty) :
    spell (t.printed gap) = gap ++ t.render.toList := by
  induction t generalizing gap with
  | int | bool | text => exact List.append_nil _
  | fn arg result ihArg ihResult =>
    rw [printed, render, SpacedWord.spell_append, SpacedWord.spell_cons, ihResult]
    split
    · rw [SpacedWord.spell_parens, ihArg]
      simp [SpacedWord.chars, Word.chars, Word.fixed, TokenKind.fixedText?]
    · rw [ihArg]
      simp [SpacedWord.chars, Word.chars, Word.fixed, TokenKind.fixedText?]

/-- **What is shown of a type can be taken apart** before anything that does not go on with a
name. -/
theorem readable_printed {gap : List Char} (hgap : ∀ c ∈ gap, isBlank c = true) (t : Ty)
    {ss : List SpacedWord} {rest : List Char} (hss : Readable ss rest)
    (hends : ∀ c ∈ (spell ss ++ rest).head?, isIdentContinue c = false) :
    Readable (t.printed gap ++ ss) rest := by
  induction t generalizing gap ss with
  | int | bool | text =>
    refine ⟨hgap, Word.readsBefore_name (isName_of_isAlpha ?_ ?_ ?_) hends, hss⟩
    all_goals decide
  | fn arg result ihArg ihResult =>
    have hblank : ∀ c ∈ [' '], isBlank c = true := List.forall_mem_singleton.mpr (by decide)
    have harrow : Readable (⟨[' '], .fixed .rightArrow⟩ :: (result.printed [' '] ++ ss)) rest :=
      ⟨hblank, ⟨rfl, '-', ['>'], rfl, Lexeme.scan_of_ascii (by decide) (by decide) _⟩,
        ihResult hblank hss hends⟩
    rw [printed, List.append_assoc]
    split
    · refine SpacedWord.readable_parens hgap ?_
      refine ihArg (List.forall_mem_nil _) (SpacedWord.readable_rightParen harrow) ?_
      rintro _ ⟨⟩
      exact isIdentContinue_of_ascii (by decide)
    · refine ihArg hgap harrow ?_
      rintro _ ⟨⟩
      exact isIdentContinue_of_ascii (by decide)

theorem spellsType_base {gap : List Char} {t : Ty} (h : t.isFn = false) :
    SpellsType .atom ((t.printed gap).map SpacedWord.word) t := by
  cases t with
  | int => exact spellsType_words .int
  | bool => exact spellsType_words .bool
  | text => exact spellsType_words .text
  | fn arg result => cases h

theorem spellsType_parens {gap : List Char} {ss : List SpacedWord} {t : Ty}
    (h : SpellsType .type (ss.map SpacedWord.word) t) :
    SpellsType .atom ((parens gap ss).map SpacedWord.word) t := by
  rw [SpacedWord.map_word_parens]
  intro ts hts
  obtain ⟨left, us, right, rfl, hleft, hus, hright⟩ := exists_of_map_word_parenthesized hts
  exact .paren hleft (h us hus) hright

/-- **The words of a type as it is shown derive it.** -/
theorem spellsType_printed (gap : List Char) (t : Ty) :
    SpellsType .type ((t.printed gap).map SpacedWord.word) t := by
  induction t generalizing gap with
  | int | bool | text => exact fun ts hts => .single (spellsType_base rfl ts hts)
  | fn arg result ihArg ihResult =>
    intro ts hts
    rw [printed, List.map_append, List.map_cons] at hts
    obtain ⟨args, us, rfl, hargs, hus⟩ := List.map_eq_append_iff.mp hts
    obtain ⟨arrow, results, rfl, harrow, _, hresults⟩ := exists_of_map_word_cons hus
    refine .arrow ?_ harrow (ihResult [' '] results hresults)
    split at hargs
    · exact spellsType_parens (ihArg []) args hargs
    · next hbase => exact spellsType_base (by simpa using hbase) args hargs

end Ty

/-! ## Reading what is shown -/

/-- The tokens of a source that is this text, up to the end of input. -/
def Lexer.tokensOf (text : String) : List Token :=
  (ofFile ⟨Utf8.encode text.toList, none, none⟩).tokens.map (·.1)

theorem Lexer.tokensOf_spaced {text : String} {ss : List SpacedWord}
    (htext : text.toList = SpacedWord.spell ss) (hss : SpacedWord.Readable ss []) :
    ∃ ts last, tokensOf text = ts ++ [last] ∧ ts.map Token.word = ss.map SpacedWord.word ∧
      last.kind = .eof := by
  have hrest : (ofFile ⟨Utf8.encode text.toList, none, none⟩).rest = SpacedWord.spell ss ++ [] := by
    rw [rest_ofFile_encode, htext, List.append_nil]
  exact ⟨_, _, tokens_spaced hrest hss, SpacedWord.map_word_layOut _ ss, rfl⟩

namespace Ty

theorem readType_tokensOf (t : Ty) :
    ∃ last, last.kind = .eof ∧ Parser.readType (Lexer.tokensOf t.render) = .ok (t, [last]) := by
  have hend : SpacedWord.Readable [] [] := List.forall_mem_nil _
  have hreadable := readable_printed (List.forall_mem_nil _) t hend (by rintro _ ⟨⟩)
  rw [List.append_nil] at hreadable
  obtain ⟨ts, last, htokens, hts, hlast⟩ :=
    Lexer.tokensOf_spaced (spell_printed [] t).symm hreadable
  refine ⟨last, hlast, ?_⟩
  rw [htokens]
  refine Parser.readsType_of_derivesType (spellsType_printed [] t ts hts) [last] ?_ ?_
  · exact Parser.legal_cons (by rw [hlast]; decide)
  · rintro _ ⟨⟩
    rw [hlast]
    decide

theorem readAtomType_tokensOf (t : Ty) :
    ∃ last, last.kind = .eof ∧
      Parser.readAtomType (Lexer.tokensOf ("(" ++ t.render ++ ")")) = .ok (t, [last]) := by
  have hend : SpacedWord.Readable [⟨[], .fixed .rightParen⟩] [] :=
    SpacedWord.readable_rightParen (List.forall_mem_nil _)
  have hinner := readable_printed (List.forall_mem_nil _) t hend
    (by rintro _ ⟨⟩; exact isIdentContinue_of_ascii (by decide))
  have hreadable := SpacedWord.readable_parens (List.forall_mem_nil _) hinner
  rw [List.append_nil] at hreadable
  have htext : ("(" ++ t.render ++ ")").toList =
      SpacedWord.spell (SpacedWord.parens [] (t.printed [])) := by
    rw [SpacedWord.spell_parens, spell_printed]
    simp
  obtain ⟨ts, last, htokens, hts, hlast⟩ := Lexer.tokensOf_spaced htext hreadable
  refine ⟨last, hlast, ?_⟩
  rw [htokens]
  refine Parser.readsType_of_derivesType
    (spellsType_parens (spellsType_printed [] t) ts hts) [last] ?_
  exact Parser.legal_cons (by rw [hlast]; decide)

/-- **Types that differ are shown differently.** -/
theorem render_injective {t u : Ty} (h : t.render = u.render) : t = u := by
  obtain ⟨last, _, ht⟩ := readType_tokensOf t
  obtain ⟨last', _, hu⟩ := readType_tokensOf u
  rw [h, hu] at ht
  exact (congrArg Prod.fst (Except.ok.inj ht)).symm

end Ty

/-! ## Mismatches -/

namespace Checked

variable {ε ε' α β : Type} {P : Mismatch → Prop}

def Records (P : Mismatch → Prop) (x : Checked ε α) : Prop := ∀ m ∈ x.mismatches, P m

namespace Records

theorem pure {a : α} : (Pure.pure a : Checked ε α).Records P := List.forall_mem_nil _

theorem fail {e : ε} : (Checked.fail e : Checked ε α).Records P := List.forall_mem_nil _

theorem bind {x : Checked ε α} {f : α → Checked ε β} (hx : x.Records P)
    (hf : ∀ a, (f a).Records P) : (x >>= f).Records P := by
  obtain ⟨ms, r⟩ := x
  cases r with
  | error e => exact hx
  | ok a => exact List.forall_mem_append.mpr ⟨hx, hf a⟩

theorem mapError {f : ε → ε'} {x : Checked ε α} (hx : x.Records P) : (x.mapError f).Records P := hx

theorem require {site : Site} {actual expected : Ty} :
    (Checked.require site actual expected : Checked ε Unit).Records
      fun m => m.expected ≠ m.actual := by
  unfold Checked.require
  split
  · exact List.forall_mem_nil _
  · next hne => exact List.forall_mem_singleton.mpr (Ne.symm hne)

end Records

end Checked

theorem Term.infer_records (ctx : Env Ty) (x : Term) :
    (x.infer ctx).Records fun m => m.expected ≠ m.actual := by
  induction x generalizing ctx with
  | app func arg ihFunc ihArg =>
    refine .bind (ihFunc ctx) fun funcType => .bind (ihArg ctx) fun argType => ?_
    cases funcType with
    | fn param result => exact .bind .require fun _ => .pure
    | int | bool | text => exact .fail
  | lam param type body ih => exact .bind (ih _) fun _ => .pure
  | lit value => exact .pure
  | var name =>
    rw [Term.infer]
    cases ctx.get? name with
    | some t => exact .pure
    | none => exact .fail
  | bin op left right ihLeft ihRight =>
    rw [Term.infer]
    cases op.signature? with
    | some sig =>
      exact .bind (ihLeft ctx) fun _ => .bind (ihRight ctx) fun _ =>
        .bind .require fun _ => .bind .require fun _ => .pure
    | none => exact .fail
  | ite cond yes no ihCond ihYes ihNo =>
    exact .bind (ihCond ctx) fun _ => .bind .require fun _ => .bind (ihYes ctx) fun _ =>
      .bind (ihNo ctx) fun _ => .bind .require fun _ => .pure
  | letIn name bound body ihBound ihBody => exact .bind (ihBound ctx) fun _ => ihBody _
  | builtin name => exact .fail

theorem Definition.checkAll_records (ctx : Env Ty) (ds : List Definition) :
    (Definition.checkAll ctx ds).Records fun m => m.expected ≠ m.actual := by
  induction ds with
  | nil => exact .pure
  | cons d ds ih =>
    have hd : (d.check ctx).Records fun m => m.expected ≠ m.actual :=
      .bind (.mapError (Term.infer_records ctx d.body)) fun _ => .require
    exact .bind hd fun _ => ih

theorem Program.infer_records (registry : Registry) (p : Program) :
    (p.infer registry).Records fun m => m.expected ≠ m.actual :=
  .bind (Definition.checkAll_records _ p.definitions) fun _ =>
    .mapError (Term.infer_records _ p.main)

/-- **A checker records types that differ**, after any calls. -/
theorem Checker.ne_of_mem_recorded {calls : List Call} {m : Mismatch}
    (h : m ∈ (fresh.performAll calls).2.recorded) : m.expected ≠ m.actual := by
  rw [performAll_eq] at h
  obtain ⟨call, _, hm⟩ := List.mem_flatMap.mp h
  cases call with
  | term ctx x =>
    rw [perform, Term.inferOn_adds ctx x fresh] at hm
    exact Term.infer_records ctx x m hm
  | program registry p =>
    rw [perform, Program.inferOn_adds registry p fresh] at hm
    exact Program.infer_records registry p m hm

/-- **Reading undoes showing.** A type is read from what is shown of it, and nothing but the end of
input is left; in parentheses it is read as an atom. So types that differ are shown differently, and
no mismatch that a checker ever records shows one text for the expected and the actual type. -/
theorem Ty.readType_render :
    (∀ t : Ty,
      (∃ last, last.kind = .eof ∧
        Parser.readType (Lexer.tokensOf t.render) = .ok (t, [last])) ∧
      ∃ last, last.kind = .eof ∧
        Parser.readAtomType (Lexer.tokensOf ("(" ++ t.render ++ ")")) = .ok (t, [last])) ∧
    (∀ t u : Ty, t ≠ u → t.render ≠ u.render) ∧
    ∀ (calls : List Checker.Call), ∀ m ∈ (Checker.fresh.performAll calls).2.recorded,
      m.render = "TYPE-ERROR: " ++ m.site.render ++ ", expected " ++ m.expected.render ++
        " but got " ++ m.actual.render ∧
      m.expected.render ≠ m.actual.render := by
  refine ⟨fun t => ⟨readType_tokensOf t, readAtomType_tokensOf t⟩, ?_, ?_⟩
  · exact fun t u hne hrender => hne (render_injective hrender)
  · intro calls m hm
    exact ⟨rfl, fun hrender => Checker.ne_of_mem_recorded hm (render_injective hrender)⟩

end TypedLambda
