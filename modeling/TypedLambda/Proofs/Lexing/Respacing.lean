import TypedLambda.Proofs.Lexing.Spacing

/-!
# Writing the words of a text anew

What the lexer takes from a text depends on what follows: a name goes on as far as it can, and a
mark may be the first half of an operator. But once a word was taken, no matter what came after it,
it would also be taken as a whole before white space (`Lexeme.legible_scan`). So the words of a text
may be written with other white space between them, and its comments left out, and still be read as
the same words (`Lexer.words_respaced`).
-/

namespace TypedLambda

open Text

/-! ## Words taken from a text -/

/-- **A word that was taken is legible**, whatever came after it. -/
theorem Lexeme.legible_scan {c : Char} {cs : List Char} {kind : TokenKind} {data : String}
    (h : (scan c cs).verdict = .token kind data) (hkind : kind.isTrivia = false) :
    Word.Legible ⟨kind, data⟩ := by
  unfold scan at h
  split at h
  · obtain ⟨rfl, _⟩ := Verdict.token.inj h
    cases hkind
  · split at h
    · next hstart =>
      obtain ⟨rfl, rfl⟩ := Verdict.token.inj h
      exact Word.legible_ofWord (isWord_run hstart cs)
    · split at h
      · obtain ⟨rfl, _, hdata⟩ := exists_denotes_of_number h
        exact Word.legible_number hdata
      · split at h
        · obtain ⟨rfl, _⟩ := Verdict.token.inj h
          cases hkind
        · split at h
          · next hquote =>
            obtain rfl : c = '\x22' := by simpa using hquote
            obtain ⟨rfl, _, hdata⟩ := exists_denotes_of_string h
            exact Word.legible_string hdata
          · obtain ⟨rfl, _, htext⟩ := exists_fixedText?_of_mark h
            exact Word.legible_fixed htext

namespace Lexer

theorem legible_advance {l : Lexer} (heof : l.advance.1.kind ≠ .eof)
    (hillegal : l.advance.1.kind ≠ .illegal) (htrivia : l.advance.1.kind.isTrivia = false) :
    l.advance.1.word.Legible := by
  rcases l.advance_cases with hrest | hfault | ⟨c, cs, hscan⟩
  · rw [advance_of_end hrest] at heof
    exact absurd rfl heof
  · exact absurd hfault hillegal
  · exact Lexeme.legible_scan hscan htrivia

theorem isTrivia_nextAfter (trivia : List Token) (l : Lexer) :
    (l.nextAfter trivia).1.kind.isTrivia = false := by
  fun_induction nextAfter trivia l with
  | case1 trivia l taken _ ih => exact ih
  | case2 trivia l taken h => exact Bool.eq_false_iff.mpr h

/-! ## Legal texts -/

/-- No token is illegal, white space and comments included. -/
def Legal (l : Lexer) : Prop := ∀ j, (l.tokenAt j).kind ≠ .illegal

/-- The tokens before the end of input, without white space and comments. -/
def significant (l : Lexer) : List Token :=
  (l.tokens.map (·.1)).takeWhile fun t => t.kind != .eof

theorem Legal.of_end {l : Lexer} (h : l.rest = []) : l.Legal := by
  have hstays : ∀ l : Lexer, l.rest = [] → l.advance.2.rest = [] := by
    intro l h
    rwa [advance_of_end h]
  intro j hillegal
  rw [tokenAt, advance_of_end (advanced_of_step hstays h j)] at hillegal
  cases hillegal

theorem Legal.of_advance {l : Lexer} (hfirst : l.advance.1.kind ≠ .illegal)
    (hlater : l.advance.2.Legal) : l.Legal := by
  intro j
  cases j with
  | zero => exact hfirst
  | succ j => exact hlater j

/-- White space and comments are legal, so only the token after them matters. -/
theorem Legal.of_nextAfter {trivia : List Token} {l : Lexer}
    (hfirst : (l.nextAfter trivia).1.kind ≠ .illegal)
    (hlater : (l.nextAfter trivia).2.Legal) : l.Legal := by
  fun_induction nextAfter trivia l with
  | case1 trivia l taken h ih =>
    refine .of_advance ?_ (ih hfirst hlater)
    show taken.1.kind ≠ .illegal
    intro hillegal
    rw [hillegal] at h
    cases h
  | case2 trivia l taken h => exact .of_advance hfirst hlater

theorem Legal.of_tokens {l : Lexer} (h : ∀ p ∈ l.tokens, p.1.kind ≠ .illegal) : l.Legal := by
  fun_induction tokens l with
  | case1 l taken heof =>
    have hend : taken.2.rest = [] := (nextAfter_of_eof heof).2
    exact .of_nextAfter (h taken (List.mem_singleton_self taken)) (.of_end hend)
  | case2 l taken _ ih =>
    obtain ⟨hfirst, hlater⟩ := List.forall_mem_cons.mp h
    exact .of_nextAfter hfirst (ih hlater)

theorem words_eq_significant (l : Lexer) :
    l.tokens.map (·.1.word) = l.significant.map Token.word ++ [⟨.eof, ""⟩] := by
  unfold significant
  fun_induction tokens l with
  | case1 l taken heof =>
    have hword : taken.1.word = ⟨.eof, ""⟩ := (nextAfter_of_eof heof).1
    simp [heof, hword]
  | case2 l taken heof ih => simp [heof, ih]

theorem isTrivia_of_mem_tokens {l : Lexer} {p : Token × Lexer} (h : p ∈ l.tokens) :
    p.1.kind.isTrivia = false := by
  fun_induction tokens l with
  | case1 l taken _ =>
    rw [List.mem_singleton.mp h]
    exact isTrivia_nextAfter [] l
  | case2 l taken _ ih =>
    rcases List.mem_cons.mp h with rfl | h
    · exact isTrivia_nextAfter [] l
    · exact ih h

theorem of_mem_significant {l : Lexer} {t : Token} (h : t ∈ l.significant) :
    t.kind ≠ .eof ∧ t.kind.isTrivia = false ∧
      ∃ j trivia, t = { l.tokenAt j with trivia := trivia } := by
  have heof : t.kind ≠ .eof := by
    simpa using List.all_eq_true.mp List.all_takeWhile t h
  obtain ⟨p, hp, rfl⟩ := List.mem_map.mp ((List.takeWhile_prefix _).subset h)
  obtain ⟨j, trivia, heq⟩ := exists_of_mem_tokens hp
  exact ⟨heof, isTrivia_of_mem_tokens hp, j, trivia, congrArg Prod.fst heq⟩

theorem Legal.legible {l : Lexer} (hlegal : l.Legal) {t : Token} (h : t ∈ l.significant) :
    t.word.Legible := by
  obtain ⟨heof, htrivia, j, trivia, rfl⟩ := of_mem_significant h
  exact legible_advance heof (hlegal j) htrivia

end Lexer

/-! ## Texts of given words -/

/-- The characters of a text that a span covers. -/
def Span.textIn (s : List Char) (span : Span) : List Char :=
  (s.drop span.first.offset.toNat).take (span.last.offset + 1 - span.first.offset).toNat

/-- The words of a file up to the end of input, as they are written there. -/
def OpenFile.lexemes (file : OpenFile) : List (List Char) :=
  (Lexer.ofFile file).significant.map fun t => t.span.textIn (Utf8.chars file.bytes)

theorem Lexer.Legal.lexemes_eq {file : OpenFile} (hlegal : (ofFile file).Legal) :
    file.lexemes = ((ofFile file).significant.map Token.word).map Word.chars := by
  rw [List.map_map]
  refine List.map_congr_left fun t h => ?_
  obtain ⟨heof, _, j, trivia, rfl⟩ := of_mem_significant h
  obtain ⟨count, _, _, hendAt, hspan, _⟩ := (standsAt_ofFile file).lossless
  obtain ⟨first, last, hle, _, heq, hlexeme⟩ := hspan j
  have hj : j < count := by
    refine Nat.lt_of_not_le fun hj => heof ?_
    rw [hendAt j hj]
    rfl
  have hlength : ((last : Int) + 1 - first).toNat = last + 1 - first := by omega
  show ((ofFile file).tokenAt j).span.textIn (Utf8.chars file.bytes) =
    ((ofFile file).tokenAt j).lexeme
  rw [hlexeme hj (hlegal j), heq, ← hlength]
  rfl

/-- White space around a number of words: before the first, between neighbours and after the last.
Only between neighbours there must be some. -/
structure Gaps (count : Nat) where
  toList : List (List Char)
  length_eq : toList.length = count + 1
  blank : ∀ gap ∈ toList, ∀ c ∈ gap, isBlank c = true
  between_ne_nil : ∀ gap ∈ toList.tail.dropLast, gap ≠ []

def weave : List (List Char) → List (List Char) → List Char
  | gap :: gaps, word :: words => gap ++ word ++ weave gaps words
  | gaps, _ => gaps.flatten

theorem gapped_weave {gaps words : List (List Char)} (hlength : gaps.length = words.length + 1)
    (hblank : ∀ gap ∈ gaps, ∀ c ∈ gap, isBlank c = true) (hne : ∀ gap ∈ gaps.dropLast, gap ≠ []) :
    Word.Gapped (weave gaps words) := by
  obtain ⟨gap, gaps, rfl⟩ := List.exists_cons_of_length_eq_add_one hlength
  have hgap := hblank gap List.mem_cons_self
  cases words with
  | nil =>
    obtain rfl : gaps = [] := List.eq_nil_of_length_eq_zero (Nat.succ.inj hlength)
    show Word.Gapped [gap].flatten
    rw [List.flatten_singleton]
    exact fun c hc => hgap c (List.mem_of_mem_head? hc)
  | cons word words =>
    obtain ⟨gap', gaps, rfl⟩ := List.exists_cons_of_length_eq_add_one (Nat.succ.inj hlength)
    obtain ⟨c, cs, rfl⟩ := List.exists_cons_of_ne_nil (hne gap List.mem_cons_self)
    rintro _ ⟨⟩
    exact hgap c List.mem_cons_self

theorem exists_readable_weave {gaps : List (List Char)} {ws : List Word}
    (hlength : gaps.length = ws.length + 1)
    (hblank : ∀ gap ∈ gaps, ∀ c ∈ gap, isBlank c = true)
    (hne : ∀ gap ∈ gaps.tail.dropLast, gap ≠ []) (hlegible : ∀ w ∈ ws, w.Legible) :
    ∃ ss rest, weave gaps (ws.map Word.chars) = SpacedWord.spell ss ++ rest ∧
      ss.map SpacedWord.word = ws ∧ SpacedWord.Readable ss rest := by
  induction ws generalizing gaps with
  | nil =>
    obtain ⟨last, rfl⟩ := List.length_eq_one_iff.mp hlength
    exact ⟨[], last, List.flatten_singleton, rfl, hblank last List.mem_cons_self⟩
  | cons w ws ih =>
    obtain ⟨gap, gaps, rfl⟩ := List.exists_cons_of_length_eq_add_one hlength
    obtain ⟨hgap, hgaps⟩ := List.forall_mem_cons.mp hblank
    obtain ⟨hw, hws⟩ := List.forall_mem_cons.mp hlegible
    have hlength : gaps.length = ws.length + 1 := Nat.succ.inj hlength
    have hlater : ∀ g ∈ gaps.tail.dropLast, g ≠ [] := by
      intro g hg
      rw [← List.tail_dropLast] at hg
      exact hne g (List.mem_of_mem_tail hg)
    obtain ⟨ss, rest, htext, hwords, hss⟩ := ih hlength hgaps hlater hws
    have hgapped : Word.Gapped (weave gaps (ws.map Word.chars)) :=
      gapped_weave (by rwa [List.length_map]) hgaps hne
    rw [htext] at hgapped
    refine ⟨⟨gap, w⟩ :: ss, rest, ?_, ?_, hgap, hw _ hgapped, hss⟩
    · rw [List.map_cons, weave, htext, SpacedWord.spell_cons, SpacedWord.chars,
        List.append_assoc _ _ rest]
    · rw [List.map_cons, hwords]

namespace Lexer

theorem words_spaced {l : Lexer} {ss : List SpacedWord} {rest : List Char}
    (hl : l.rest = SpacedWord.spell ss ++ rest) (h : SpacedWord.Readable ss rest) :
    l.tokens.map (·.1.word) = ss.map SpacedWord.word ++ [⟨.eof, ""⟩] := by
  have hmap : l.tokens.map (·.1.word) = (l.tokens.map (·.1)).map Token.word := by
    rw [List.map_map]
    rfl
  rw [hmap, tokens_spaced hl h, List.map_append, SpacedWord.map_word_layOut]
  rfl

/-- **White space does not matter.** Take a text without illegal tokens and write its words anew, as
they stand in the text: one after the other, with white space between neighbours and perhaps before
the first and after the last. The new text has tokens of the same kinds that carry the same, and no
illegal one. -/
theorem words_respaced {file respaced : OpenFile} (hlegal : (ofFile file).Legal)
    (gaps : Gaps file.lexemes.length)
    (htext : Utf8.chars respaced.bytes = weave gaps.toList file.lexemes) :
    (ofFile respaced).tokens.map (·.1.word) = (ofFile file).tokens.map (·.1.word) ∧
      (ofFile respaced).Legal := by
  have hlength : gaps.toList.length = ((ofFile file).significant.map Token.word).length + 1 := by
    rw [gaps.length_eq, OpenFile.lexemes, List.length_map, List.length_map]
  obtain ⟨ss, rest, hweave, hss, hreadable⟩ := exists_readable_weave hlength gaps.blank
    gaps.between_ne_nil (List.forall_mem_map.mpr fun t ht => hlegal.legible ht)
  have hrest : (ofFile respaced).rest = SpacedWord.spell ss ++ rest := by
    rw [← hweave, ← hlegal.lexemes_eq, ← htext]
    exact rest_settle _
  have hwords : (ofFile respaced).tokens.map (·.1.word) =
      (ofFile file).tokens.map (·.1.word) := by
    rw [words_spaced hrest hreadable, hss, words_eq_significant]
  refine ⟨hwords, .of_tokens fun p hp => ?_⟩
  have hword : p.1.word ∈ (ofFile file).tokens.map (·.1.word) := hwords ▸ List.mem_map_of_mem hp
  obtain ⟨q, hq, heq⟩ := List.mem_map.mp hword
  obtain ⟨j, trivia, rfl⟩ := exists_of_mem_tokens hq
  have hkind : ((ofFile file).tokenAt j).kind = p.1.kind := congrArg Word.kind heq
  rw [← hkind]
  exact hlegal j

end Lexer

/-- Words that stand side by side, and a comment. -/
def OpenFile.dense : OpenFile := ⟨Utf8.encode "if x==1then\"a b\"++y#z".toList, none, none⟩

def Gaps.dense : Gaps 8 where
  toList := [['\t'], [' '], [' '], ['\n'], [' '], [' ', '\n'], [' '], ['\t'], []]
  length_eq := rfl
  blank := by
    have hblank : [' ', '\t', '\n'].all isBlank = true := by decide
    simp only [List.all_cons, Bool.and_eq_true] at hblank
    simp [hblank]
  between_ne_nil := by simp

theorem Lexer.words_respaced_dense :
    let respaced : OpenFile :=
      ⟨Utf8.encode "\tif x ==\n1 then \n\"a b\" ++\ty".toList, none, none⟩
    (ofFile .dense).Legal ∧
      (∃ gaps : Gaps OpenFile.dense.lexemes.length,
        Utf8.chars respaced.bytes = weave gaps.toList OpenFile.dense.lexemes) ∧
      (ofFile respaced).tokens.map (·.1.word) = (ofFile .dense).tokens.map (·.1.word) ∧
      (ofFile respaced).Legal := by
  intro respaced
  have hkinds : ((ofFile .dense).tokens.all fun p => p.1.kind != .illegal) = true := by
    decide +kernel
  have hlegal : (ofFile .dense).Legal :=
    .of_tokens fun p hp => by simpa using List.all_eq_true.mp hkinds p hp
  have hlength : Gaps.dense.toList.length = OpenFile.dense.lexemes.length + 1 := by
    decide +kernel
  have htext : Utf8.chars respaced.bytes =
      weave Gaps.dense.toList OpenFile.dense.lexemes := by
    decide +kernel
  exact ⟨hlegal, ⟨⟨_, hlength, Gaps.dense.blank, Gaps.dense.between_ne_nil⟩, htext⟩,
    words_respaced hlegal ⟨_, hlength, Gaps.dense.blank, Gaps.dense.between_ne_nil⟩ htext⟩

end TypedLambda
