import TypedLambda.Proofs.Lexing.Lossless
import TypedLambda.Proofs.Lexing.Spelling

/-!
# Texts of spaced words

A text is written as words with white space before each of them. If each word is one that the lexer
takes from what follows it, then the tokens of the text are those words, at the places that the
text gives them, and the end of input (`Lexer.tokens_spaced`).

For any text at all, the tokens and the states of a lexer are met along its run
(`Lexer.exists_of_mem_tokens`), so that what every step keeps holds of all of them.
-/

namespace TypedLambda

open Text

theorem Pos.advance_append (p : Pos) (cs ds : List Char) :
    p.advance (cs ++ ds) = (p.advance cs).advance ds :=
  List.foldl_append

def NotBlankAhead (rest : List Char) : Prop := ∀ c ∈ rest.head?, isBlank c = false

namespace Lexer

/-! ## One step -/

/-- The state after some characters were taken from the front of what was left. -/
def past (l : Lexer) (taken rest : List Char) : Lexer :=
  settle { l with rest := rest, pos := l.pos.advance taken }

theorem rest_past (l : Lexer) (taken rest : List Char) : (l.past taken rest).rest = rest :=
  rest_settle _

theorem pos_past (l : Lexer) (taken rest : List Char) :
    (l.past taken rest).pos = l.pos.advance taken :=
  pos_settle _

theorem advance_of_scan {l : Lexer} {c : Char} {cs rest : List Char} {kind : TokenKind}
    {data : String} (hl : l.rest = c :: cs ++ rest)
    (hscan : Lexeme.scan c (cs ++ rest) = ⟨(c :: cs).length, .token kind data⟩) :
    l.advance = (⟨kind, Span.covering l.pos (c :: cs), data, []⟩, l.past (c :: cs) rest) := by
  have htake : (c :: (cs ++ rest)).take (c :: cs).length = c :: cs := by
    rw [← List.cons_append, List.take_left]
  have hdrop : (cs ++ rest).drop ((c :: cs).length - 1) = rest := by
    rw [List.length_cons, Nat.add_sub_cancel, List.drop_left]
  unfold advance past
  rw [hl, List.cons_append]
  simp only [hscan, Lexeme.toToken, htake, hdrop]

/-- The token of white space at a place, if there is any. -/
def blanksAt (p : Pos) (gap : List Char) : List Token :=
  if gap.isEmpty then [] else [⟨.whitespace, Span.covering p gap, String.ofList gap, []⟩]

/-- The end of input after some white space at a place. -/
def endAfter (p : Pos) (gap : List Char) : Token :=
  { Token.endAt (p.advance gap) with trivia := blanksAt p gap }

theorem next_gap {l : Lexer} {gap rest : List Char} (hl : l.rest = gap ++ rest)
    (hgap : ∀ c ∈ gap, isBlank c = true) (hrest : NotBlankAhead rest) :
    ∃ l' : Lexer, l.next = l'.nextAfter (blanksAt l.pos gap) ∧ l'.rest = rest ∧
      l'.pos = l.pos.advance gap := by
  cases gap with
  | nil => exact ⟨l, rfl, hl, rfl⟩
  | cons c cs =>
    have hrun : Lexeme.run isBlank (c :: (cs ++ rest)) = c :: cs := by
      show c :: (cs ++ rest).takeWhile isBlank = c :: cs
      rw [takeWhile_append_of_head? (fun d hd => hgap d (List.mem_cons_of_mem c hd)) hrest]
    have hscan : Lexeme.scan c (cs ++ rest) =
        ⟨(c :: cs).length, .token .whitespace (String.ofList (c :: cs))⟩ := by
      rw [Lexeme.scan, if_pos (hgap c List.mem_cons_self), hrun]
    refine ⟨l.past (c :: cs) rest, ?_, rest_past .., pos_past ..⟩
    rw [next, nextAfter, advance_of_scan hl hscan]
    rfl

theorem nextAfter_of_scan {l : Lexer} {c : Char} {cs rest : List Char} {kind : TokenKind}
    {data : String} (hl : l.rest = c :: cs ++ rest)
    (hscan : Lexeme.scan c (cs ++ rest) = ⟨(c :: cs).length, .token kind data⟩)
    (hkind : kind.isTrivia = false) (trivia : List Token) :
    l.nextAfter trivia =
      (⟨kind, Span.covering l.pos (c :: cs), data, trivia⟩, l.past (c :: cs) rest) := by
  rw [nextAfter, advance_of_scan hl hscan]
  simp only [hkind]
  rfl

theorem nextAfter_of_nil {l : Lexer} (hl : l.rest = []) (trivia : List Token) :
    l.nextAfter trivia = ({ Token.endAt l.pos with trivia := trivia }, l) := by
  rw [nextAfter, advance, hl]
  rfl

end Lexer

/-! ## Whole texts -/

structure SpacedWord where
  gap : List Char
  word : Word

namespace SpacedWord

def chars (s : SpacedWord) : List Char := s.gap ++ s.word.chars

def spell (ss : List SpacedWord) : List Char := ss.flatMap chars

/-- The token of a word whose white space begins at a place. -/
def tokenAt (p : Pos) (s : SpacedWord) : Token :=
  ⟨s.word.kind, Span.covering (p.advance s.gap) s.word.chars, s.word.data, Lexer.blanksAt p s.gap⟩

/-- The tokens of some words, one after the other from a place on. -/
def layOut (p : Pos) : List SpacedWord → List Token
  | [] => []
  | s :: ss => s.tokenAt p :: layOut (p.advance s.chars) ss

/-- The gaps are white space, each word is taken from the text that follows it, and only white space
comes after the last. -/
def Readable : List SpacedWord → List Char → Prop
  | [], rest => ∀ c ∈ rest, isBlank c = true
  | s :: ss, rest =>
    (∀ c ∈ s.gap, isBlank c = true) ∧ s.word.ReadsBefore (spell ss ++ rest) ∧ Readable ss rest

theorem spell_cons (s : SpacedWord) (ss : List SpacedWord) :
    spell (s :: ss) = s.chars ++ spell ss :=
  List.flatMap_cons

theorem spell_append (ss us : List SpacedWord) : spell (ss ++ us) = spell ss ++ spell us :=
  List.flatMap_append

theorem layOut_append (p : Pos) (ss us : List SpacedWord) :
    layOut p (ss ++ us) = layOut p ss ++ layOut (p.advance (spell ss)) us := by
  induction ss generalizing p with
  | nil => rfl
  | cons s ss ih =>
    rw [List.cons_append, layOut, ih, layOut, spell_cons, Pos.advance_append, List.cons_append]

theorem map_word_layOut (p : Pos) (ss : List SpacedWord) :
    (layOut p ss).map Token.word = ss.map SpacedWord.word := by
  induction ss generalizing p with
  | nil => rfl
  | cons s ss ih =>
    rw [layOut, List.map_cons, List.map_cons, ih]
    rfl

end SpacedWord

theorem Word.ReadsBefore.notBlankAhead {w : Word} {rest : List Char} (h : w.ReadsBefore rest) :
    NotBlankAhead (w.chars ++ rest) := by
  obtain ⟨htrivia, c, cs, hchars, hscan⟩ := h
  rw [hchars]
  rintro _ ⟨⟩
  refine Bool.eq_false_iff.mpr fun hblank => ?_
  rw [Lexeme.scan, if_pos hblank] at hscan
  obtain ⟨hkind, _⟩ := Verdict.token.inj (Lexeme.mk.inj hscan).2
  rw [← hkind] at htrivia
  cases htrivia

theorem Word.ReadsBefore.kind_ne {w : Word} {rest : List Char} (h : w.ReadsBefore rest) :
    w.kind ≠ .eof := by
  obtain ⟨_, c, cs, _, hscan⟩ := h
  have hfits := Lexeme.scan_fits c (cs ++ rest)
  rw [hscan] at hfits
  exact hfits.describes.1

namespace Lexer

open SpacedWord (spell layOut Readable)

/-- **One word** is the next token, with the white space before it. -/
theorem next_spaced {l : Lexer} {s : SpacedWord} {rest : List Char} (hl : l.rest = s.chars ++ rest)
    (hgap : ∀ c ∈ s.gap, isBlank c = true) (hword : s.word.ReadsBefore rest) :
    ∃ l' : Lexer, l.next = (s.tokenAt l.pos, l') ∧ l'.rest = rest ∧
      l'.pos = l.pos.advance s.chars := by
  rw [SpacedWord.chars, List.append_assoc] at hl
  obtain ⟨l₁, hnext, hrest, hpos⟩ := next_gap hl hgap hword.notBlankAhead
  obtain ⟨htrivia, c, cs, hchars, hscan⟩ := hword
  rw [hchars] at hrest hscan
  refine ⟨l₁.past (c :: cs) rest, ?_, rest_past .., ?_⟩
  · rw [hnext, nextAfter_of_scan hrest hscan htrivia, hpos, ← hchars]
    rfl
  · rw [pos_past, hpos, ← hchars, SpacedWord.chars, Pos.advance_append]

/-- **The tokens of a text are its words**, at the places that the text gives them, and the end of
input. -/
theorem tokens_spaced {l : Lexer} {ss : List SpacedWord} {rest : List Char}
    (hl : l.rest = spell ss ++ rest) (h : Readable ss rest) :
    l.tokens.map (·.1) = layOut l.pos ss ++ [endAfter (l.pos.advance (spell ss)) rest] := by
  induction ss generalizing l with
  | nil =>
    obtain ⟨l₁, hnext, hrest, hpos⟩ := next_gap (hl.trans (List.append_nil rest).symm) h nofun
    have hend : l.next = (endAfter l.pos rest, l₁) := by
      rw [hnext, nextAfter_of_nil hrest, hpos]
      rfl
    rw [tokens, hend]
    rfl
  | cons s ss ih =>
    obtain ⟨hgap, hword, hss⟩ := h
    rw [SpacedWord.spell_cons, List.append_assoc] at hl
    obtain ⟨l₁, hnext, hrest, hpos⟩ := next_spaced hl hgap hword
    have hkind : (s.tokenAt l.pos).kind ≠ .eof := hword.kind_ne
    rw [tokens, hnext]
    simp only [hkind, dite_false, List.map_cons]
    rw [ih hrest hss, hpos, layOut, List.cons_append, SpacedWord.spell_cons, Pos.advance_append]

/-! ## The end of input -/

/-- What a step can meet: the end of the text, a fault or a word. -/
theorem advance_cases (l : Lexer) :
    l.rest = [] ∨ l.advance.1.kind = .illegal ∨
      ∃ c cs, (Lexeme.scan c cs).verdict = .token l.advance.1.kind l.advance.1.data := by
  unfold advance
  split
  · next hrest => exact .inl hrest
  · next c cs _ =>
    right
    cases hverdict : (Lexeme.scan c cs).verdict with
    | token kind data =>
      simp only [Lexeme.toToken, hverdict]
      exact .inr ⟨c, cs, hverdict⟩
    | fault skip width why => exact .inl (by simp only [Lexeme.toToken, hverdict])

theorem advance_of_end {l : Lexer} (h : l.rest = []) : l.advance = (.endAt l.pos, l) := by
  unfold advance
  rw [h]

theorem rest_eq_nil_of_advance {l : Lexer} (h : l.advance.1.kind = .eof) : l.rest = [] := by
  rcases l.advance_cases with hrest | hfault | ⟨c, cs, hscan⟩
  · exact hrest
  · rw [h] at hfault
    cases hfault
  · have hdescribes := (Lexeme.scan_fits c cs).describes
    rw [hscan] at hdescribes
    exact absurd h hdescribes.1

theorem nextAfter_of_eof {trivia : List Token} {l : Lexer}
    (h : (l.nextAfter trivia).1.kind = .eof) :
    (l.nextAfter trivia).1.word = ⟨.eof, ""⟩ ∧ (l.nextAfter trivia).2.rest = [] := by
  fun_induction nextAfter trivia l with
  | case1 trivia l taken _ ih => exact ih h
  | case2 trivia l taken _ =>
    have hrest := rest_eq_nil_of_advance h
    have htaken : taken = (.endAt l.pos, l) := advance_of_end hrest
    rw [htaken]
    exact ⟨rfl, hrest⟩

theorem tokens_eq_concat (l : Lexer) : ∃ front last, l.tokens = front ++ [last] ∧
    (∀ p ∈ front, p.1.kind ≠ .eof) ∧ last.1.kind = .eof ∧ last.2.rest = [] := by
  fun_induction tokens l with
  | case1 l taken heof =>
    exact ⟨[], taken, rfl, List.forall_mem_nil _, heof, (nextAfter_of_eof heof).2⟩
  | case2 l taken hne ih =>
    obtain ⟨front, last, heq, hfront, hlast⟩ := ih
    refine ⟨taken :: front, last, by rw [heq]; rfl, ?_, hlast⟩
    exact List.forall_mem_cons.mpr ⟨hne, hfront⟩

/-! ## Whatever the text -/

theorem advanced_add (l : Lexer) (i j : Nat) : (l.advanced i).advanced j = l.advanced (i + j) := by
  induction i generalizing l with
  | zero => rw [Nat.zero_add, advanced]
  | succ i ih => rw [advanced, ih, Nat.add_right_comm, advanced]

theorem advanced_of_step {P : Lexer → Prop} (hstep : ∀ l, P l → P l.advance.2) {l : Lexer}
    (h : P l) (j : Nat) : P (l.advanced j) := by
  induction j generalizing l with
  | zero => exact h
  | succ j ih => exact ih (hstep l h)

/-- The next token comes with all tokens of the run before it as its trivia. -/
theorem exists_nextAfter_stream (trivia : List Token) (l : Lexer) :
    ∃ j, l.nextAfter trivia =
      ({ l.tokenAt j with trivia := trivia ++ (List.range j).map l.tokenAt },
        l.advanced (j + 1)) := by
  fun_induction nextAfter trivia l with
  | case1 trivia l taken _ ih =>
    obtain ⟨j, h⟩ := ih
    refine ⟨j + 1, ?_⟩
    rw [h, List.append_assoc, List.range_succ_eq_map, List.map_cons, List.map_map]
    rfl
  | case2 trivia l taken _ =>
    refine ⟨0, ?_⟩
    rw [List.range_zero, List.map_nil, List.append_nil]
    rfl

theorem exists_nextAfter_eq (trivia : List Token) (l : Lexer) :
    ∃ j trivia', l.nextAfter trivia =
      ({ l.tokenAt j with trivia := trivia' }, l.advanced (j + 1)) := by
  obtain ⟨j, h⟩ := exists_nextAfter_stream trivia l
  exact ⟨j, _, h⟩

theorem exists_of_mem_tokens {l : Lexer} {p : Token × Lexer} (h : p ∈ l.tokens) :
    ∃ j trivia, p = ({ l.tokenAt j with trivia := trivia }, l.advanced (j + 1)) := by
  fun_induction tokens l with
  | case1 l taken _ =>
    rw [List.mem_singleton.mp h]
    exact exists_nextAfter_eq [] l
  | case2 l taken _ ih =>
    obtain ⟨i, trivia, htaken⟩ := exists_nextAfter_eq [] l
    rcases List.mem_cons.mp h with rfl | h
    · exact ⟨i, trivia, htaken⟩
    · obtain ⟨j, trivia, hp⟩ := ih h
      have hstate : taken.2 = l.advanced (i + 1) := congrArg Prod.snd htaken
      refine ⟨i + 1 + j, trivia, ?_⟩
      rw [hp, tokenAt, tokenAt, hstate, advanced_add, advanced_add]
      rfl

theorem after_of_step {P : Lexer → Prop} (hstep : ∀ l, P l → P l.advance.2) {l : Lexer} (h : P l)
    (reads : Nat) : P (l.after reads) := by
  have hlast : l.after reads ∈ l :: (l.tokens.take reads).map (·.2) := List.getLastD_mem_cons
  rcases List.mem_cons.mp hlast with hfirst | hlater
  · rwa [hfirst]
  · obtain ⟨p, hp, heq⟩ := List.mem_map.mp hlater
    obtain ⟨j, trivia, rfl⟩ := exists_of_mem_tokens (List.mem_of_mem_take hp)
    rw [← heq]
    exact advanced_of_step hstep h (j + 1)

theorem spelled_toToken {lexeme : Lexeme} (h : lexeme.verdict.Spelled) (p : Pos)
    (cs : List Char) : (lexeme.toToken p cs).word.Spelled := by
  unfold Lexeme.toToken
  split
  · next hverdict =>
    rw [hverdict] at h
    exact h
  · exact @Word.spelled_of_ne .illegal _ (by decide) (by decide) (by decide)

theorem spelled_advance (l : Lexer) : l.advance.1.word.Spelled := by
  unfold advance
  split
  · exact @Word.spelled_of_ne .eof _ (by decide) (by decide) (by decide)
  · next c cs _ => exact spelled_toToken (Lexeme.scan_spelled c cs) l.pos (c :: cs)

/-- **Every token carries what its kind promises.** -/
theorem spelled_of_mem_tokens {l : Lexer} {p : Token × Lexer} (h : p ∈ l.tokens) :
    p.1.word.Spelled := by
  obtain ⟨j, trivia, rfl⟩ := exists_of_mem_tokens h
  exact spelled_advance (l.advanced j)

structure Healthy (l : Lexer) : Prop where
  readError : l.readError = none
  closeError : l.closeError = none
  error : l.error = none

theorem Healthy.settle {l : Lexer} (h : l.Healthy) : l.settle.Healthy := by
  obtain ⟨hread, hclose, herror⟩ := h
  unfold Lexer.settle close
  split
  · split <;> exact ⟨hread, hclose, by simp [*]⟩
  · exact ⟨hread, hclose, herror⟩

theorem Healthy.advance {l : Lexer} (h : l.Healthy) : l.advance.2.Healthy := by
  unfold Lexer.advance
  split
  · exact h
  · exact Healthy.settle ⟨h.readError, h.closeError, h.error⟩

theorem error_after {l : Lexer} (h : l.Healthy) (reads : Nat) : (l.after reads).error = none :=
  (after_of_step (fun _ => Healthy.advance) h reads).error

end Lexer

end TypedLambda
