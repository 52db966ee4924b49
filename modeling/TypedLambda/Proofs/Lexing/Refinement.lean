import TypedLambda.Program.OfFile
import TypedLambda.Proofs.Lexing.Scanning

/-!
# Cursors are lexers

Between two calls a cursor stands at an offset of its text with nothing in the buffer but the
current character, and then it does what the lexer at that offset does (`Cursor.Refines`). Every
call keeps this, and none ever has a fault: no index is out of range, and the file is not read again
after its end.

* `Cursor.Refines.advance`, `Cursor.Refines.nextToken`, `Cursor.Refines.close`: the calls;
* `Cursor.Refines.performAll`: any sequence of them;
* `Program.ofFile_of_open`: a program is read from the tokens of the lexer.
-/

namespace TypedLambda

/-- The lexer that has the given text left and uses the given file. -/
def Lexer.reading (rest : List Char) (pos : Pos) (f : Handle) : Lexer :=
  ⟨rest, pos, f.readError, f.closeError, f.isOpen, f.closes, f.error⟩

namespace Handle

theorem isOpen_finish (f : Handle) : f.finish.isOpen = false := by
  cases hopen : f.isOpen <;> simp [finish, close, hopen]

theorem close_finish (f : Handle) : f.finish.close = (none, f.finish) := by
  rw [close, if_neg (by simp [isOpen_finish])]

end Handle

namespace Lexer

theorem close_reading (rest : List Char) (pos : Pos) (f : Handle) :
    (reading rest pos f).close = (f.close.1, reading rest pos f.close.2) := by
  unfold close Handle.close reading
  split <;> rfl

theorem settle_reading (rest : List Char) (pos : Pos) (f : Handle) :
    (reading rest pos f).settle = reading rest pos (if rest = [] then f.finish else f) := by
  cases rest with
  | nil =>
    cases hopen : f.isOpen <;>
      simp [settle, close, reading, Handle.finish, Handle.close, hopen, Option.or_assoc]
  | cons c cs => rfl

def standing (s : List Char) (f : Handle) (b : Nat) : Lexer :=
  reading (s.drop b) (Pos.within s b) (if b = s.length then f.finish else f)

theorem settle_standing {s : List Char} {f : Handle} {b : Nat} (hb : b ≤ s.length) :
    (reading (s.drop b) (Pos.within s b) f).settle = standing s f b := by
  have hiff : s.drop b = [] ↔ b = s.length := by
    rw [List.drop_eq_nil_iff]
    omega
  simp only [settle_reading, hiff]
  rfl

theorem advance_standing {s : List Char} {f : Handle} {b : Nat} {ch : Char} {cs : List Char}
    (hcs : s.drop b = ch :: cs) :
    (standing s f b).advance = ((Lexeme.scan ch cs).toToken (Pos.within s b) (s.drop b),
      standing s f (b + (Lexeme.scan ch cs).length)) := by
  have hb : b < s.length := Cursor.lt_length_of_drop hcs
  have hfits : (Lexeme.scan ch cs).Fits (s.drop b) := hcs ▸ Lexeme.scan_fits ch cs
  have hle : b + (Lexeme.scan ch cs).length ≤ s.length := by
    have hlength := hfits.le
    rw [List.length_drop] at hlength
    omega
  have hdrop : cs.drop ((Lexeme.scan ch cs).length - 1) =
      s.drop (b + (Lexeme.scan ch cs).length) := by
    obtain ⟨m, hm⟩ := Nat.exists_eq_add_one.mpr hfits.pos
    rw [hm, ← List.drop_drop, hcs]
    rfl
  have hstanding : standing s f b = reading (ch :: cs) (Pos.within s b) f := by
    rw [standing, if_neg (Nat.ne_of_lt hb), hcs]
  rw [hstanding, hcs, ← settle_standing hle, ← hdrop, ← Pos.advance_within s hle, hcs]
  rfl

theorem advance_standing_end (s : List Char) (f : Handle) :
    (standing s f s.length).advance =
      (.endAt (Pos.within s s.length), standing s f s.length) := by
  have hrest : (standing s f s.length).rest = [] := List.drop_length
  unfold advance
  rw [hrest]
  rfl

end Lexer

namespace Cursor

/-- The cursor stands at an offset of its text, and the lexer does so too. -/
def Refines (c : Cursor) (l : Lexer) : Prop :=
  ∃ s f b, b ≤ s.length ∧ c = standing s f b b ∧ l = Lexer.standing s f b

variable {c : Cursor} {l : Lexer}

theorem Refines.closes (h : c.Refines l) : c.file.closes = l.closes := by
  obtain ⟨s, f, b, _, rfl, rfl⟩ := h
  rfl

theorem Refines.error (h : c.Refines l) : c.file.error = l.error := by
  obtain ⟨s, f, b, _, rfl, rfl⟩ := h
  rfl

theorem refines_ofFile (file : OpenFile) :
    ∃ c, ofFile file = .ok c ∧ c.Refines (Lexer.ofFile file) :=
  ⟨_, ofFile_eq file, Text.Utf8.chars file.bytes, .ofFile file, 0, Nat.zero_le _, rfl,
    Lexer.settle_standing (f := .ofFile file) (Nat.zero_le _)⟩

/-! ## Calls -/

/-- **Taking a token**, white space and comments included. -/
theorem Refines.advance (h : c.Refines l) :
    ∃ c', c.advance = .ok (l.advance.1, c') ∧ c'.Refines l.advance.2 := by
  obtain ⟨s, f, b, hb, rfl, rfl⟩ := h
  rcases Nat.lt_or_eq_of_le hb with hlt | rfl
  · obtain ⟨ch, cs, hcs⟩ : ∃ ch cs, s.drop b = ch :: cs := ⟨_, _, List.drop_eq_getElem_cons hlt⟩
    have hscan : (standing s f b b).scan = _ := scan_takes hcs
    have hle : b + (Lexeme.scan ch cs).length ≤ s.length := by
      have hlength := (Lexeme.scan_fits ch cs).le
      have htext := add_length_of_drop hcs
      omega
    rw [Lexer.advance_standing hcs]
    refine ⟨_, ?_, s, f, _, hle, rfl, rfl⟩
    unfold Cursor.advance
    rw [hscan, ok_bind]
    exact congrArg (· >>= _) (reset_standing (Nat.le_add_right _ _) hle)
  · rw [Lexer.advance_standing_end]
    refine ⟨_, ?_, s, f, s.length, Nat.le_refl _, rfl, rfl⟩
    unfold Cursor.advance
    rw [scan_end, ok_bind]
    exact congrArg (· >>= _) (reset_standing (Nat.le_refl _) (Nat.le_refl _))

theorem nextTokenAfter_eq (trivia : List Token) (c : Cursor) :
    c.nextTokenAfter trivia = c.advance >>= fun q =>
      if q.1.kind.isTrivia then q.2.nextTokenAfter (trivia ++ [q.1])
      else pure ({ q.1 with trivia }, q.2) := by
  rw [nextTokenAfter]
  cases c.advance <;> rfl

theorem nextTokenAfter_refines (trivia : List Token) (l : Lexer) :
    ∀ c : Cursor, c.Refines l →
      ∃ c', c.nextTokenAfter trivia = .ok ((l.nextAfter trivia).1, c') ∧
        c'.Refines (l.nextAfter trivia).2 := by
  fun_induction Lexer.nextAfter trivia l with
  | case1 trivia l taken htrivia ih =>
    intro c h
    obtain ⟨c₁, hadvance, hrefines⟩ := h.advance
    obtain ⟨c₂, hnext, hafter⟩ := ih c₁ hrefines
    refine ⟨c₂, ?_, hafter⟩
    rw [nextTokenAfter_eq, hadvance, ok_bind, if_pos htrivia]
    exact hnext
  | case2 trivia l taken htrivia =>
    intro c h
    obtain ⟨c₁, hadvance, hrefines⟩ := h.advance
    refine ⟨c₁, ?_, hrefines⟩
    rw [nextTokenAfter_eq, hadvance, ok_bind, if_neg htrivia]
    rfl

/-- **Taking a token** with the white space and comments before it. -/
theorem Refines.nextToken (h : c.Refines l) :
    ∃ c', c.nextToken = .ok (l.next.1, c') ∧ c'.Refines l.next.2 :=
  nextTokenAfter_refines [] l c h

/-- **Closing the file** does not touch the text. -/
theorem Refines.close (h : c.Refines l) : c.close.1 = l.close.1 ∧ c.close.2.Refines l.close.2 := by
  obtain ⟨s, f, b, hb, rfl, rfl⟩ := h
  rw [Lexer.standing, Lexer.close_reading]
  refine ⟨rfl, ?_⟩
  by_cases hend : b = s.length
  · refine ⟨s, f, b, hb, ?_, ?_⟩
    · simp [Cursor.close, standing, ahead, hend, Handle.close_finish]
    · rw [if_pos hend, Handle.close_finish, Lexer.standing, if_pos hend]
  · refine ⟨s, f.close.2, b, hb, ?_, ?_⟩
    · simp [Cursor.close, standing, ahead, hend]
    · rw [if_neg hend, Lexer.standing, if_neg hend]

theorem Refines.perform (h : c.Refines l) (call : Call) :
    ∃ c', c.perform call = .ok ((l.perform call).1, c') ∧ c'.Refines (l.perform call).2 := by
  cases call with
  | next =>
    obtain ⟨c', hnext, hrefines⟩ := h.nextToken
    exact ⟨c', congrArg (· >>= _) hnext, hrefines⟩
  | advance =>
    obtain ⟨c', hadvance, hrefines⟩ := h.advance
    exact ⟨c', congrArg (· >>= _) hadvance, hrefines⟩
  | close => exact ⟨c.close.2, by rw [Cursor.perform, h.close.1]; rfl, h.close.2⟩
  | lastError => exact ⟨c, by rw [Cursor.perform, h.error]; rfl, h⟩

/-- **Any calls** are answered alike. -/
theorem Refines.performAll (h : c.Refines l) (calls : List Call) :
    ∃ c', c.performAll calls = .ok ((l.performAll calls).1, c') ∧
      c'.Refines (l.performAll calls).2 := by
  induction calls generalizing c l with
  | nil => exact ⟨c, rfl, h⟩
  | cons call calls ih =>
    obtain ⟨c₁, hcall, hrefines⟩ := h.perform call
    obtain ⟨c₂, hcalls, hafter⟩ := ih hrefines
    refine ⟨c₂, ?_, hafter⟩
    rw [Cursor.performAll, hcall, ok_bind]
    exact congrArg (· >>= _) hcalls

/-! ## Streams of tokens -/

/-- The tokens that a cursor gives when it is asked for nothing but single tokens. -/
def Streams (c : Cursor) (token : Nat → Token) : Prop :=
  ∀ n, ∃ c', c.performAll (List.replicate n .advance) =
    .ok ((List.range n).map fun j => .token (token j), c')

theorem Refines.streams (h : c.Refines l) : c.Streams l.tokenAt := by
  intro n
  obtain ⟨c', hcalls, _⟩ := h.performAll (List.replicate n .advance)
  exact ⟨c', by rw [hcalls, Lexer.performAll_advances]⟩

/-- **No character is lost and every place is true.** Asked for single tokens, a cursor at the
beginning of a file gives one after the other, and never has a fault. They come to the end of input
after at most as many others as the file has characters, and stay there. The places of every token
are those that the text determines, and a token that is neither illegal nor the end of input says
the characters that its span covers. If no token is illegal, they tile the text. -/
theorem streams_lossless (file : OpenFile) :
    let s := Text.Utf8.chars file.bytes
    ∃ (c : Cursor) (token : Nat → Token), ofFile file = .ok c ∧ c.Streams token ∧
      ∃ count ≤ s.length,
        (∀ j < count, (token j).kind ≠ .eof) ∧
        (∀ j, count ≤ j → token j = .endAt (Pos.within s s.length)) ∧
        (∀ j, ∃ first last : Nat, first ≤ last ∧ last ≤ s.length ∧
          (token j).span = ⟨Pos.within s first, Pos.within s last⟩ ∧
          ((token j).kind ≠ .illegal → (token j).kind ≠ .eof →
            (token j).lexeme = (s.drop first).take (last + 1 - first))) ∧
        ((∀ j < count, (token j).kind ≠ .illegal) →
          (0 < count → (token 0).span.first.offset = 0 ∧
            (token (count - 1)).span.last.offset = (s.length : Int) - 1) ∧
          (∀ j, j + 1 < count →
            (token (j + 1)).span.first.offset = (token j).span.last.offset + 1) ∧
          (List.range count).flatMap (fun j => (token j).lexeme) = s) := by
  intro s
  obtain ⟨c, hc, hrefines⟩ := refines_ofFile file
  obtain ⟨count, hcount, hkind, hendAt, hspan, htiles⟩ := (Lexer.standsAt_ofFile file).lossless
  refine
    ⟨c, (Lexer.ofFile file).tokenAt, hc, hrefines.streams, count, hcount, hkind, hendAt, ?_, ?_⟩
  · intro j
    obtain ⟨first, last, hle, hlast, heq, hlexeme⟩ := hspan j
    refine ⟨first, last, hle, hlast, heq, fun hillegal heof => hlexeme ?_ hillegal⟩
    -- From `count` on there is only the end of input.
    refine Nat.lt_of_not_le fun hj => heof ?_
    rw [hendAt j hj]
    rfl
  · intro hlegal
    obtain ⟨hstart, hnext, hconcat⟩ := htiles hlegal
    refine ⟨fun hpos => ⟨hstart, ?_⟩, fun j hj => hnext j (Nat.lt_of_succ_lt hj), hconcat⟩
    have hlast := hnext (count - 1) (Nat.sub_lt hpos Nat.one_pos)
    rw [Nat.sub_add_cancel hpos, hendAt count (Nat.le_refl _)] at hlast
    exact (Int.sub_eq_iff_eq_add.mpr hlast).symm

/-! ## Programs from files -/

theorem tokens_eq (c : Cursor) :
    c.tokens = c.nextToken >>= fun q =>
      if q.1.kind = .eof then pure [q] else q.2.tokens >>= fun later => pure (q :: later) := by
  rw [tokens]
  cases c.nextToken <;> rfl

theorem tokens_refines (l : Lexer) :
    ∀ c : Cursor, c.Refines l →
      ∃ ts, c.tokens = .ok ts ∧ ts.map (·.1) = l.tokens.map (·.1) ∧
        ∀ reads, (((ts.take reads).map (·.2)).getLastD c).Refines (l.after reads) := by
  unfold Lexer.after
  fun_induction Lexer.tokens l with
  | case1 l taken heof =>
    intro c h
    obtain ⟨c₁, hnext, hrefines⟩ := h.nextToken
    refine ⟨[(taken.1, c₁)], ?_, rfl, fun reads => ?_⟩
    · rw [tokens_eq, hnext, ok_bind, if_pos heof]
      rfl
    · cases reads with
      | zero => exact h
      | succ reads =>
        rw [List.take_succ_cons, List.take_succ_cons, List.take_nil, List.take_nil]
        exact hrefines
  | case2 l taken heof ih =>
    intro c h
    obtain ⟨c₁, hnext, hrefines⟩ := h.nextToken
    obtain ⟨ts, htokens, hmap, hafter⟩ := ih c₁ hrefines
    refine ⟨(taken.1, c₁) :: ts, ?_, ?_, fun reads => ?_⟩
    · rw [tokens_eq, hnext, ok_bind, if_neg heof, htokens]
      rfl
    · rw [List.map_cons, List.map_cons, hmap]
    · cases reads with
      | zero => exact h
      | succ reads =>
        rw [List.take_succ_cons, List.take_succ_cons, List.map_cons, List.map_cons,
          List.getLastD_cons, List.getLastD_cons]
        exact hafter reads

theorem Refines.reading (h : c.Refines l) (name : String) :
    c.reading name =
      .ok (let parsed := Program.parse (l.tokens.map (·.1))
        ⟨(l.after parsed.reads).close.2.closes,
          parsed.program name (l.after parsed.reads).error⟩) := by
  obtain ⟨ts, htokens, hmap, hafter⟩ := tokens_refines l c h
  have hstopped := hafter (Program.parse (l.tokens.map (·.1))).reads
  unfold Cursor.reading
  rw [htokens, ok_bind]
  simp only [hmap, hstopped.error, hstopped.close.2.closes]
  rfl

end Cursor

theorem Program.ofFile_of_not_open {fs : FileSystem} {name : String} {e : SourceError}
    (h : Source.openNamed fs name = .error e) :
    Program.ofFile fs name = ⟨0, .error (.notOpened e)⟩ := by
  rw [Program.ofFile, h]

/-- An opened file is read by the lexer, up to the token at which the parser stops. -/
theorem Program.ofFile_of_open {fs : FileSystem} {name : String} {file : OpenFile}
    (hopen : Source.openNamed fs name = .ok file) :
    Program.ofFile fs name =
      let l := Lexer.ofFile file
      let parsed := Program.parse (l.tokens.map (·.1))
      ⟨(l.after parsed.reads).close.2.closes,
        parsed.program name (l.after parsed.reads).error⟩ := by
  obtain ⟨c, hc, hrefines⟩ := Cursor.refines_ofFile file
  unfold Program.ofFile
  simp only [hopen, hc, Cursor.ok_bind, hrefines.reading]

end TypedLambda
