import TypedLambda.Proofs.Lexing.Closing

/-!
# Any use of a cursor

A cursor may be used in any order: tokens with or without their trivia, closing the file, asking for
the error. It answers as its lexer does. There each call takes some tokens off the one stream that
the text determines (`Lexer.exists_perform_stream`), and closing the file does not touch the text.
How often the file was closed and which error was met follow an invariant that every call keeps
(`Lexer.Orderly`): the file is closed at the end of the text at the latest, and before the end there
is no error. Runs of calls inherit both (`Lexer.performAll_of_step`), which gives
`Cursor.performAll_one_stream`.
-/

namespace TypedLambda

/-- The tokens that a reply gives: its trivia, and then the token without them. -/
def Cursor.Reply.tokens : Reply → List Token
  | significant t => t.trivia ++ [{ t with trivia := [] }]
  | token t => [t]
  | closed _ => []
  | lastError _ => []

namespace Lexer

open Cursor (Call Reply)

variable {l l' : Lexer}

/-! ## The stream of tokens -/

/-- The first tokens that a lexer gives when it is asked for nothing else, trivia included. -/
def stream (l : Lexer) (n : Nat) : List Token := (List.range n).map l.tokenAt

theorem stream_succ (l : Lexer) (n : Nat) : l.stream (n + 1) = l.stream n ++ [l.tokenAt n] := by
  rw [stream, List.range_succ, List.map_append]
  rfl

theorem stream_add (l : Lexer) (n m : Nat) :
    l.stream (n + m) = l.stream n ++ (l.advanced n).stream m := by
  have htokens : ∀ i, l.tokenAt (n + i) = (l.advanced n).tokenAt i := by
    intro i
    rw [tokenAt, tokenAt, advanced_add]
  rw [stream, List.range_add, List.map_append, List.map_map]
  exact congrArg _ (List.map_congr_left fun i _ => htokens i)

structure SameText (l l' : Lexer) : Prop where
  rest : l.rest = l'.rest
  pos : l.pos = l'.pos

theorem SameText.refl (l : Lexer) : l.SameText l := ⟨rfl, rfl⟩

theorem SameText.trans {l'' : Lexer} (h : l.SameText l') (h' : l'.SameText l'') :
    l.SameText l'' :=
  ⟨h.rest.trans h'.rest, h.pos.trans h'.pos⟩

theorem SameText.advance (h : l.SameText l') :
    l.advance.1 = l'.advance.1 ∧ l.advance.2.SameText l'.advance.2 := by
  unfold Lexer.advance
  rw [h.rest, h.pos]
  cases hrest : l'.rest with
  | nil => exact ⟨rfl, h⟩
  | cons c cs =>
    refine ⟨rfl, ?_, ?_⟩
    · rw [rest_settle, rest_settle]
    · rw [pos_settle, pos_settle]

theorem SameText.advanced (h : l.SameText l') (n : Nat) :
    (l.advanced n).SameText (l'.advanced n) := by
  induction n generalizing l l' with
  | zero => exact h
  | succ n ih => exact ih h.advance.2

theorem SameText.stream_eq (h : l.SameText l') (n : Nat) : l.stream n = l'.stream n :=
  List.map_congr_left fun i _ => (h.advanced i).advance.1

theorem sameText_close (l : Lexer) : l.close.2.SameText l := by
  unfold close
  split
  · exact ⟨rfl, rfl⟩
  · exact .refl l

/-! ## Tokens of a session -/

theorem trivia_toToken (p : Pos) (cs : List Char) (lexeme : Lexeme) :
    (lexeme.toToken p cs).trivia = [] := by
  unfold Lexeme.toToken
  split <;> rfl

theorem bare_tokenAt (l : Lexer) (j : Nat) :
    ({ l.tokenAt j with trivia := [] } : Token) = l.tokenAt j := by
  have htrivia : (l.tokenAt j).trivia = [] := by
    unfold tokenAt advance
    split
    · rfl
    · exact trivia_toToken _ _ _
  generalize l.tokenAt j = t at htrivia ⊢
  obtain ⟨kind, span, data, trivia⟩ := t
  exact congrArg (Token.mk kind span data) htrivia.symm

/-- **One call** takes tokens off the stream and leaves the lexer after them. -/
theorem exists_perform_stream (l : Lexer) (c : Call) :
    ∃ n, (l.perform c).1.tokens = l.stream n ∧ (l.perform c).2.SameText (l.advanced n) := by
  cases c with
  | next =>
    obtain ⟨j, hnext⟩ := exists_nextAfter_stream [] l
    refine ⟨j + 1, ?_, ?_⟩
    · show (Reply.significant (l.nextAfter []).1).tokens = _
      rw [hnext, stream_succ, ← bare_tokenAt]
      rfl
    · show (l.nextAfter []).2.SameText _
      rw [hnext]
      exact .refl _
  | advance => exact ⟨1, rfl, .refl _⟩
  | close => exact ⟨0, rfl, sameText_close l⟩
  | lastError => exact ⟨0, rfl, .refl l⟩

/-- **Any calls** take tokens off the stream one after the other. -/
theorem exists_performAll_stream (l : Lexer) (cs : List Call) :
    ∃ n, (l.performAll cs).1.flatMap Reply.tokens = l.stream n ∧
      (l.performAll cs).2.SameText (l.advanced n) := by
  induction cs generalizing l with
  | nil => exact ⟨0, rfl, .refl l⟩
  | cons c cs ih =>
    obtain ⟨n, hfirst, hstate⟩ := exists_perform_stream l c
    obtain ⟨m, hlater, hend⟩ := ih (l.perform c).2
    refine ⟨n + m, ?_, ?_⟩
    · rw [stream_add, ← hstate.stream_eq, ← hfirst, ← hlater]
      rfl
    · rw [← advanced_add]
      exact hend.trans (hstate.advanced m)

/-! ## What every call keeps -/

theorem performAll_append (l : Lexer) (before after : List Call) :
    l.performAll (before ++ after) =
      ((l.performAll before).1 ++ ((l.performAll before).2.performAll after).1,
        ((l.performAll before).2.performAll after).2) := by
  induction before generalizing l with
  | nil => rfl
  | cons c cs ih =>
    rw [List.cons_append, performAll, ih]
    rfl

/-- What holds of the reply of each call made in a state of some kind, and keeps the states of that
kind, holds of all replies. -/
theorem performAll_of_step {P : Lexer → Prop} {Q : Reply → Prop}
    (hstep : ∀ l c, P l → P (l.perform c).2 ∧ Q (l.perform c).1) (h : P l) (cs : List Call) :
    P (l.performAll cs).2 ∧ ∀ r ∈ (l.performAll cs).1, Q r := by
  induction cs generalizing l with
  | nil => exact ⟨h, List.forall_mem_nil _⟩
  | cons c cs ih =>
    obtain ⟨hnext, hreply⟩ := hstep l c h
    obtain ⟨hend, hreplies⟩ := ih hnext
    exact ⟨hend, List.forall_mem_cons.mpr ⟨hreply, hreplies⟩⟩

theorem perform_of_step {P : Lexer → Prop} (hadvance : ∀ l, P l → P l.advance.2)
    (hclose : ∀ l, P l → P l.close.2) (h : P l) (c : Call) : P (l.perform c).2 := by
  cases c with
  | next =>
    obtain ⟨j, hnext⟩ := exists_nextAfter_stream [] l
    show P (l.nextAfter []).2
    rw [hnext]
    exact advanced_of_step hadvance h (j + 1)
  | advance => exact hadvance l h
  | close => exact hclose l h
  | lastError => exact h

/-- The state of a lexer of the file `f` however it was used. The file is closed once or not yet,
and where no characters are left it is closed; an error is met only there, and that of the reading
is. -/
structure Orderly (f : OpenFile) (l : Lexer) : Prop where
  readError : l.readError = f.readError
  closeError : l.closeError = f.closeError
  closes : l.closes = if l.isOpen then 0 else 1
  isOpen : l.rest = [] → l.isOpen = false
  error_before : l.rest ≠ [] → l.error = none
  error_after : l.rest = [] → ∀ e, f.readError = some e → l.error = some e

variable {f : OpenFile}

theorem orderly_settle (hread : l.readError = f.readError) (hclose : l.closeError = f.closeError)
    (hcloses : l.closes = if l.isOpen then 0 else 1) (herror : l.error = none) :
    l.settle.Orderly f := by
  obtain ⟨rest, pos, readError, closeError, isOpen, closes, error⟩ := l
  obtain rfl : closes = if isOpen then 0 else 1 := hcloses
  obtain rfl : error = none := herror
  cases rest with
  | nil =>
    have herror : ∀ e, f.readError = some e → ∀ other, readError.or other = some e := by
      intro e he other
      rw [show readError = _ from hread, he]
      rfl
    cases isOpen <;>
      exact ⟨hread, hclose, rfl, fun _ => rfl, fun hne => absurd rfl hne,
        fun _ e he => herror e he _⟩
  | cons c cs => exact ⟨hread, hclose, rfl, by rintro ⟨⟩, fun _ => rfl, by rintro ⟨⟩⟩

theorem orderly_ofFile (f : OpenFile) : (ofFile f).Orderly f := orderly_settle rfl rfl rfl rfl

theorem Orderly.advance (h : l.Orderly f) : l.advance.2.Orderly f := by
  unfold Lexer.advance
  split
  · exact h
  · next c cs hrest =>
    exact orderly_settle h.readError h.closeError h.closes (h.error_before (by simp [hrest]))

theorem Orderly.close (h : l.Orderly f) : l.close.2.Orderly f := by
  unfold Lexer.close
  split
  · next hopen =>
    have hcloses : l.closes + 1 = 1 := by rw [h.closes, if_pos hopen]
    exact ⟨h.readError, h.closeError, hcloses, fun _ => rfl, h.error_before, h.error_after⟩
  · exact h

/-- **Any calls** leave a lexer orderly. -/
theorem Orderly.performAll (h : l.Orderly f) (cs : List Call) : (l.performAll cs).2.Orderly f := by
  have hstep (l : Lexer) (c : Call) (h : l.Orderly f) : (l.perform c).2.Orderly f ∧ True :=
    ⟨perform_of_step (fun _ => Orderly.advance) (fun _ => Orderly.close) h c, trivial⟩
  exact (performAll_of_step (Q := fun _ => True) hstep h cs).1

theorem Orderly.closes_le (h : l.Orderly f) : l.closes ≤ 1 := by
  rw [h.closes]
  split <;> omega

theorem Orderly.closes_eq_one_iff (h : l.Orderly f) : l.closes = 1 ↔ l.isOpen = false := by
  rw [h.closes]
  cases l.isOpen <;> simp

theorem Orderly.closes_eq_zero_iff (h : l.Orderly f) : l.closes = 0 ↔ l.isOpen = true := by
  rw [h.closes]
  cases l.isOpen <;> simp

theorem Orderly.rest_of_error (h : l.Orderly f) {e : String} (he : l.error = some e) :
    l.rest = [] := by
  cases hrest : l.rest with
  | nil => rfl
  | cons c cs =>
    rw [h.error_before (by simp [hrest])] at he
    cases he

/-! ## After the closing and after an error -/

theorem isOpen_close (l : Lexer) : l.close.2.isOpen = false := by
  unfold close
  split
  · rfl
  · next hopen => exact Bool.eq_false_iff.mpr hopen

theorem isOpen_settle (h : l.isOpen = false) : l.settle.isOpen = false := by
  unfold settle close
  split
  · simp [h]
  · exact h

theorem isOpen_advance (h : l.isOpen = false) : l.advance.2.isOpen = false := by
  unfold advance
  split
  · exact h
  · exact isOpen_settle h

theorem performAll_of_closed (h : l.isOpen = false) (cs : List Call) :
    (l.performAll cs).2.isOpen = false ∧
      ∀ r ∈ (l.performAll cs).1, ∀ e, r = .closed e → e = none := by
  refine performAll_of_step (P := fun l => l.isOpen = false)
    (Q := fun r => ∀ e, r = .closed e → e = none) (fun l c h => ⟨?_, ?_⟩) h cs
  · refine perform_of_step (P := fun l => l.isOpen = false) (fun _ => isOpen_advance) ?_ h c
    exact fun l _ => isOpen_close l
  · cases c with
    | close =>
      rintro e ⟨⟩
      rw [close, if_neg (by simp [h])]
    | next | advance | lastError => rintro e ⟨⟩

theorem performAll_of_end {error : Option String} (hrest : l.rest = []) (herror : l.error = error)
    (cs : List Call) :
    ((l.performAll cs).2.rest = [] ∧ (l.performAll cs).2.error = error) ∧
      ∀ r ∈ (l.performAll cs).1, ∀ e, r = .lastError e → e = error := by
  refine performAll_of_step (P := fun l => l.rest = [] ∧ l.error = error)
    (Q := fun r => ∀ e, r = .lastError e → e = error) (fun l c h => ⟨?_, ?_⟩) ⟨hrest, herror⟩ cs
  · refine perform_of_step (P := fun l => l.rest = [] ∧ l.error = error) ?_ ?_ h c
    · intro l h
      rwa [advance_of_end h.1]
    · intro l h
      unfold close
      split <;> exact h
  · cases c with
    | lastError =>
      rintro e ⟨⟩
      exact h.2
    | next | advance | close => rintro e ⟨⟩

theorem rest_of_mem_stream {t : Token} {n : Nat} (ht : t ∈ l.stream n) (hkind : t.kind = .eof) :
    (l.advanced n).rest = [] := by
  obtain ⟨i, hi, rfl⟩ := List.mem_map.mp ht
  have hend : (l.advanced i).rest = [] := rest_eq_nil_of_advance hkind
  have hlater := advanced_of_step (P := fun l => l.rest = []) (fun l h => ?_) hend (n - i)
  · rwa [advanced_add, Nat.add_sub_cancel' (Nat.le_of_lt (List.mem_range.mp hi))] at hlater
  · rwa [advance_of_end h]

theorem isOpen_of_close_mem {cs : List Call} (h : .close ∈ cs) (l : Lexer) :
    (l.performAll cs).2.isOpen = false := by
  obtain ⟨before, after, rfl⟩ := List.append_of_mem h
  rw [performAll_append]
  exact (performAll_of_closed (isOpen_close _) after).1

end Lexer

namespace Cursor

theorem performAll_append {c c' c'' : Cursor} {before after : List Call} {rs rs' : List Reply}
    (hbefore : c.performAll before = .ok (rs, c')) (hafter : c'.performAll after = .ok (rs', c'')) :
    c.performAll (before ++ after) = .ok (rs ++ rs', c'') := by
  induction before generalizing c rs with
  | nil =>
    cases hbefore
    exact hafter
  | cons call calls ih =>
    obtain ⟨⟨r, c₁⟩, hcall, hbefore⟩ := bind_eq_ok hbefore
    obtain ⟨⟨rest, c₂⟩, hcalls, hbefore⟩ := bind_eq_ok hbefore
    cases hbefore
    rw [List.cons_append, performAll, hcall, ok_bind]
    exact congrArg (· >>= _) (ih hcalls)

/-- **Any use of a cursor sees one stream of tokens.** Whatever calls are made on the cursor at the
beginning of a file, and however the file fails: they are all answered, without a fault, so that the
file is never read again after its end. The tokens of the replies, each after its trivia, are the
first ones of the stream that asking for single tokens gives. The file is closed at most once, and
exactly once as soon as closing was called for or the end of input was given. The closing that
closes it answers with the file's error, and every later one without an error. The error that was
met never changes, and it is the error of the reading where that fails and the end of input was
given. -/
theorem performAll_one_stream (file : OpenFile) :
    ∃ (c : Cursor) (token : Nat → Token), ofFile file = .ok c ∧ c.Streams token ∧
      ∀ script : List Call, ∃ replies state, c.performAll script = .ok (replies, state) ∧
        let tokens := replies.flatMap Reply.tokens
        (∃ n, tokens = (List.range n).map token) ∧
        state.file.closes ≤ 1 ∧
        (.close ∈ script ∨ (∃ t ∈ tokens, t.kind = .eof) → state.file.closes = 1) ∧
        (state.file.closes = 0 → state.close.1 = file.closeError) ∧
        ((∃ t ∈ tokens, t.kind = .eof) →
          ∀ e, file.readError = some e → state.file.error = some e) ∧
        ∀ later : List Call, ∃ replies' state',
          state.performAll later = .ok (replies', state') ∧
          c.performAll (script ++ later) = .ok (replies ++ replies', state') ∧
          (state.file.closes = 1 → ∀ e, .closed e ∈ replies' → e = none) ∧
          ∀ e, state.file.error = some e → state'.file.error = some e ∧
            ∀ e', .lastError e' ∈ replies' → e' = some e := by
  obtain ⟨c, hc, hrefines⟩ := refines_ofFile file
  refine ⟨c, (Lexer.ofFile file).tokenAt, hc, hrefines.streams, fun script => ?_⟩
  obtain ⟨state, hscript, hstate⟩ := hrefines.performAll script
  have horderly := (Lexer.orderly_ofFile file).performAll script
  obtain ⟨n, htokens, htext⟩ := Lexer.exists_performAll_stream (Lexer.ofFile file) script
  have hend :
      (∃ t ∈ ((Lexer.ofFile file).performAll script).1.flatMap Reply.tokens, t.kind = .eof) →
      ((Lexer.ofFile file).performAll script).2.rest = [] := by
    rintro ⟨t, ht, hkind⟩
    rw [htokens] at ht
    exact htext.rest.trans (Lexer.rest_of_mem_stream ht hkind)
  refine ⟨_, state, hscript, ⟨n, htokens⟩, ?_, ?_, ?_, ?_, ?_⟩
  · rw [hstate.closes]
    exact horderly.closes_le
  · intro h
    rw [hstate.closes]
    refine horderly.closes_eq_one_iff.mpr ?_
    rcases h with hclose | heof
    · exact Lexer.isOpen_of_close_mem hclose _
    · exact horderly.isOpen (hend heof)
  · intro hcloses
    rw [hstate.closes] at hcloses
    rw [hstate.close.1, Lexer.close, if_pos (horderly.closes_eq_zero_iff.mp hcloses),
      horderly.closeError]
  · intro heof e he
    rw [hstate.error]
    exact horderly.error_after (hend heof) e he
  · intro later
    obtain ⟨state', hlater, hstate'⟩ := hstate.performAll later
    refine ⟨_, state', hlater, performAll_append hscript hlater, ?_, ?_⟩
    · intro hcloses e he
      rw [hstate.closes] at hcloses
      have hopen := horderly.closes_eq_one_iff.mp hcloses
      exact (Lexer.performAll_of_closed hopen later).2 _ he e rfl
    · intro e he
      rw [hstate.error] at he
      obtain ⟨⟨_, herror⟩, hreplies⟩ :=
        Lexer.performAll_of_end (horderly.rest_of_error he) he later
      exact ⟨hstate'.error.trans herror, fun e' he' => hreplies _ he' e' rfl⟩

end Cursor

end TypedLambda
