import TypedLambda.Numeral
import TypedLambda.Text.Classes
import TypedLambda.Text.IdentContinue
import TypedLambda.Text.IdentStart
import TypedLambda.Text.Literal
import TypedLambda.Token.Cursor
import TypedLambda.Token.LexicalFault

/-!
# Tokens under a cursor

How a cursor takes tokens from a file. Each kind of token has a function that moves the cursor over
its characters and makes the token from the buffer and the offsets; `Cursor.advance` chooses among
them by the current character and then forgets the characters that were taken. A loop ends because
each turn brings the cursor nearer to the end of the file.
-/

namespace TypedLambda.Cursor

open Text

variable {c c' : Cursor}

theorem ne_none_of_any {p : Char → Bool} (h : c.ch.any p = true) : c.ch ≠ none := by
  intro hch
  rw [hch] at h
  cases h

theorem not_any_of_filter {p : Char → Bool} (h : c.ch.filter p = none) : ¬c.ch.any p = true := by
  cases hch : c.ch <;> simp_all

def illegal (c : Cursor) (first last : Int) (why : LexicalFault) : Except Fault Token := do
  let span ← c.spanOf first last
  pure ⟨.illegal, span, why.message, []⟩

/-! ## Runs of characters -/

/-- Go over the characters that satisfy `p`. -/
def skipWhile (p : Char → Bool) (c : Cursor) : Except Fault Cursor :=
  if _hch : c.ch.any p then
    match _hnext : c.next with
    | .ok c' => skipWhile p c'
    | .error e => .error e
  else .ok c
termination_by c.left
decreasing_by exact (left_next _hnext).2 (ne_none_of_any _hch)

def trivia (kind : TokenKind) (p : Char → Bool) (c : Cursor) : Except Fault (Token × Cursor) := do
  let stopped ← c.skipWhile p
  let span ← stopped.spanOf c.pos (stopped.pos - 1)
  let text ← stopped.taken
  pure (⟨kind, span, text, []⟩, stopped)

def word (c : Cursor) : Except Fault (Token × Cursor) := do
  let stopped ← (← c.next).skipWhile isIdentContinue
  let name ← stopped.taken
  let kind := TokenKind.ofWord name
  let span ← stopped.spanOf c.pos (stopped.pos - 1)
  pure (⟨kind, span, if kind = .ident then name else "", []⟩, stopped)

/-! ## Numbers -/

/-- What is known of the digits that were read: their number, whether an underscore may follow, and
the first fault. -/
structure Digits where
  count : Nat
  separable : Bool
  fault : Option Token

/-- A fault at an offset, unless there was one before. -/
def faultAt (c : Cursor) (offset : Int) (why : LexicalFault) :
    Option Token → Except Fault (Option Token)
  | some t => pure (some t)
  | none => do
    let t ← c.illegal offset offset why
    pure (some t)

/-- Take the current character as a digit or an underscore. -/
def digit (base : Nat) (ch : Char) (seen : Digits) (c : Cursor) : Except Fault Digits :=
  if ch == '_' then
    if seen.separable then pure { seen with separable := false }
    else do
      let fault ← c.faultAt c.pos .misplacedUnderscore seen.fault
      pure { seen with fault }
  else if (digitIn? base ch).isSome then
    pure { seen with count := seen.count + 1, separable := true }
  else do
    let fault ← c.faultAt c.pos (.wrongDigit ch base) seen.fault
    pure ⟨seen.count + 1, true, fault⟩

def digits (base : Nat) (seen : Digits) (c : Cursor) : Except Fault (Digits × Cursor) :=
  match hch : c.ch.filter (isDigitLike base) with
  | some ch => do
    let seen ← c.digit base ch seen
    match _hnext : c.next with
    | .ok c' => digits base seen c'
    | .error e => .error e
  | none =>
    if seen.separable then pure (seen, c)
    else do
      let fault ← c.faultAt (c.pos - 1) .misplacedUnderscore seen.fault
      pure ({ seen with fault }, c)
termination_by c.left
decreasing_by
  refine (left_next _hnext).2 fun hnone => ?_
  rw [hnone] at hch
  cases hch

/-- Go over the mark of a base, or over a first zero. -/
def numberBase (c : Cursor) : Except Fault (Nat × Digits × Cursor) :=
  if c.ch = some '0' then do
    let c ← c.next
    match c.ch.bind Numeral.base? with
    | some base => do
      let c ← c.next
      pure (base, ⟨0, true, none⟩, c)
    | none => pure (10, ⟨1, true, none⟩, c)
  else pure (10, ⟨0, false, none⟩, c)

def number (c : Cursor) : Except Fault (Token × Cursor) := do
  let (base, seen, c₁) ← c.numberBase
  let (seen, c₂) ← c₁.digits base seen
  match seen.fault with
  | some t => pure (t, c₂)
  | none =>
    if seen.count = 0 then
      let t ← c₂.illegal c.pos (c₂.pos - 1) .noDigits
      pure (t, c₂)
    else if c₂.ch = some '.' then
      let c₃ ← c₂.skipWhile fun ch => ch == '.' || isDecimal ch
      let t ← c₃.illegal c.pos (c₃.pos - 1) .decimalPoint
      pure (t, c₃)
    else
      let span ← c₂.spanOf c.pos (c₂.pos - 1)
      let text ← c₂.taken
      pure (⟨.number, span, text, []⟩, c₂)

/-! ## Strings -/

/-- Go over the digits of an escape, `count` more of them. -/
def escapeDigits (base limit : Nat) :
    Nat → Nat → Cursor → Except Fault (Option LexicalFault × Cursor)
  | 0, acc, c =>
    pure (if limit < acc || (0xD800 ≤ acc && acc < 0xE000) then some .invalidCodePoint else none, c)
  | count + 1, acc, c =>
    match c.ch with
    | none => pure (some .unterminatedEscape, c)
    | some ch => do
      let c' ← c.next
      match digitIn? base ch with
      | some d => escapeDigits base limit count (acc * base + d) c'
      | none => pure (some (.wrongEscapeChar ch), c')

def escape (c : Cursor) : Except Fault (Option LexicalFault × Cursor) :=
  match c.ch with
  | none => pure (some .unterminatedEscape, c)
  | some ch =>
    if '0' ≤ ch && ch ≤ '7' then escapeDigits 8 255 3 0 c
    else do
      let c' ← c.next
      if isSimpleEscape ch then pure (none, c')
      else if ch == 'x' then escapeDigits 16 255 2 0 c'
      else if ch == 'u' then escapeDigits 16 0x10FFFF 4 0 c'
      else if ch == 'U' then escapeDigits 16 0x10FFFF 8 0 c'
      else pure (some .unknownEscape, c')

/-- The fault of an escape that begins at an offset, unless there was one before. -/
def escapeFault (c : Cursor) (offset : Int) (bad : Option Token) :
    Option LexicalFault → Except Fault (Option Token)
  | some why =>
    match bad with
    | some t => pure (some t)
    | none => do
      let t ← c.illegal offset (c.pos - 1) why
      pure (some t)
  | none => pure bad

theorem left_escapeDigits {base limit count acc : Nat} {why : Option LexicalFault}
    (h : escapeDigits base limit count acc c = .ok (why, c')) : c'.left ≤ c.left := by
  induction count generalizing acc c with
  | zero =>
    cases h
    exact Nat.le_refl _
  | succ count ih =>
    unfold escapeDigits at h
    split at h
    · cases h
      exact Nat.le_refl _
    · obtain ⟨c₁, hnext, h⟩ := bind_eq_ok h
      have hle := (left_next hnext).1
      split at h
      · exact Nat.le_trans (ih h) hle
      · cases h
        exact hle

theorem left_escape {why : Option LexicalFault} (h : c.escape = .ok (why, c')) :
    c'.left ≤ c.left := by
  unfold escape at h
  split at h
  · cases h
    exact Nat.le_refl _
  · split at h
    · exact left_escapeDigits h
    · obtain ⟨c₁, hnext, h⟩ := bind_eq_ok h
      refine Nat.le_trans ?_ (left_next hnext).1
      repeat' split at h
      · cases h
        exact Nat.le_refl _
      · exact left_escapeDigits h
      · exact left_escapeDigits h
      · exact left_escapeDigits h
      · cases h
        exact Nat.le_refl _

/-- Go to the end of a string that begins at an offset. -/
def stringFrom (start : Int) (bad : Option Token) (c : Cursor) : Except Fault (Token × Cursor) :=
  if hend : c.ch = none ∨ c.ch = some '\n' then do
    let t ← c.illegal start (c.pos - 1) .unterminatedString
    pure (t, c)
  else
    match _hnext : c.next with
    | .error e => .error e
    | .ok c₁ =>
      if c.ch = some '\x22' then
        match bad with
        | some t => pure (t, c₁)
        | none => do
          let span ← c₁.spanOf start (c₁.pos - 1)
          let text ← c₁.taken
          pure (⟨.string, span, text, []⟩, c₁)
      else if c.ch = some '\\' then
        match _hescape : c₁.escape with
        | .error e => .error e
        | .ok (why, c₂) => do
          let bad ← c₂.escapeFault c₁.pos bad why
          stringFrom start bad c₂
      else stringFrom start bad c₁
termination_by c.left
decreasing_by
  all_goals have hlt := (left_next _hnext).2 fun hnone => hend (.inl hnone)
  · exact Nat.lt_of_le_of_lt (left_escape _hescape) hlt
  · exact hlt

def string (c : Cursor) : Except Fault (Token × Cursor) := do
  let c₁ ← c.next
  c₁.stringFrom c.pos none

/-! ## All tokens -/

/-- An operator, a mark, the end of input, or a character that begins no token. -/
def mark (c : Cursor) : Except Fault (Token × Cursor) := do
  let (ahead, c₁) ← c.peek
  let c₂ ← c₁.next
  match c₁.ch with
  | none =>
    let span ← c₂.spanOf c.pos c.pos
    pure (⟨.eof, span, "", []⟩, c₂)
  | some ch =>
    match ahead.bind (TokenKind.ofTwoChars? ch) with
    | some kind =>
      let c₃ ← c₂.next
      let span ← c₃.spanOf c.pos (c₃.pos - 1)
      pure (⟨kind, span, "", []⟩, c₃)
    | none =>
      match TokenKind.ofOneChar? ch with
      | some kind =>
        let span ← c₂.spanOf c.pos c.pos
        pure (⟨kind, span, "", []⟩, c₂)
      | none =>
        let t ← c₂.illegal c.pos c.pos (.unexpectedChar ch)
        pure (t, c₂)

def scan (c : Cursor) : Except Fault (Token × Cursor) :=
  if c.ch.any isBlank then c.trivia .whitespace isBlank
  else if c.ch.any isIdentStart then c.word
  else if c.ch.any isDecimal then c.number
  else if c.ch = some '#' then c.trivia .comment (· != '\n')
  else if c.ch = some '\x22' then c.string
  else c.mark

def advance (c : Cursor) : Except Fault (Token × Cursor) := do
  let (t, c₁) ← c.scan
  let c₂ ← c₁.reset
  pure (t, c₂)

/-! ## Progress -/

theorem left_skipWhile {p : Char → Bool} (h : c.skipWhile p = .ok c') :
    c'.left ≤ c.left ∧ (c.ch.any p = true → c'.left < c.left) := by
  fun_induction skipWhile p c with
  | case1 c hch c₁ hnext ih =>
    have hlt := Nat.lt_of_le_of_lt (ih h).1 ((left_next hnext).2 (ne_none_of_any hch))
    exact ⟨Nat.le_of_lt hlt, fun _ => hlt⟩
  | case2 c hch e hnext => cases h
  | case3 c hch =>
    cases h
    exact ⟨Nat.le_refl _, fun hany => absurd hany hch⟩

theorem left_trivia {kind : TokenKind} {p : Char → Bool} {t : Token}
    (h : c.trivia kind p = .ok (t, c')) (hch : c.ch.any p = true) : c'.left < c.left := by
  obtain ⟨stopped, hskip, h⟩ := bind_eq_ok h
  obtain ⟨_, _, h⟩ := bind_eq_ok h
  obtain ⟨_, _, h⟩ := bind_eq_ok h
  cases h
  exact (left_skipWhile hskip).2 hch

theorem left_word {t : Token} (h : c.word = .ok (t, c')) (hch : c.ch ≠ none) :
    c'.left < c.left := by
  obtain ⟨c₁, hnext, h⟩ := bind_eq_ok h
  obtain ⟨stopped, hskip, h⟩ := bind_eq_ok h
  obtain ⟨_, _, h⟩ := bind_eq_ok h
  obtain ⟨_, _, h⟩ := bind_eq_ok h
  cases h
  exact Nat.lt_of_le_of_lt (left_skipWhile hskip).1 ((left_next hnext).2 hch)

theorem left_digits {base : Nat} {seen seen' : Digits} (h : c.digits base seen = .ok (seen', c')) :
    c'.left ≤ c.left ∧ (c.ch.any (isDigitLike base) = true → c'.left < c.left) := by
  fun_induction digits base seen c with
  | case1 seen c ch hch ih =>
    obtain ⟨seen₁, _, h⟩ := bind_eq_ok h
    split at h
    · next c₁ hnext =>
      have hne : c.ch ≠ none := by
        intro hnone
        rw [hnone] at hch
        cases hch
      have hlt := Nat.lt_of_le_of_lt (ih seen₁ c₁ hnext h).1 ((left_next hnext).2 hne)
      exact ⟨Nat.le_of_lt hlt, fun _ => hlt⟩
    · cases h
  | case2 seen c hch hseparable =>
    cases h
    exact ⟨Nat.le_refl _, fun hany => absurd hany (not_any_of_filter hch)⟩
  | case3 seen c hch hseparable =>
    obtain ⟨_, _, h⟩ := bind_eq_ok h
    cases h
    exact ⟨Nat.le_refl _, fun hany => absurd hany (not_any_of_filter hch)⟩

theorem left_numberBase {base : Nat} {seen : Digits} (h : c.numberBase = .ok (base, seen, c')) :
    c'.left < c.left ∨ base = 10 ∧ c' = c := by
  unfold numberBase at h
  split at h
  · next hch =>
    obtain ⟨c₁, hnext, h⟩ := bind_eq_ok h
    have hlt := (left_next hnext).2 (by simp [hch])
    split at h
    · obtain ⟨c₂, hnext₂, h⟩ := bind_eq_ok h
      cases h
      exact .inl (Nat.lt_of_le_of_lt (left_next hnext₂).1 hlt)
    · cases h
      exact .inl hlt
  · cases h
    exact .inr ⟨rfl, rfl⟩

theorem left_number {t : Token} (h : c.number = .ok (t, c')) (hch : c.ch.any isDecimal = true) :
    c'.left < c.left := by
  obtain ⟨⟨base, seen, c₁⟩, hbase, h⟩ := bind_eq_ok h
  obtain ⟨⟨seen₂, c₂⟩, hdigits, h⟩ := bind_eq_ok h
  have hdigit : c.ch.any (isDigitLike 10) = true := by
    cases hd : c.ch with
    | none =>
      rw [hd] at hch
      cases hch
    | some d =>
      rw [hd] at hch
      have hdecimal : isDecimal d = true := hch
      simp [isDigitLike, hdecimal]
  have hlt : c₂.left < c.left := by
    rcases left_numberBase hbase with hlt | ⟨rfl, rfl⟩
    · exact Nat.lt_of_le_of_lt (left_digits hdigits).1 hlt
    · exact (left_digits hdigits).2 hdigit
  dsimp only at h
  split at h
  · cases h
    exact hlt
  · split at h
    · obtain ⟨_, _, h⟩ := bind_eq_ok h
      cases h
      exact hlt
    · split at h
      · obtain ⟨c₃, hskip, h⟩ := bind_eq_ok h
        obtain ⟨_, _, h⟩ := bind_eq_ok h
        cases h
        exact Nat.lt_of_le_of_lt (left_skipWhile hskip).1 hlt
      · obtain ⟨_, _, h⟩ := bind_eq_ok h
        obtain ⟨_, _, h⟩ := bind_eq_ok h
        cases h
        exact hlt

theorem left_stringFrom {start : Int} {bad : Option Token} {t : Token}
    (h : c.stringFrom start bad = .ok (t, c')) : c'.left ≤ c.left := by
  fun_induction stringFrom start bad c with
  | case1 bad c hend =>
    obtain ⟨_, _, h⟩ := bind_eq_ok h
    cases h
    exact Nat.le_refl _
  | case2 bad c hend e hnext => cases h
  | case3 c hend c₁ hnext hquote bad =>
    cases h
    exact (left_next hnext).1
  | case4 c hend c₁ hnext hquote =>
    obtain ⟨_, _, h⟩ := bind_eq_ok h
    obtain ⟨_, _, h⟩ := bind_eq_ok h
    cases h
    exact (left_next hnext).1
  | case5 bad c hend c₁ hnext hquote hslash e hescape => cases h
  | case6 bad c hend c₁ hnext hquote hslash why c₂ hescape ih =>
    obtain ⟨bad₂, _, h⟩ := bind_eq_ok h
    exact Nat.le_trans (ih bad₂ h) (Nat.le_trans (left_escape hescape) (left_next hnext).1)
  | case7 bad c hend c₁ hnext hquote hslash ih => exact Nat.le_trans (ih h) (left_next hnext).1

theorem left_string {t : Token} (h : c.string = .ok (t, c')) (hch : c.ch ≠ none) :
    c'.left < c.left := by
  obtain ⟨c₁, hnext, h⟩ := bind_eq_ok h
  exact Nat.lt_of_le_of_lt (left_stringFrom h) ((left_next hnext).2 hch)

theorem left_peek {ahead : Option Char} (h : c.peek = .ok (ahead, c')) : c'.left ≤ c.left := by
  unfold peek at h
  split at h
  · cases h
    exact Nat.le_refl _
  · next hch =>
    obtain ⟨c₁, hnext, h⟩ := bind_eq_ok h
    obtain ⟨c₂, hbackup, h⟩ := bind_eq_ok h
    cases h
    have hlt := (left_next hnext).2 hch
    unfold backup at hbackup
    split at hbackup
    · obtain ⟨_, _, hbackup⟩ := bind_eq_ok hbackup
      cases hbackup
      simp only [left] at hlt ⊢
      omega
    · cases hbackup
      exact Nat.le_of_lt hlt

theorem left_mark {t : Token} (h : c.mark = .ok (t, c')) (ht : t.kind ≠ .eof) :
    c'.left < c.left := by
  obtain ⟨⟨ahead, c₁⟩, hpeek, h⟩ := bind_eq_ok h
  obtain ⟨c₂, hnext, h⟩ := bind_eq_ok h
  split at h
  · obtain ⟨_, _, h⟩ := bind_eq_ok h
    cases h
    exact absurd rfl ht
  · next ch hch =>
    have hlt : c₂.left < c.left :=
      Nat.lt_of_lt_of_le ((left_next hnext).2 (by simp [hch])) (left_peek hpeek)
    split at h
    · obtain ⟨c₃, hnext₃, h⟩ := bind_eq_ok h
      obtain ⟨_, _, h⟩ := bind_eq_ok h
      cases h
      exact Nat.lt_of_le_of_lt (left_next hnext₃).1 hlt
    · split at h
      · obtain ⟨_, _, h⟩ := bind_eq_ok h
        cases h
        exact hlt
      · obtain ⟨_, _, h⟩ := bind_eq_ok h
        cases h
        exact hlt

theorem left_scan {t : Token} (h : c.scan = .ok (t, c')) (ht : t.kind ≠ .eof) :
    c'.left < c.left := by
  unfold scan at h
  split at h
  · next hch => exact left_trivia h hch
  split at h
  · next hch => exact left_word h (ne_none_of_any hch)
  split at h
  · next hch => exact left_number h hch
  split at h
  · next hch => exact left_trivia h (by simp [hch])
  split at h
  · next hch => exact left_string h (by simp [hch])
  · exact left_mark h ht

theorem left_reset (h : c.reset = .ok c') : c'.left = c.left := by
  obtain ⟨buf, hbuf, h⟩ := bind_eq_ok h
  obtain ⟨ch, _, h⟩ := bind_eq_ok h
  cases h
  unfold sliceFrom at hbuf
  split at hbuf
  · cases hbuf
    simp only [left, Array.size_extract]
    omega
  · cases hbuf

theorem left_advance {t : Token} (h : c.advance = .ok (t, c')) (ht : t.kind ≠ .eof) :
    c'.left < c.left := by
  obtain ⟨⟨t₁, c₁⟩, hscan, h⟩ := bind_eq_ok h
  obtain ⟨c₂, hreset, h⟩ := bind_eq_ok h
  cases h
  rw [left_reset hreset]
  exact left_scan hscan ht

/-! ## Tokens with their trivia -/

def nextTokenAfter (trivia : List Token) (c : Cursor) : Except Fault (Token × Cursor) :=
  match _hadvance : c.advance with
  | .error e => .error e
  | .ok (t, c') =>
    if _ht : t.kind.isTrivia then nextTokenAfter (trivia ++ [t]) c'
    else pure ({ t with trivia }, c')
termination_by c.left
decreasing_by exact left_advance _hadvance (TokenKind.ne_eof_of_isTrivia _ht)

/-- The next token that is no trivia, with the white space and comments before it. -/
def nextToken (c : Cursor) : Except Fault (Token × Cursor) := nextTokenAfter [] c

theorem left_nextTokenAfter {trivia : List Token} {t : Token}
    (h : c.nextTokenAfter trivia = .ok (t, c')) (ht : t.kind ≠ .eof) : c'.left < c.left := by
  fun_induction nextTokenAfter trivia c with
  | case1 trivia c e hadvance => cases h
  | case2 trivia c t₁ c₁ hadvance htrivia ih =>
    exact Nat.lt_trans (ih h) (left_advance hadvance (TokenKind.ne_eof_of_isTrivia htrivia))
  | case3 trivia c t₁ c₁ hadvance htrivia =>
    cases h
    exact left_advance hadvance ht

/-- The tokens up to and including the end of input, each with the cursor after it. -/
def tokens (c : Cursor) : Except Fault (List (Token × Cursor)) :=
  match _hnext : c.nextToken with
  | .error e => .error e
  | .ok (t, c') =>
    if _ht : t.kind = .eof then pure [(t, c')]
    else do
      let later ← tokens c'
      pure ((t, c') :: later)
termination_by c.left
decreasing_by exact left_nextTokenAfter _hnext _ht

end TypedLambda.Cursor
