import TypedLambda.Proofs.Lexing.Lexer
import TypedLambda.Proofs.Text.Classes

/-!
# What a lexeme takes

A lexeme takes at least one character and no more than there are. If it makes a token, then the
characters it takes are the text of that token; if it has a fault, then the fault lies within those
characters (`Lexeme.Fits`). The main fact is `Lexeme.scan_fits`.
-/

namespace TypedLambda

/-- The text of the keywords, operators and marks, which are always written the same way. -/
def TokenKind.fixedText? : TokenKind → Option String
  | plus => some "+"
  | minus => some "-"
  | times => some "*"
  | equals => some "="
  | colon => some ":"
  | backslash => some "\\"
  | leftParen => some "("
  | rightParen => some ")"
  | logicalAnd => some "&&"
  | logicalOr => some "||"
  | logicalEquals => some "=="
  | concat => some "++"
  | rightArrow => some "->"
  | defKeyword => some "def"
  | letKeyword => some "let"
  | inKeyword => some "in"
  | ifKeyword => some "if"
  | thenKeyword => some "then"
  | elseKeyword => some "else"
  | trueKeyword => some "true"
  | falseKeyword => some "false"
  | _ => none

/-- The characters that a token stands for: the fixed text of its kind, or the text it carries. -/
def Token.lexeme (t : Token) : List Char := (t.kind.fixedText?.getD t.data).toList

/-- Whether the verdict is right about the characters that were taken. -/
def Verdict.Describes (taken : List Char) : Verdict → Prop
  | .token kind data =>
    kind ≠ .eof ∧ kind ≠ .illegal ∧ (kind.fixedText?.getD data).toList = taken
  | .fault skip width _ => skip + width ≤ taken.length

namespace Lexeme

/-- The lexeme is one at the front of the text `cs`. -/
structure Fits (cs : List Char) (l : Lexeme) : Prop where
  pos : 0 < l.length
  le : l.length ≤ cs.length
  describes : l.verdict.Describes (cs.take l.length)

theorem scan_of_ascii {c : Char} (hascii : c.toNat < 0x80)
    (hletter : (c.isAlpha || c == '_') = false) (cs : List Char) :
    scan c cs =
      if Text.isBlank c then
        ⟨(run Text.isBlank (c :: cs)).length,
          .token .whitespace (String.ofList (run Text.isBlank (c :: cs)))⟩
      else if Text.isDecimal c then number (c :: cs)
      else if c == '#' then
        ⟨(run (· != '\n') (c :: cs)).length,
          .token .comment (String.ofList (run (· != '\n') (c :: cs)))⟩
      else if c == '\x22' then string (c :: cs)
      else mark c cs := by
  unfold scan
  rw [Text.isIdentStart_of_ascii hascii, hletter]
  rfl

/-! ## Runs, words and marks -/

theorem run_isPrefix (p : Char → Bool) (c : Char) (cs : List Char) :
    run p (c :: cs) <+: c :: cs := by
  show c :: cs.takeWhile p <+: c :: cs
  exact (List.prefix_cons_inj c).mpr (List.takeWhile_prefix p)

theorem fits_of_isPrefix {cs taken : List Char} {kind : TokenKind} {data : String}
    (htaken : taken <+: cs) (hpos : 0 < taken.length) (heof : kind ≠ .eof)
    (hillegal : kind ≠ .illegal) (htext : (kind.fixedText?.getD data).toList = taken) :
    Fits cs ⟨taken.length, .token kind data⟩ := by
  refine ⟨hpos, htaken.length_le, heof, hillegal, ?_⟩
  rw [htext]
  exact List.prefix_iff_eq_take.mp htaken

theorem fits_of_fault {cs : List Char} {length skip width : Nat} {why : LexicalFault}
    (hpos : 0 < length) (hle : length ≤ cs.length) (hwithin : skip + width ≤ length) :
    Fits cs ⟨length, .fault skip width why⟩ := by
  refine ⟨hpos, hle, ?_⟩
  show skip + width ≤ (cs.take length).length
  rwa [List.length_take_of_le hle]

theorem run_fits {p : Char → Bool} {kind : TokenKind} (c : Char) (cs : List Char)
    (heof : kind ≠ .eof) (hillegal : kind ≠ .illegal) (hfixed : kind.fixedText? = none) :
    Fits (c :: cs)
      ⟨(run p (c :: cs)).length, .token kind (String.ofList (run p (c :: cs)))⟩ := by
  refine fits_of_isPrefix (run_isPrefix p c cs) (Nat.succ_pos _) heof hillegal ?_
  rw [hfixed]
  exact String.toList_ofList

theorem ofWord_eq (w : String) :
    TokenKind.ofWord w = .ident ∨
      TokenKind.ofWord w ≠ .ident ∧ TokenKind.ofWord w ≠ .eof ∧ TokenKind.ofWord w ≠ .illegal ∧
        (TokenKind.ofWord w).fixedText? = some w := by
  unfold TokenKind.ofWord
  repeat' split
  all_goals first
    | exact .inl rfl
    | exact .inr ⟨nofun, nofun, nofun, by simp [TokenKind.fixedText?, *]⟩

theorem word_fits (c : Char) (cs : List Char) : Fits (c :: cs) (word (c :: cs)) := by
  have htaken := run_isPrefix Text.isIdentContinue c cs
  have hpos : 0 < (run Text.isIdentContinue (c :: cs)).length := Nat.succ_pos _
  unfold word
  rcases ofWord_eq (String.ofList (run Text.isIdentContinue (c :: cs))) with
    hident | ⟨hident, heof, hillegal, htext⟩
  · simp only [hident, if_true]
    exact fits_of_isPrefix htaken hpos nofun nofun String.toList_ofList
  · simp only [hident, if_false]
    refine fits_of_isPrefix htaken hpos heof hillegal ?_
    rw [htext]
    exact String.toList_ofList

theorem ofTwoChars?_eq {c d : Char} {kind : TokenKind}
    (h : TokenKind.ofTwoChars? c d = some kind) :
    kind ≠ .eof ∧ kind ≠ .illegal ∧ (kind.fixedText?.getD "").toList = [c, d] := by
  unfold TokenKind.ofTwoChars? at h
  split at h <;> cases h <;> exact ⟨nofun, nofun, rfl⟩

theorem ofOneChar?_eq {c : Char} {kind : TokenKind} (h : TokenKind.ofOneChar? c = some kind) :
    kind ≠ .eof ∧ kind ≠ .illegal ∧ (kind.fixedText?.getD "").toList = [c] := by
  unfold TokenKind.ofOneChar? at h
  split at h <;> cases h <;> exact ⟨nofun, nofun, rfl⟩

theorem mark_fits (c : Char) (cs : List Char) : Fits (c :: cs) (mark c cs) := by
  unfold mark
  split
  · next kind hkind =>
    obtain ⟨d, hd, hkind⟩ := Option.bind_eq_some_iff.mp hkind
    obtain ⟨ds, rfl⟩ := List.head?_eq_some_iff.mp hd
    obtain ⟨heof, hillegal, htext⟩ := ofTwoChars?_eq hkind
    have htaken : [c, d] <+: c :: d :: ds := ⟨ds, rfl⟩
    exact fits_of_isPrefix htaken (Nat.succ_pos _) heof hillegal htext
  · split
    · next kind hkind =>
      obtain ⟨heof, hillegal, htext⟩ := ofOneChar?_eq hkind
      have htaken : [c] <+: c :: cs := ⟨cs, rfl⟩
      exact fits_of_isPrefix htaken (Nat.succ_pos _) heof hillegal htext
    · exact fits_of_fault (Nat.succ_pos _) (Nat.succ_pos _) (Nat.le_refl _)

/-! ## Numbers -/

theorem lt_of_digitFault? {base i j : Nat} {separable : Bool} {why : LexicalFault}
    {digits : List Char} (h : digitFault? base separable i digits = some (j, why))
    (hpos : 0 < i + digits.length) : j < i + digits.length := by
  induction digits generalizing i separable with
  | nil =>
    unfold digitFault? at h
    split at h
    · cases h
    · cases h
      rw [List.length_nil] at hpos ⊢
      omega
  | cons c cs ih =>
    rw [List.length_cons]
    unfold digitFault? at h
    have hrec : ∀ b, digitFault? base b (i + 1) cs = some (j, why) → j < i + (cs.length + 1) := by
      intro b hb
      have hlt := ih hb (by omega)
      omega
    split at h
    · split at h
      · exact hrec _ h
      · cases h
        omega
    · split at h
      · exact hrec _ h
      · cases h
        omega

theorem numberBase_snd_le (cs : List Char) : (numberBase cs).2 ≤ cs.length := by
  unfold numberBase
  split
  · split
    · exact Nat.le_add_left 2 _
    · exact Nat.zero_le _
  · exact Nat.zero_le _

theorem numberBase_of_snd_eq_zero {cs : List Char} (h : (numberBase cs).2 = 0) :
    numberBase cs = (10, 0) := by
  unfold numberBase at h ⊢
  split
  · split
    · next hbase => simp [hbase] at h
    · rfl
  · rfl

theorem number_length_pos {c : Char} (hc : Text.isDecimal c = true) (cs : List Char) :
    0 < (numberBase (c :: cs)).2 + (((c :: cs).drop (numberBase (c :: cs)).2).takeWhile
      (Text.isDigitLike (numberBase (c :: cs)).1)).length := by
  by_cases hmark : (numberBase (c :: cs)).2 = 0
  · have hdigit : Text.isDigitLike 10 c = true := by simp [Text.isDigitLike, hc]
    rw [numberBase_of_snd_eq_zero hmark, List.drop_zero, List.takeWhile_cons_of_pos hdigit,
      List.length_cons]
    omega
  · omega

theorem length_takeWhile_drop_le (p : Char → Bool) {i : Nat} {cs : List Char}
    (h : i ≤ cs.length) : i + ((cs.drop i).takeWhile p).length ≤ cs.length := by
  have hle := (List.takeWhile_prefix (l := cs.drop i) p).length_le
  rw [List.length_drop] at hle
  omega

theorem number_fits {c : Char} (hc : Text.isDecimal c = true) (cs : List Char) :
    Fits (c :: cs) (number (c :: cs)) := by
  have hpos := number_length_pos hc cs
  have hle := length_takeWhile_drop_le (Text.isDigitLike (numberBase (c :: cs)).1)
    (numberBase_snd_le (c :: cs))
  unfold number
  simp only
  generalize ((c :: cs).drop (numberBase (c :: cs)).2).takeWhile
    (Text.isDigitLike (numberBase (c :: cs)).1) = digits at hpos hle ⊢
  split
  · next i why hfault => exact fits_of_fault hpos hle (lt_of_digitFault? hfault hpos)
  · split
    · exact fits_of_fault hpos hle (Nat.le_of_eq (Nat.zero_add _))
    · split
      · have htotal := length_takeWhile_drop_le (fun c => c == '.' || Text.isDecimal c) hle
        exact fits_of_fault (Nat.lt_of_lt_of_le hpos (Nat.le_add_right _ _)) htotal
          (Nat.le_of_eq (Nat.zero_add _))
      · exact ⟨hpos, hle, nofun, nofun, String.toList_ofList⟩

/-! ## Strings -/

theorem escapeDigits_le (base limit count acc : Nat) (cs : List Char) :
    (escapeDigits base limit count acc cs).1 ≤ cs.length := by
  induction count generalizing acc cs with
  | zero => exact Nat.zero_le _
  | succ count ih =>
    cases cs with
    | nil => exact Nat.le_refl 0
    | cons c cs =>
      unfold escapeDigits
      split
      · next d _ => exact Nat.succ_le_succ (ih (acc * base + d) cs)
      · exact Nat.succ_le_succ (Nat.zero_le _)

theorem escape_le (cs : List Char) : (escape cs).1 ≤ cs.length := by
  unfold escape
  split
  · exact Nat.le_refl 0
  · next c rest =>
    repeat' split
    · exact Nat.succ_le_succ (Nat.zero_le _)
    · exact escapeDigits_le ..
    · exact Nat.succ_le_succ (escapeDigits_le ..)
    · exact Nat.succ_le_succ (escapeDigits_le ..)
    · exact Nat.succ_le_succ (escapeDigits_le ..)
    · exact Nat.succ_le_succ (Nat.zero_le _)

/-- A verdict that is a fault within the first `i` characters. -/
def FaultWithin (i : Nat) (v : Verdict) : Prop :=
  ∃ skip width why, v = .fault skip width why ∧ skip + width ≤ i

theorem FaultWithin.mono {i j : Nat} {v : Verdict} (h : FaultWithin i v) (hle : i ≤ j) :
    FaultWithin j v := by
  obtain ⟨skip, width, why, rfl, hwithin⟩ := h
  exact ⟨skip, width, why, rfl, Nat.le_trans hwithin hle⟩

theorem FaultWithin.or_escape {i n : Nat} {bad : Option Verdict} {why : Option LexicalFault}
    (hbad : ∀ v ∈ bad, FaultWithin i v) :
    ∀ v ∈ bad.or (why.map (.fault (i + 1) n)), FaultWithin (i + 1 + n) v := by
  intro v hv
  rcases Option.or_eq_some_iff.mp hv with hv | ⟨_, hv⟩
  · exact (hbad v hv).mono (by omega)
  · obtain ⟨why, _, rfl⟩ := Option.map_eq_some_iff.mp hv
    exact ⟨i + 1, n, why, rfl, Nat.le_refl _⟩

/-- Reading a string goes on from the characters already read, to no more than there are, and its
fault lies within what is read. -/
theorem stringFrom_spec (i : Nat) (bad : Option Verdict) (cs : List Char)
    (hbad : ∀ v ∈ bad, FaultWithin i v) :
    i ≤ (stringFrom i bad cs).1 ∧ (stringFrom i bad cs).1 ≤ i + cs.length ∧
      ∀ v ∈ (stringFrom i bad cs).2, FaultWithin (stringFrom i bad cs).1 v := by
  have hend : ∀ (i : Nat), ∀ v ∈ some (Verdict.fault 0 i .unterminatedString), FaultWithin i v := by
    rintro i _ ⟨⟩
    exact ⟨0, i, _, rfl, Nat.le_of_eq (Nat.zero_add i)⟩
  fun_induction stringFrom i bad cs with
  | case1 i => exact ⟨Nat.le_refl i, Nat.le_refl i, hend i⟩
  | case2 i => exact ⟨Nat.le_refl i, Nat.le_add_right i _, hend i⟩
  | case3 i bad c cs =>
    refine ⟨Nat.le_succ i, by rw [List.length_cons]; omega, ?_⟩
    exact fun v hv => (hbad v hv).mono (Nat.le_succ i)
  | case4 i bad c cs _ _ _ n ih =>
    obtain ⟨hge, hle, hfault⟩ := ih (FaultWithin.or_escape hbad)
    have hn : n ≤ cs.length := escape_le cs
    rw [List.length_drop] at hle
    exact ⟨by omega, by rw [List.length_cons]; omega, hfault⟩
  | case5 i bad c cs _ _ _ ih =>
    obtain ⟨hge, hle, hfault⟩ := ih fun v hv => (hbad v hv).mono (Nat.le_succ i)
    exact ⟨Nat.le_of_succ_le hge, by rw [List.length_cons]; omega, hfault⟩

theorem string_fits (c : Char) (cs : List Char) : Fits (c :: cs) (string (c :: cs)) := by
  obtain ⟨hge, hle, hfault⟩ := stringFrom_spec 1 none cs nofun
  have hle' : (stringFrom 1 none cs).1 ≤ (c :: cs).length := by
    rw [List.length_cons, Nat.add_comm]
    exact hle
  show Fits (c :: cs) ⟨(stringFrom 1 none cs).1, (stringFrom 1 none cs).2.getD _⟩
  cases hv : (stringFrom 1 none cs).2 with
  | none => exact ⟨hge, hle', nofun, nofun, String.toList_ofList⟩
  | some v =>
    obtain ⟨skip, width, why, rfl, hwithin⟩ := hfault v hv
    exact fits_of_fault hge hle' hwithin

/-! ## All lexemes -/

/-- **A scanned lexeme fits.** -/
theorem scan_fits (c : Char) (cs : List Char) : Fits (c :: cs) (scan c cs) := by
  unfold scan
  split
  · exact run_fits c cs nofun nofun rfl
  · split
    · exact word_fits c cs
    · split
      · next hc => exact number_fits hc cs
      · split
        · exact run_fits c cs nofun nofun rfl
        · split
          · exact string_fits c cs
          · exact mark_fits c cs

end Lexeme

end TypedLambda
