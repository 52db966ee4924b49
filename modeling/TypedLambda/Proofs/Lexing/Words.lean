import TypedLambda.Proofs.Lexing.Strings

/-!
# Words

A word is what a token says: its kind and the text it carries. White space is no part of any word
but a quoted one, so a word that stands before white space or the end of the text is taken as a
whole (`Word.Legible`). Names, keywords, operators, marks and string literals are all legible.
-/

namespace TypedLambda

open Text

theorem takeWhile_append_of_head? {p : Char → Bool} {cs rest : List Char}
    (hcs : ∀ c ∈ cs, p c = true) (hrest : ∀ c ∈ rest.head?, p c = false) :
    (cs ++ rest).takeWhile p = cs := by
  have hstop : rest.takeWhile p = [] := by
    cases rest with
    | nil => rfl
    | cons c _ => exact List.takeWhile_cons_of_neg (by simp [hrest c rfl])
  rw [List.takeWhile_append_of_pos hcs, hstop, List.append_nil]

/-! ## Words before white space -/

/-- What a token says: its kind and the text it carries. -/
structure Word where
  kind : TokenKind
  data : String

/-- The characters of a word: the fixed text of its kind, or the text it carries. -/
def Word.chars (w : Word) : List Char := (w.kind.fixedText?.getD w.data).toList

def Token.word (t : Token) : Word := ⟨t.kind, t.data⟩

namespace Word

/-- The word is what the lexer takes from the text that begins with it and goes on with `rest`. -/
def ReadsBefore (w : Word) (rest : List Char) : Prop :=
  w.kind.isTrivia = false ∧
    ∃ c cs, w.chars = c :: cs ∧
      Lexeme.scan c (cs ++ rest) = ⟨w.chars.length, .token w.kind w.data⟩

def Gapped (rest : List Char) : Prop := ∀ c ∈ rest.head?, isBlank c = true

/-- The word is taken as a whole wherever no other character follows it at once. -/
def Legible (w : Word) : Prop := ∀ rest, Gapped rest → w.ReadsBefore rest

end Word

/-! ## Names and keywords -/

def keywords : List String := ["def", "let", "in", "if", "then", "else", "true", "false"]

/-- Whether a text begins with a letter or an underscore and goes on with such characters, marks and
digits. -/
def isWord (s : String) : Bool :=
  match s.toList with
  | [] => false
  | c :: cs => isIdentStart c && cs.all isIdentContinue

/-- Whether a text is a name: a word that is no keyword. -/
def isName (s : String) : Bool := isWord s && !keywords.contains s

theorem isWord_iff {s : String} :
    isWord s = true ↔
      ∃ c cs, s.toList = c :: cs ∧ isIdentStart c = true ∧
        ∀ d ∈ cs, isIdentContinue d = true := by
  unfold isWord
  split
  · next h => simp [h]
  · next c cs h =>
    rw [h, Bool.and_eq_true, List.all_eq_true]
    constructor
    · rintro ⟨hc, hcs⟩
      exact ⟨c, cs, rfl, hc, hcs⟩
    · rintro ⟨_, _, heq, hc, hcs⟩
      obtain ⟨rfl, rfl⟩ := List.cons.inj heq
      exact ⟨hc, hcs⟩

theorem ofWord_eq_ident_iff {s : String} : TokenKind.ofWord s = .ident ↔ s ∉ keywords := by
  unfold TokenKind.ofWord keywords
  repeat' split
  all_goals simp [*]

theorem isName_iff {s : String} :
    isName s = true ↔ isWord s = true ∧ TokenKind.ofWord s = .ident := by
  rw [isName, ofWord_eq_ident_iff]
  simp

theorem isWord_of_isAlpha {s : String} (hne : s.toList ≠ [])
    (h : s.toList.all Char.isAlpha = true) : isWord s = true := by
  obtain ⟨c, cs, hs⟩ := List.exists_cons_of_ne_nil hne
  rw [hs, List.all_cons, Bool.and_eq_true, List.all_eq_true] at h
  exact isWord_iff.mpr ⟨c, cs, hs, isIdentStart_of_isAlpha h.1,
    fun d hd => isIdentContinue_of_isAlpha (h.2 d hd)⟩

theorem isName_of_isAlpha {s : String} (hne : s.toList ≠ [])
    (h : s.toList.all Char.isAlpha = true) (hkeyword : s ∉ keywords) : isName s = true :=
  isName_iff.mpr ⟨isWord_of_isAlpha hne h, ofWord_eq_ident_iff.mpr hkeyword⟩

theorem Lexeme.scan_letters {c : Char} {cs rest : List Char} (hc : isIdentStart c = true)
    (hcs : ∀ d ∈ cs, isIdentContinue d = true)
    (hrest : ∀ d ∈ rest.head?, isIdentContinue d = false) :
    let name := String.ofList (c :: cs)
    scan c (cs ++ rest) = ⟨(c :: cs).length, .token (TokenKind.ofWord name)
      (if TokenKind.ofWord name = .ident then name else "")⟩ := by
  have hrun : run isIdentContinue (c :: (cs ++ rest)) = c :: cs := by
    show c :: (cs ++ rest).takeWhile isIdentContinue = c :: cs
    rw [takeWhile_append_of_head? hcs hrest]
  rw [scan, if_neg (by simp [isBlank_of_isIdentStart hc]), if_pos hc, word, hrun]

namespace Word

theorem chars_ofWord (s : String) :
    chars ⟨.ofWord s, if TokenKind.ofWord s = .ident then s else ""⟩ = s.toList := by
  rcases Lexeme.ofWord_eq s with hident | ⟨hident, _, _, htext⟩
  · rw [chars, hident, if_pos rfl]
    rfl
  · rw [chars, htext]
    rfl

theorem readsBefore_ofWord {s : String} (h : isWord s = true) {rest : List Char}
    (hrest : ∀ d ∈ rest.head?, isIdentContinue d = false) :
    ReadsBefore ⟨.ofWord s, if TokenKind.ofWord s = .ident then s else ""⟩ rest := by
  obtain ⟨c, cs, hs, hc, hcs⟩ := isWord_iff.mp h
  have htrivia : (TokenKind.ofWord s).isTrivia = false := by
    unfold TokenKind.ofWord
    repeat' split
    all_goals rfl
  refine ⟨htrivia, c, cs, (chars_ofWord s).trans hs, ?_⟩
  rw [chars_ofWord, hs, Lexeme.scan_letters hc hcs hrest, ← hs, String.ofList_toList]

theorem legible_ofWord {s : String} (h : isWord s = true) :
    Legible ⟨.ofWord s, if TokenKind.ofWord s = .ident then s else ""⟩ :=
  fun _ hrest => readsBefore_ofWord h fun d hd => isIdentContinue_of_isBlank (hrest d hd)

theorem readsBefore_name {s : String} (h : isName s = true) {rest : List Char}
    (hrest : ∀ d ∈ rest.head?, isIdentContinue d = false) : ReadsBefore ⟨.ident, s⟩ rest := by
  obtain ⟨hword, hident⟩ := isName_iff.mp h
  have hreads := readsBefore_ofWord hword hrest
  rwa [hident, if_pos rfl] at hreads

theorem legible_name {s : String} (h : isName s = true) : Legible ⟨.ident, s⟩ :=
  fun _ hrest => readsBefore_name h fun d hd => isIdentContinue_of_isBlank (hrest d hd)

/-! ## Operators and marks -/

theorem ofTwoChars?_of_isBlank (c : Char) {d : Char} (h : isBlank d = true) :
    TokenKind.ofTwoChars? c d = none := by
  unfold TokenKind.ofTwoChars?
  split
  all_goals first
    | exact absurd h (by decide)
    | rfl

theorem mark_of_gapped {c : Char} {kind : TokenKind} {rest : List Char}
    (hc : TokenKind.ofOneChar? c = some kind) (hrest : Gapped rest) :
    Lexeme.mark c rest = ⟨1, .token kind ""⟩ := by
  have hnone : rest.head?.bind (TokenKind.ofTwoChars? c) = none := by
    cases rest with
    | nil => rfl
    | cons d _ => exact ofTwoChars?_of_isBlank c (hrest d rfl)
  rw [Lexeme.mark, hnone]
  simp only [hc]

theorem legible_fixed {kind : TokenKind} {text : String} (h : kind.fixedText? = some text) :
    Legible ⟨kind, ""⟩ := by
  cases kind with
  | plus | minus | times | equals | colon | backslash | leftParen | rightParen =>
    exact fun rest hrest => ⟨rfl, _, _, rfl,
      (Lexeme.scan_of_ascii (by decide) (by decide) _).trans (mark_of_gapped rfl hrest)⟩
  | logicalAnd | logicalOr | logicalEquals | concat | rightArrow =>
    exact fun rest _ => ⟨rfl, _, _, rfl, Lexeme.scan_of_ascii (by decide) (by decide) _⟩
  | defKeyword => exact legible_ofWord (isWord_of_isAlpha (s := "def") (by decide) (by decide))
  | letKeyword => exact legible_ofWord (isWord_of_isAlpha (s := "let") (by decide) (by decide))
  | inKeyword => exact legible_ofWord (isWord_of_isAlpha (s := "in") (by decide) (by decide))
  | ifKeyword => exact legible_ofWord (isWord_of_isAlpha (s := "if") (by decide) (by decide))
  | thenKeyword => exact legible_ofWord (isWord_of_isAlpha (s := "then") (by decide) (by decide))
  | elseKeyword => exact legible_ofWord (isWord_of_isAlpha (s := "else") (by decide) (by decide))
  | trueKeyword => exact legible_ofWord (isWord_of_isAlpha (s := "true") (by decide) (by decide))
  | falseKeyword => exact legible_ofWord (isWord_of_isAlpha (s := "false") (by decide) (by decide))
  | _ => cases h

/-! ## String literals -/

theorem legible_string {s : String} {bytes : List UInt8} (h : Literal.Denotes s.toList bytes) :
    Legible ⟨.string, s⟩ := by
  intro rest _
  obtain ⟨body, hs, hbody⟩ := h
  refine ⟨rfl, '\x22', body ++ ['\x22'], hs, ?_⟩
  rw [Lexeme.scan_denotes ⟨body, rfl, hbody⟩ rest, ← hs, String.ofList_toList]
  rfl

end Word

end TypedLambda
