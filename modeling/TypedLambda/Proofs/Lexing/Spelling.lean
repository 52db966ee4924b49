import TypedLambda.Proofs.Lexing.Numerals
import TypedLambda.Proofs.Lexing.Strings

/-!
# What is scanned

Whatever the text, a word that is scanned carries what its kind promises (`Lexeme.scan_spelled`): an
identifier carries a name, a number a numeral and a string a string literal.
-/

namespace TypedLambda

open Text

/-- The word carries what its kind promises: an identifier a name, a number a numeral and a string a
string literal. -/
structure Word.Spelled (w : Word) : Prop where
  name : w.kind = .ident → isName w.data = true
  number : w.kind = .number → ∃ n, Numeral.Denotes w.data.toList n
  string : w.kind = .string → ∃ bytes, Literal.Denotes w.data.toList bytes

def Verdict.Spelled : Verdict → Prop
  | .token kind data => Word.Spelled ⟨kind, data⟩
  | .fault _ _ _ => True

theorem Word.spelled_of_ne {kind : TokenKind} {data : String} (hident : kind ≠ .ident)
    (hnumber : kind ≠ .number) (hstring : kind ≠ .string) : Word.Spelled ⟨kind, data⟩ :=
  ⟨fun h => absurd h hident, fun h => absurd h hnumber, fun h => absurd h hstring⟩

namespace Lexeme

theorem spelled_of_fixedText? {kind : TokenKind} {data text : String}
    (h : kind.fixedText? = some text) : (Verdict.token kind data).Spelled := by
  refine Word.spelled_of_ne ?_ ?_ ?_ <;> rintro rfl <;> cases h

theorem isWord_run {c : Char} (hc : isIdentStart c = true) (cs : List Char) :
    isWord (String.ofList (run isIdentContinue (c :: cs))) = true :=
  isWord_iff.mpr ⟨c, cs.takeWhile isIdentContinue, String.toList_ofList, hc,
    List.all_eq_true.mp List.all_takeWhile⟩

theorem word_spelled {c : Char} (hc : isIdentStart c = true) (cs : List Char) :
    (word (c :: cs)).verdict.Spelled := by
  have hword := isWord_run hc cs
  unfold word
  rcases ofWord_eq (String.ofList (run isIdentContinue (c :: cs))) with
    hident | ⟨_, _, _, htext⟩
  · simp only [hident, if_true]
    exact ⟨fun _ => isName_iff.mpr ⟨hword, hident⟩, nofun, nofun⟩
  · exact spelled_of_fixedText? htext

theorem number_spelled (cs : List Char) : (number cs).verdict.Spelled := by
  cases hverdict : (number cs).verdict with
  | fault => trivial
  | token kind data =>
    obtain ⟨rfl, hdata⟩ := exists_denotes_of_number hverdict
    exact ⟨nofun, fun _ => hdata, nofun⟩

theorem exists_denotes_of_string {cs : List Char} {kind : TokenKind} {data : String}
    (h : (string ('\x22' :: cs)).verdict = .token kind data) :
    kind = .string ∧ ∃ bytes, Literal.Denotes data.toList bytes := by
  cases hfound : stringFrom 1 none cs with
  | mk n fault =>
    rw [string, List.tail_cons, hfound] at h
    cases fault with
    | some v =>
      obtain ⟨_, _, hfault⟩ := stringFrom_spec 1 none cs (by rintro _ ⟨⟩)
      obtain ⟨skip, width, why, rfl, _⟩ := hfault v (by rw [hfound]; rfl)
      cases h
    | none =>
      obtain ⟨rfl, rfl⟩ := Verdict.token.inj h
      rw [String.toList_ofList]
      exact ⟨rfl, exists_denotes_of_stringFrom hfound⟩

theorem string_spelled (cs : List Char) : (string ('\x22' :: cs)).verdict.Spelled := by
  cases hverdict : (string ('\x22' :: cs)).verdict with
  | fault => trivial
  | token kind data =>
    obtain ⟨rfl, hdata⟩ := exists_denotes_of_string hverdict
    exact ⟨nofun, nofun, fun _ => hdata⟩

theorem exists_fixedText?_of_mark {c : Char} {cs : List Char} {kind : TokenKind} {data : String}
    (h : (mark c cs).verdict = .token kind data) :
    data = "" ∧ ∃ text, kind.fixedText? = some text := by
  have hfixed : ∀ {kind : TokenKind} {c : Char} {cs : List Char},
      (kind.fixedText?.getD "").toList = c :: cs → ∃ text, kind.fixedText? = some text := by
    intro kind c cs htext
    cases hkind : kind.fixedText? with
    | none =>
      rw [hkind] at htext
      cases htext
    | some text => exact ⟨text, rfl⟩
  unfold mark at h
  split at h
  · next hkind =>
    obtain ⟨rfl, rfl⟩ := Verdict.token.inj h
    obtain ⟨d, _, hkind⟩ := Option.bind_eq_some_iff.mp hkind
    exact ⟨rfl, hfixed (ofTwoChars?_eq hkind).2.2⟩
  · split at h
    · next hkind =>
      obtain ⟨rfl, rfl⟩ := Verdict.token.inj h
      exact ⟨rfl, hfixed (ofOneChar?_eq hkind).2.2⟩
    · cases h

theorem mark_spelled (c : Char) (cs : List Char) : (mark c cs).verdict.Spelled := by
  cases hverdict : (mark c cs).verdict with
  | fault => trivial
  | token kind data =>
    obtain ⟨_, _, htext⟩ := exists_fixedText?_of_mark hverdict
    exact spelled_of_fixedText? htext

/-- **What is scanned carries what its kind promises.** -/
theorem scan_spelled (c : Char) (cs : List Char) : (scan c cs).verdict.Spelled := by
  unfold scan
  split
  · exact Word.spelled_of_ne (by decide) (by decide) (by decide)
  · split
    · next hc => exact word_spelled hc cs
    · split
      · exact number_spelled _
      · split
        · exact Word.spelled_of_ne (by decide) (by decide) (by decide)
        · split
          · next hquote =>
            obtain rfl : c = '\x22' := by simpa using hquote
            exact string_spelled cs
          · exact mark_spelled c cs

end Lexeme

end TypedLambda
