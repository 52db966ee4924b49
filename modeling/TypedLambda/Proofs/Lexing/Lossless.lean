import TypedLambda.Proofs.Lexing.Lexeme
import TypedLambda.Proofs.Lexing.Lexer

/-!
# Tokens and the text they are read from

Along every run of a lexer the characters left are a suffix of the text and the place it keeps is
that of the suffix (`Lexer.StandsAt`). One step takes a lexeme off the suffix; a run is a sequence
of steps, and the text is used up after at most as many of them as it has characters.

* `Pos.advance_within`: places that are counted up character by character are those that the text
  alone determines;
* `Lexer.StandsAt.step`: what one token says about the text;
* `Lexer.StandsAt.lossless`: what a whole run says about it.
-/

namespace TypedLambda

/-! ## Places -/

namespace Pos

/-- The place at an offset of a text: its line is one more than the newlines before it, its column
one more than the characters since the last of them. -/
def within (s : List Char) (offset : Nat) : Pos :=
  ⟨offset, 1 + (s.take offset).count '\n',
    1 + ((s.take offset).reverse.takeWhile (· != '\n')).length⟩

theorem within_zero (s : List Char) : within s 0 = start := rfl

theorem next_within {s : List Char} {offset : Nat} {c : Char} (h : s[offset]? = some c) :
    (within s offset).next c = within s (offset + 1) := by
  have htake : s.take (offset + 1) = s.take offset ++ [c] := by
    rw [List.take_add_one, h]
    rfl
  unfold within next
  rw [htake, List.count_append, List.reverse_append]
  by_cases hc : c = '\n'
  · subst hc
    simp
    omega
  · simp [hc]
    omega

theorem advance_within (s : List Char) {offset m : Nat} (h : offset + m ≤ s.length) :
    (within s offset).advance ((s.drop offset).take m) = within s (offset + m) := by
  induction m with
  | zero => rfl
  | succ m ih =>
    have hget : (s.drop offset)[m]? = some s[offset + m] := by
      rw [List.getElem?_drop]
      exact List.getElem?_eq_getElem _
    rw [List.take_add_one, hget, advance, List.foldl_append]
    show (((within s offset).advance ((s.drop offset).take m))).next _ = _
    rw [ih (by omega)]
    exact next_within (List.getElem?_eq_getElem _)

end Pos

theorem Span.covering_within (s : List Char) {offset m : Nat} (h : offset + m ≤ s.length) :
    Span.covering (Pos.within s offset) ((s.drop offset).take m) =
      ⟨Pos.within s offset, Pos.within s (offset + (m - 1))⟩ := by
  have hlast : ((s.drop offset).take m).dropLast = (s.drop offset).take (m - 1) := by
    have hm : m ≤ (s.drop offset).length := by
      rw [List.length_drop]
      omega
    rw [List.dropLast_eq_take, List.length_take_of_le hm, List.take_take,
      Nat.min_eq_left (Nat.sub_le m 1)]
  rw [Span.covering, hlast, Pos.advance_within s (by omega)]

/-! ## One step -/

/-- The token was read from the `m` characters of the text from the offset on: it is not the end of
input, its span lies in the text, and if it is legal then it covers and says those characters. -/
structure Token.ReadFrom (s : List Char) (offset m : Nat) (t : Token) : Prop where
  kind_ne : t.kind ≠ .eof
  span_eq : ∃ first last : Nat, first ≤ last ∧ last ≤ s.length ∧
    t.span = ⟨Pos.within s first, Pos.within s last⟩ ∧
    (t.kind ≠ .illegal →
      first = offset ∧ last + 1 = offset + m ∧ t.lexeme = (s.drop offset).take m)

section

variable {s : List Char} {offset length : Nat}

theorem Lexeme.toToken_token {kind : TokenKind} {data : String} (h : offset + length ≤ s.length) :
    Lexeme.toToken (Pos.within s offset) (s.drop offset) ⟨length, .token kind data⟩ =
      ⟨kind, ⟨Pos.within s offset, Pos.within s (offset + (length - 1))⟩, data, []⟩ := by
  show Token.mk kind (Span.covering _ ((s.drop offset).take length)) data [] = _
  rw [Span.covering_within s h]

theorem Lexeme.toToken_fault {skip width : Nat} {why : LexicalFault}
    (h : offset + skip + width ≤ s.length) :
    Lexeme.toToken (Pos.within s offset) (s.drop offset) ⟨length, .fault skip width why⟩ =
      ⟨.illegal, ⟨Pos.within s (offset + skip), Pos.within s (offset + skip + (width - 1))⟩,
        why.message, []⟩ := by
  show Token.mk .illegal (Span.covering ((Pos.within s offset).advance ((s.drop offset).take skip))
    (((s.drop offset).drop skip).take width)) why.message [] = _
  rw [Pos.advance_within s (by omega), List.drop_drop, Span.covering_within s h]

end

theorem Lexeme.Fits.readFrom {s : List Char} {offset : Nat} {l : Lexeme}
    (hle : offset ≤ s.length) (h : l.Fits (s.drop offset)) :
    (l.toToken (Pos.within s offset) (s.drop offset)).ReadFrom s offset l.length := by
  obtain ⟨hpos, hlength, hdescribes⟩ := h
  obtain ⟨length, verdict⟩ := l
  have hend : offset + length ≤ s.length := by
    rw [List.length_drop] at hlength
    exact Nat.add_le_of_le_sub' hle hlength
  cases verdict with
  | token kind data =>
    obtain ⟨heof, _, htext⟩ := hdescribes
    rw [toToken_token hend]
    refine ⟨heof, offset, offset + (length - 1), Nat.le_add_right _ _, by omega, rfl,
      fun _ => ⟨rfl, ?_, htext⟩⟩
    show offset + (length - 1) + 1 = offset + length
    have hlength : 0 < length := hpos
    omega
  | fault skip width why =>
    have hwithin : skip + width ≤ length := by
      rwa [Verdict.Describes, List.length_take_of_le hlength] at hdescribes
    rw [toToken_fault (by omega)]
    exact ⟨nofun, _, _, Nat.le_add_right _ _, by omega, rfl, fun hne => absurd rfl hne⟩

/-- The lexer stands at an offset of the text: the characters left are those from there on, and it
keeps the place of that offset. -/
structure Lexer.StandsAt (s : List Char) (offset : Nat) (l : Lexer) : Prop where
  le : offset ≤ s.length
  rest : l.rest = s.drop offset
  pos : l.pos = Pos.within s offset

namespace Lexer

theorem standsAt_ofFile (file : OpenFile) :
    (ofFile file).StandsAt (Text.Utf8.chars file.bytes) 0 :=
  ⟨Nat.zero_le _, rest_settle _, (pos_settle _).trans (Pos.within_zero _).symm⟩

theorem StandsAt.advance_end {s : List Char} {l : Lexer} (h : l.StandsAt s s.length) :
    l.advance = (.endAt (Pos.within s s.length), l) := by
  have hrest : l.rest = [] := by rw [h.rest, List.drop_length]
  unfold advance
  rw [hrest, h.pos]

/-- **One step** before the end of the text reads a token from some characters, and the lexer then
stands after them. -/
theorem StandsAt.step {s : List Char} {offset : Nat} {l : Lexer} (h : l.StandsAt s offset)
    (hlt : offset < s.length) :
    ∃ m, 0 < m ∧ l.advance.2.StandsAt s (offset + m) ∧ l.advance.1.ReadFrom s offset m := by
  obtain ⟨c, cs, hcons⟩ : ∃ c cs, s.drop offset = c :: cs :=
    ⟨_, _, List.drop_eq_getElem_cons hlt⟩
  have hfits : (Lexeme.scan c cs).Fits (s.drop offset) := hcons ▸ Lexeme.scan_fits c cs
  have hread := hfits.readFrom h.le
  have hrest : l.rest = c :: cs := h.rest.trans hcons
  have hend : offset + (Lexeme.scan c cs).length ≤ s.length := by
    have hlength := hfits.le
    rw [List.length_drop] at hlength
    exact Nat.add_le_of_le_sub' h.le hlength
  refine ⟨(Lexeme.scan c cs).length, hfits.pos, ⟨hend, ?_, ?_⟩, ?_⟩
  · unfold advance
    rw [hrest, rest_settle, ← List.drop_drop, hcons]
    obtain ⟨m, hm⟩ := Nat.exists_eq_add_one.mpr hfits.pos
    rw [hm]
    rfl
  · unfold advance
    rw [hrest, pos_settle, h.pos, ← hcons]
    exact Pos.advance_within s hend
  · unfold advance
    rw [hrest]
    rwa [hcons, ← h.pos] at hread

/-! ## Runs -/

def advanced (l : Lexer) : Nat → Lexer
  | 0 => l
  | j + 1 => l.advance.2.advanced j

def tokenAt (l : Lexer) (j : Nat) : Token := (l.advanced j).advance.1

theorem performAll_advances (l : Lexer) (n : Nat) :
    (l.performAll (List.replicate n .advance)).1 =
      (List.range n).map fun j => .token (l.tokenAt j) := by
  induction n generalizing l with
  | zero => rfl
  | succ n ih =>
    rw [List.replicate_succ, performAll, List.range_succ_eq_map, List.map_cons, List.map_map]
    exact congrArg (_ :: ·) (ih l.advance.2)

/-- What a sequence of tokens, of which `count` come before the end of input, says about the text
from an offset on. -/
structure Lossless (s : List Char) (offset count : Nat) (token : Nat → Token) : Prop where
  /-- The end of input comes after no more tokens than there are characters, and stays. -/
  count_le : count ≤ s.length - offset
  kind_ne : ∀ j < count, (token j).kind ≠ .eof
  eq_endAt : ∀ j, count ≤ j → token j = .endAt (Pos.within s s.length)
  /-- Spans lie in the text, their places are true, and a legal token says what its span covers. -/
  span_eq : ∀ j, ∃ first last : Nat, first ≤ last ∧ last ≤ s.length ∧
    (token j).span = ⟨Pos.within s first, Pos.within s last⟩ ∧
    (j < count → (token j).kind ≠ .illegal →
      (token j).lexeme = (s.drop first).take (last + 1 - first))
  /-- Legal tokens tile the text. The end of input counts as the one after the last. -/
  tiles : (∀ j < count, (token j).kind ≠ .illegal) →
    (token 0).span.first.offset = offset ∧
      (∀ j < count, (token (j + 1)).span.first.offset = (token j).span.last.offset + 1) ∧
      (List.range count).flatMap (fun j => (token j).lexeme) = s.drop offset

theorem StandsAt.lossless_end {s : List Char} {l : Lexer} (h : l.StandsAt s s.length) :
    Lossless s s.length 0 l.tokenAt := by
  have hstays : ∀ j, l.advanced j = l := by
    intro j
    induction j with
    | zero => rfl
    | succ j ih =>
      rw [advanced, h.advance_end]
      exact ih
  have htoken : ∀ j, l.tokenAt j = .endAt (Pos.within s s.length) := by
    intro j
    rw [tokenAt, hstays, h.advance_end]
  refine ⟨Nat.zero_le _, nofun, fun j _ => htoken j, fun j => ?_, fun _ => ⟨?_, nofun, ?_⟩⟩
  · exact ⟨s.length, s.length, Nat.le_refl _, Nat.le_refl _, by rw [htoken]; rfl, nofun⟩
  · rw [htoken]
    rfl
  · rw [List.drop_length]
    rfl

theorem Lossless.cons {s : List Char} {offset m count : Nat} {token : Nat → Token} (hm : 0 < m)
    (hend : offset + m ≤ s.length) (hfirst : (token 0).ReadFrom s offset m)
    (h : Lossless s (offset + m) count fun j => token (j + 1)) :
    Lossless s offset (count + 1) token := by
  obtain ⟨hcount, hkind, hendAt, hspan, htiles⟩ := h
  refine ⟨by omega, ?_, ?_, ?_, ?_⟩
  · intro j hj
    cases j with
    | zero => exact hfirst.kind_ne
    | succ j => exact hkind j (Nat.lt_of_succ_lt_succ hj)
  · intro j hj
    cases j with
    | zero => exact absurd hj (Nat.not_succ_le_zero count)
    | succ j => exact hendAt j (Nat.le_of_succ_le_succ hj)
  · intro j
    cases j with
    | zero =>
      obtain ⟨first, last, hle, hlast, heq, hlegal⟩ := hfirst.span_eq
      refine ⟨first, last, hle, hlast, heq, fun _ hkind => ?_⟩
      obtain ⟨rfl, hlength, hlexeme⟩ := hlegal hkind
      rw [hlexeme, hlength, Nat.add_sub_cancel_left]
    | succ j =>
      obtain ⟨first, last, hle, hlast, heq, hlexeme⟩ := hspan j
      exact ⟨first, last, hle, hlast, heq, fun hj => hlexeme (Nat.lt_of_succ_lt_succ hj)⟩
  · intro hlegal
    obtain ⟨first, last, _, _, heq, hcovers⟩ := hfirst.span_eq
    obtain ⟨rfl, hlength, hlexeme⟩ := hcovers (hlegal 0 (Nat.succ_pos count))
    obtain ⟨hstart, hnext, hconcat⟩ :=
      htiles fun j hj => hlegal (j + 1) (Nat.succ_lt_succ hj)
    refine ⟨by rw [heq]; rfl, ?_, ?_⟩
    · intro j hj
      cases j with
      | zero =>
        rw [hstart, ← hlength, heq]
        rfl
      | succ j => exact hnext j (Nat.lt_of_succ_lt_succ hj)
    · rw [List.range_succ_eq_map, List.flatMap_cons, List.flatMap_map, hlexeme]
      show _ ++ (List.range count).flatMap (fun j => (token (j + 1)).lexeme) = _
      rw [hconcat, ← List.drop_drop, List.take_append_drop]

theorem StandsAt.lossless {s : List Char} {offset : Nat} {l : Lexer} (h : l.StandsAt s offset) :
    ∃ count, Lossless s offset count l.tokenAt := by
  -- Each step leaves fewer characters.
  induction hleft : s.length - offset using Nat.strongRecOn generalizing offset l with
  | ind left ih =>
    by_cases hlt : offset < s.length
    · obtain ⟨m, hm, hstands, hread⟩ := h.step hlt
      obtain ⟨count, hlossless⟩ := ih (s.length - (offset + m)) (by omega) hstands rfl
      exact ⟨count + 1, .cons hm hstands.le hread hlossless⟩
    · obtain rfl : offset = s.length := Nat.le_antisymm h.le (Nat.le_of_not_lt hlt)
      exact ⟨0, h.lossless_end⟩

end Lexer

end TypedLambda
