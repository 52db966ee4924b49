import TypedLambda.Proofs.Lexing.Strings

/-!
# Quoted texts are literals

A byte string that is shown between quotes is a string literal for itself, whatever its bytes
(`Text.Quoted.denotes_ofBytes`): each of its pieces is shown as a plain character or as an escape.
-/

namespace TypedLambda

open Text
open String (utf8EncodeChar)

namespace Text

/-! ## Digits -/

theorem isDigit_lowerDigit {d : Nat} (h : d < 16) : IsDigit 16 (lowerDigit d) d := by
  have hdigits : ∀ d < 16, digitIn? 16 (lowerDigit d) = some d := by decide
  exact digitIn?_eq_some_iff.mp (hdigits d h)

theorem writes_lowerHex {width n : Nat} (h : n < 16 ^ width) : Writes 16 (lowerHex width n) n := by
  induction width generalizing n with
  | zero =>
    obtain rfl : n = 0 := by simpa using h
    exact ⟨[], .nil, rfl⟩
  | succ width ih =>
    have hfront : n / 16 < 16 ^ width := by omega
    have hlast : IsDigit 16 (lowerDigit (n % 16)) (n % 16) :=
      isDigit_lowerDigit (Nat.mod_lt n (by decide))
    have hconcat := (ih hfront).concat hlast
    rwa [Nat.div_add_mod'] at hconcat

theorem length_lowerHex (width n : Nat) : (lowerHex width n).length = width := by
  induction width generalizing n with
  | zero => rfl
  | succ width ih => rw [lowerHex, List.length_append, ih, List.length_singleton]

namespace Quoted

open TypedLambda.Text.Literal (Escape Body Denotes)

/-! ## Pieces -/

theorem escape_control {c letter : Char} (h : controlLetter? c = some letter) :
    Escape [letter] (utf8EncodeChar c) := by
  have hc := Char.ofNat_toNat c
  unfold controlLetter? at h
  split at h <;> cases h
  all_goals
    next hnat =>
    rw [hnat] at hc
    subst hc
    exact .simple (by decide)

theorem escape_byte {n : Nat} (h : n < 256) : Escape ('x' :: lowerHex 2 n) [n.toUInt8] :=
  .hex (length_lowerHex 2 n) (writes_lowerHex h)

theorem body_escapePiece (p : Utf8.Piece) {cs : List Char} {bs : List UInt8} (h : Body cs bs) :
    Body (escapePiece p ++ cs) (p.bytes ++ bs) := by
  cases p with
  | stray b =>
    have hbyte := escape_byte b.toNat_lt
    rw [show b.toNat.toUInt8 = b from UInt8.ofNat_toNat] at hbyte
    exact .escape hbyte h
  | char c =>
    show Body (escape '\x22' c ++ cs) (utf8EncodeChar c ++ bs)
    unfold escape
    split
    · next hc =>
      have hself : Escape [c] (utf8EncodeChar c) := by
        simp only [Bool.or_eq_true, beq_iff_eq] at hc
        rcases hc with rfl | rfl <;> exact .simple (by decide)
      exact .escape hself h
    · next hc =>
      split
      · next hprint =>
        have hquote : c ≠ '\x22' ∧ c ≠ '\\' := by simpa using hc
        refine .plain ?_ hquote.1 hquote.2 h
        rintro rfl
        exact absurd hprint (by decide)
      · split
        · next letter hletter => exact .escape (escape_control hletter) h
        · split
          · next hascii =>
            rw [Utf8.utf8EncodeChar_of_le (Nat.le_of_lt_succ hascii)]
            exact .escape (escape_byte (by omega)) h
          · split
            · next hfour => exact .escape (.short (length_lowerHex 4 _) (writes_lowerHex hfour)) h
            · have hvalid := Utf8.toNat_isValidChar c
              have height : c.toNat < 16 ^ 8 := by omega
              exact .escape (.long (length_lowerHex 8 _) (writes_lowerHex height)) h

/-! ## Quoted texts -/

theorem body_flatMap (ps : List Utf8.Piece) :
    Body (ps.flatMap escapePiece) (ps.flatMap Utf8.Piece.bytes) := by
  induction ps with
  | nil => exact .nil
  | cons p ps ih =>
    rw [List.flatMap_cons, List.flatMap_cons]
    exact body_escapePiece p ih

/-- **A quoted byte string is a literal for itself.** -/
theorem denotes_ofBytes (bs : List UInt8) : Denotes (ofBytes bs).toList bs := by
  have hbody := body_flatMap (Utf8.decode bs)
  rw [Utf8.flatMap_bytes_decode] at hbody
  exact ⟨_, String.toList_ofList, hbody⟩

end Quoted

theorem literalBytes?_ofBytes (bs : List UInt8) : literalBytes? (Quoted.ofBytes bs) = some bs :=
  literalBytes?_of_denotes (Quoted.denotes_ofBytes bs)

end Text

end TypedLambda
