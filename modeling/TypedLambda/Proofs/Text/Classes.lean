import TypedLambda.Proofs.Text.Digits
import TypedLambda.Text.IdentContinue
import TypedLambda.Text.IdentStart

/-!
# What is used of the classes of characters

The characters of names are those of two long tables. Nothing is used of the tables but four facts:
which ASCII characters are in the classes (`isIdentStart_of_ascii`, `isIdentContinue_of_ascii`), and
that white space is in neither (`isBlank_of_isIdentStart`, `isIdentContinue_of_isBlank`). Other
tables with these properties would do as well.
-/

namespace TypedLambda.Text

variable {c : Char}

/-! ## Characters of names -/

theorem isIdentStart_of_ascii (h : c.toNat < 0x80) : isIdentStart c = (c.isAlpha || c == '_') :=
  if_pos h

theorem isIdentContinue_of_ascii (h : c.toNat < 0x80) :
    isIdentContinue c = (c.isAlphanum || c == '_') :=
  if_pos h

theorem inRanges_eq_false {as bs : List (Nat × Nat)}
    (h : (as.all fun r => bs.all fun s => r.2 < s.1 || s.2 < r.1) = true)
    (hc : inRanges as c = true) : inRanges bs c = false := by
  obtain ⟨r, hr, hin⟩ := List.any_eq_true.mp hc
  refine Bool.eq_false_iff.mpr fun hbs => ?_
  obtain ⟨s, hs, hin'⟩ := List.any_eq_true.mp hbs
  have hapart := List.all_eq_true.mp (List.all_eq_true.mp h r hr) s hs
  simp only [Bool.and_eq_true, Bool.or_eq_true, decide_eq_true_eq] at hin hin' hapart
  omega

theorem isIdentContinue_of_isBlank (h : isBlank c = true) : isIdentContinue c = false := by
  by_cases hascii : c.toNat < 0x80
  · rw [isIdentContinue_of_ascii hascii]
    exact forall_ascii (P := fun c => isBlank c = true → (c.isAlphanum || c == '_') = false)
      (by decide +kernel) hascii h
  · rw [isIdentContinue, if_neg hascii]
    exact inRanges_eq_false (by decide +kernel) h

theorem isBlank_of_isIdentStart (h : isIdentStart c = true) : isBlank c = false := by
  by_cases hascii : c.toNat < 0x80
  · rw [isIdentStart_of_ascii hascii] at h
    exact forall_ascii (P := fun c => (c.isAlpha || c == '_') = true → isBlank c = false)
      (by decide +kernel) hascii h
  · rw [isIdentStart, if_neg hascii] at h
    exact inRanges_eq_false (by decide +kernel) h

/-! ## Letters of ASCII -/

theorem toNat_lt_of_isAlpha (h : c.isAlpha = true) : c.toNat < 0x80 := by
  rcases Bool.or_eq_true_iff.mp h with hupper | hlower
  · have hlast : c.toNat ≤ 90 := (of_decide_eq_true hupper).2
    omega
  · have hlast : c.toNat ≤ 122 := of_decide_eq_true (Bool.and_eq_true_iff.mp hlower).2
    omega

theorem isIdentStart_of_isAlpha (h : c.isAlpha = true) : isIdentStart c = true := by
  rw [isIdentStart_of_ascii (toNat_lt_of_isAlpha h), h]
  rfl

theorem isIdentContinue_of_isAlpha (h : c.isAlpha = true) : isIdentContinue c = true := by
  rw [isIdentContinue_of_ascii (toNat_lt_of_isAlpha h), Char.isAlphanum, h]
  rfl

/-! ## Digits and white space -/

theorem isDecimal_iff : isDecimal c = true ↔ 48 ≤ c.toNat ∧ c.toNat ≤ 57 := by
  rw [isDecimal, Bool.and_eq_true, decide_eq_true_eq, decide_eq_true_eq]
  rfl

theorem of_isDecimal (h : isDecimal c = true) :
    isBlank c = false ∧ isIdentStart c = false ∧ c ≠ '_' ∧ digitIn? 10 c = some (c.toNat - 48) := by
  have hascii : c.toNat < 0x80 := Nat.lt_of_le_of_lt (isDecimal_iff.mp h).2 (by decide)
  rw [isIdentStart_of_ascii hascii]
  exact forall_ascii (P := fun c => isDecimal c = true → isBlank c = false ∧
    (c.isAlpha || c == '_') = false ∧ c ≠ '_' ∧ digitIn? 10 c = some (c.toNat - 48))
    (by decide +kernel) hascii h

theorem ne_of_isBlank {d : Char} (hc : isBlank c = true) (hd : isBlank d = false) : c ≠ d := by
  rintro rfl
  rw [hc] at hd
  cases hd

end TypedLambda.Text
