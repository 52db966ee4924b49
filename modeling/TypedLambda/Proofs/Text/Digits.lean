import Mathlib.Data.List.Forall2
import Mathlib.Data.Nat.Digits.Defs
import TypedLambda.Text.Digit

/-!
# Numbers in digits

What digits write, said by tables of the digits and by their positions. The readers of the program
go over the characters from the left with a running value; `fixedDigits?_eq_some_iff` says that what
they find is the number that the digits write.
-/

namespace TypedLambda.Text

/-- The character is the digit with value `d` in the base, in either case. -/
def IsDigit (base : Nat) (c : Char) (d : Nat) : Prop :=
  d < base ∧
    ("0123456789abcdef".toList[d]? = some c ∨ "0123456789ABCDEF".toList[d]? = some c)

/-- The characters are digits of the base that write the number, the most significant one first. -/
def Writes (base : Nat) (cs : List Char) (n : Nat) : Prop :=
  ∃ ds, List.Forall₂ (IsDigit base) cs ds ∧ n = Nat.ofDigits base ds.reverse

/-! ## One digit -/

theorem forall_ascii {P : Char → Prop} (h : ∀ n < 0x80, P (Char.ofNat n)) {c : Char}
    (hc : c.toNat < 0x80) : P c := by
  have hn := h c.toNat hc
  rwa [Char.ofNat_toNat] at hn

theorem toNat_lt_of_digitValue? {c : Char} {d : Nat} (h : digitValue? c = some d) :
    c.toNat < 0x80 := by
  have hlast : c ≤ '9' ∨ c ≤ 'f' ∨ c ≤ 'F' := by
    unfold digitValue? at h
    simp only [Bool.and_eq_true, decide_eq_true_eq] at h
    split at h
    · next hc => exact .inl hc.2
    · split at h
      · next hc => exact .inr (.inl hc.2)
      · split at h
        · next hc => exact .inr (.inr hc.2)
        · cases h
  have hnat : c.toNat ≤ 57 ∨ c.toNat ≤ 102 ∨ c.toNat ≤ 70 := hlast
  omega

theorem digitValue?_eq_some_iff {c : Char} {d : Nat} :
    digitValue? c = some d ↔
      "0123456789abcdef".toList[d]? = some c ∨ "0123456789ABCDEF".toList[d]? = some c := by
  constructor
  · intro h
    refine forall_ascii (P := fun c => ∀ d ∈ digitValue? c, "0123456789abcdef".toList[d]? = some c ∨
      "0123456789ABCDEF".toList[d]? = some c) ?_ (toNat_lt_of_digitValue? h) d h
    decide +kernel
  · have hlower :
        ("0123456789abcdef".toList.zipIdx.all fun p => digitValue? p.1 == some p.2) = true := by
      decide +kernel
    have hupper :
        ("0123456789ABCDEF".toList.zipIdx.all fun p => digitValue? p.1 == some p.2) = true := by
      decide +kernel
    rintro (h | h)
    · simpa using List.all_eq_true.mp hlower (c, d) (List.mk_mem_zipIdx_iff_getElem?.mpr h)
    · simpa using List.all_eq_true.mp hupper (c, d) (List.mk_mem_zipIdx_iff_getElem?.mpr h)

theorem digitIn?_eq_some_iff {base d : Nat} {c : Char} :
    digitIn? base c = some d ↔ IsDigit base c d := by
  rw [digitIn?, Option.filter_eq_some_iff, digitValue?_eq_some_iff, decide_eq_true_eq, IsDigit,
    and_comm]

/-! ## Several digits -/

theorem ofDigits_reverse_eq_foldl (base : Nat) (ds : List Nat) :
    Nat.ofDigits base ds.reverse = ds.foldl (fun n d => n * base + d) 0 := by
  rw [Nat.ofDigits_eq_foldr, List.foldr_reverse]
  congr 1
  funext n d
  simp [Nat.mul_comm, Nat.add_comm]

theorem fixedDigits?_eq_some_iff {base count acc n : Nat} {cs : List Char} :
    fixedDigits? base count acc cs = some n ↔
      ∃ digits rest ds, cs = digits ++ rest ∧ digits.length = count ∧
        List.Forall₂ (IsDigit base) digits ds ∧ n = ds.foldl (fun n d => n * base + d) acc := by
  induction count generalizing acc cs with
  | zero =>
    constructor
    · intro h
      exact ⟨[], cs, [], rfl, rfl, .nil, (Option.some.inj h).symm⟩
    · rintro ⟨digits, rest, ds, rfl, hlength, hdigits, rfl⟩
      obtain rfl := List.length_eq_zero_iff.mp hlength
      cases hdigits
      rfl
  | succ count ih =>
    cases cs with
    | nil =>
      constructor
      · intro h
        cases h
      · rintro ⟨digits, rest, ds, hcs, hlength, _⟩
        obtain ⟨rfl, rfl⟩ := List.append_eq_nil_iff.mp hcs.symm
        cases hlength
    | cons c cs =>
      rw [fixedDigits?]
      constructor
      · intro h
        cases hd : digitIn? base c with
        | none =>
          rw [hd] at h
          cases h
        | some d =>
          rw [hd] at h
          obtain ⟨digits, rest, ds, rfl, rfl, hdigits, rfl⟩ := ih.mp h
          exact ⟨c :: digits, rest, d :: ds, rfl, rfl,
            .cons (digitIn?_eq_some_iff.mp hd) hdigits, rfl⟩
      · rintro ⟨digits, rest, ds, hcs, hlength, hdigits, rfl⟩
        cases hdigits with
        | nil => cases hlength
        | cons hd hdigits =>
          obtain ⟨rfl, rfl⟩ := List.cons.inj hcs
          rw [digitIn?_eq_some_iff.mpr hd]
          exact ih.mpr ⟨_, rest, _, rfl, Nat.succ.inj hlength, hdigits, rfl⟩

theorem fixedDigits?_zero_eq_some_iff {base count n : Nat} {cs : List Char} :
    fixedDigits? base count 0 cs = some n ↔
      ∃ digits rest, cs = digits ++ rest ∧ digits.length = count ∧ Writes base digits n := by
  rw [fixedDigits?_eq_some_iff]
  constructor
  · rintro ⟨digits, rest, ds, hcs, hlength, hdigits, hn⟩
    exact ⟨digits, rest, hcs, hlength, ds, hdigits, hn.trans (ofDigits_reverse_eq_foldl ..).symm⟩
  · rintro ⟨digits, rest, hcs, hlength, ds, hdigits, hn⟩
    exact ⟨digits, rest, ds, hcs, hlength, hdigits, hn.trans (ofDigits_reverse_eq_foldl ..)⟩

theorem Writes.concat {base n d : Nat} {c : Char} {cs : List Char} (h : Writes base cs n)
    (hc : IsDigit base c d) : Writes base (cs ++ [c]) (n * base + d) := by
  obtain ⟨ds, hdigits, rfl⟩ := h
  refine ⟨ds ++ [d], List.rel_append hdigits (.cons hc .nil), ?_⟩
  rw [ofDigits_reverse_eq_foldl, ofDigits_reverse_eq_foldl, List.foldl_append]
  rfl

theorem Writes.lt {base n : Nat} {cs : List Char} (h : Writes base cs n) (hbase : 1 < base) :
    n < base ^ cs.length := by
  obtain ⟨ds, hdigits, rfl⟩ := h
  have hlt : ∀ d ∈ ds, d < base := by
    induction hdigits with
    | nil => simp
    | cons hd _ ih => simpa using ⟨hd.1, ih⟩
  rw [hdigits.length_eq, ← List.length_reverse]
  exact Nat.ofDigits_lt_base_pow_length hbase fun d hd => hlt d (List.mem_reverse.mp hd)

end TypedLambda.Text
