import TypedLambda.Proofs.Lexing.Words

/-!
# Numerals

The syntax of numerals and the numbers they denote, on their own (`Numeral.Denotes`): decimal
digits, or a mark of another base and digits of that base, with underscores between the digits. The
lexer looks for faults in a run of digits and underscores, and the parser reads the digits a second
time.

* `Lexeme.number_of_denotes`, `Lexeme.exists_denotes_of_number`: the lexer takes the numerals as
  numbers, and nothing else;
* `Numeral.integer?_of_denotes`: a numeral is read as the number that it denotes;
* `Numeral.denotes_repr`: a number is shown by a numeral for itself.
-/

namespace TypedLambda

open Text

/-! ## Syntax -/

namespace Numeral

/-- The letters that select a base after a zero. -/
def marks : List (Char × Nat) :=
  [('x', 16), ('X', 16), ('o', 8), ('O', 8), ('b', 2), ('B', 2)]

/-- Digits of the base, each with or without an underscore before it. -/
inductive Grouped (base : Nat) : List Char → Prop
  | nil : Grouped base []
  | plain {c : Char} {d : Nat} {cs : List Char} :
      IsDigit base c d → Grouped base cs → Grouped base (c :: cs)
  | separated {c : Char} {d : Nat} {cs : List Char} :
      IsDigit base c d → Grouped base cs → Grouped base ('_' :: c :: cs)

/-- The text is a numeral for the number that its digits write, whatever underscores are between
them. -/
inductive Denotes : List Char → Nat → Prop
  | decimal {c : Char} {d n : Nat} {cs : List Char} :
      IsDigit 10 c d → Grouped 10 cs → Writes 10 ((c :: cs).filter (· != '_')) n →
      Denotes (c :: cs) n
  | marked {letter : Char} {base n : Nat} {cs : List Char} :
      (letter, base) ∈ marks → cs ≠ [] → Grouped base cs →
      Writes base (cs.filter (· != '_')) n → Denotes ('0' :: letter :: cs) n

theorem base?_eq_some_iff {c : Char} {base : Nat} :
    base? c = some base ↔ (c, base) ∈ marks := by
  constructor
  · intro h
    unfold base? at h
    simp only [Bool.or_eq_true, beq_iff_eq] at h
    split at h
    · next hc => cases h; rcases hc with rfl | rfl <;> decide
    · split at h
      · next hc => cases h; rcases hc with rfl | rfl <;> decide
      · split at h
        · next hc => cases h; rcases hc with rfl | rfl <;> decide
        · cases h
  · intro h
    simp only [marks, List.mem_cons, List.not_mem_nil, or_false, Prod.mk.injEq] at h
    rcases h with ⟨rfl, rfl⟩ | ⟨rfl, rfl⟩ | ⟨rfl, rfl⟩ | ⟨rfl, rfl⟩ | ⟨rfl, rfl⟩ | ⟨rfl, rfl⟩
    all_goals decide

theorem of_mem_marks {letter : Char} {base : Nat} (h : (letter, base) ∈ marks) :
    isDecimal letter = false ∧ isBlank letter = false ∧ (base ≤ 10 ∨ base = 16) := by
  have hmarks : ∀ p ∈ marks, isDecimal p.1 = false ∧ isBlank p.1 = false ∧
      (p.2 ≤ 10 ∨ p.2 = 16) := by decide
  exact hmarks _ h

theorem not_isDigit_underscore {base d : Nat} : ¬ IsDigit base '_' d := by
  intro h
  have hvalue := digitValue?_eq_some_iff.mpr h.2
  simp [show digitValue? '_' = none by decide] at hvalue

theorem ne_underscore_of_isDigit {base d : Nat} {c : Char} (h : IsDigit base c d) : c ≠ '_' := by
  rintro rfl
  exact not_isDigit_underscore h

theorem grouped_underscore_iff {base : Nat} {cs : List Char} :
    Grouped base ('_' :: cs) ↔
      ∃ c rest, cs = c :: rest ∧ (∃ d, IsDigit base c d) ∧ Grouped base rest := by
  constructor
  · intro h
    cases h with
    | plain hd => exact absurd hd not_isDigit_underscore
    | separated hd hrest => exact ⟨_, _, rfl, ⟨_, hd⟩, hrest⟩
  · rintro ⟨c, rest, rfl, ⟨d, hd⟩, hrest⟩
    exact .separated hd hrest

theorem grouped_cons_iff {base : Nat} {c : Char} {cs : List Char} (hc : c ≠ '_') :
    Grouped base (c :: cs) ↔ (∃ d, IsDigit base c d) ∧ Grouped base cs := by
  constructor
  · intro h
    cases h with
    | plain hd hcs => exact ⟨⟨_, hd⟩, hcs⟩
    | separated => exact absurd rfl hc
  · rintro ⟨⟨d, hd⟩, hcs⟩
    exact .plain hd hcs

theorem Grouped.exists_digits {base : Nat} {cs : List Char} (h : Grouped base cs) :
    ∃ ds, List.Forall₂ (IsDigit base) (cs.filter (· != '_')) ds := by
  induction h with
  | nil => exact ⟨[], .nil⟩
  | plain hd _ ih =>
    obtain ⟨ds, hds⟩ := ih
    have hne := ne_underscore_of_isDigit hd
    exact ⟨_ :: ds, by simpa [hne] using ⟨hd, hds⟩⟩
  | separated hd _ ih =>
    obtain ⟨ds, hds⟩ := ih
    have hne := ne_underscore_of_isDigit hd
    exact ⟨_ :: ds, by simpa [hne] using ⟨hd, hds⟩⟩

theorem isDecimal_of_isDigit {base d : Nat} {c : Char} (hbase : base ≤ 10) (h : IsDigit base c d) :
    isDecimal c = true := by
  have hvalue := digitValue?_eq_some_iff.mpr h.2
  refine forall_ascii (P := fun c => ∀ d ∈ digitValue? c, d < 10 → isDecimal c = true) ?_
    (toNat_lt_of_digitValue? hvalue) d hvalue (Nat.lt_of_lt_of_le h.1 hbase)
  decide +kernel

theorem Grouped.not_mark {base : Nat} {letter : Char} {cs : List Char}
    (h : Grouped 10 (letter :: cs)) : (letter, base) ∉ marks := by
  intro hmark
  cases h with
  | plain hd =>
    have hdecimal := isDecimal_of_isDigit (Nat.le_refl 10) hd
    simp [(of_mem_marks hmark).1] at hdecimal
  | separated =>
    have hbase := base?_eq_some_iff.mpr hmark
    simp [show base? '_' = none by decide] at hbase

theorem exists_denotes_marked {letter : Char} {base : Nat} {cs : List Char}
    (hmark : (letter, base) ∈ marks) (hne : cs ≠ []) (hcs : Grouped base cs) :
    ∃ n, Denotes ('0' :: letter :: cs) n := by
  obtain ⟨ds, hds⟩ := hcs.exists_digits
  exact ⟨_, .marked hmark hne hcs ⟨ds, hds, rfl⟩⟩

theorem exists_denotes_decimal {c : Char} {d : Nat} {cs : List Char} (hc : IsDigit 10 c d)
    (hcs : Grouped 10 cs) : ∃ n, Denotes (c :: cs) n := by
  obtain ⟨ds, hds⟩ := (Grouped.plain hc hcs).exists_digits
  exact ⟨_, .decimal hc hcs ⟨ds, hds, rfl⟩⟩

end Numeral

/-! ## What the lexer takes -/

namespace Lexeme

open Numeral (Grouped Denotes marks)

/-- **A run of digits and underscores has no fault exactly if it is grouped.** Where no underscore
may stand, it goes on from one. -/
theorem digitFault?_eq_none_iff (base : Nat) (separable : Bool) (i : Nat) (cs : List Char) :
    digitFault? base separable i cs = none ↔
      Grouped base (if separable then cs else '_' :: cs) := by
  induction cs generalizing separable i with
  | nil => cases separable <;> simp [digitFault?, Grouped.nil, Numeral.grouped_underscore_iff]
  | cons c cs ih =>
    by_cases hunderscore : c = '_'
    · subst hunderscore
      cases separable with
      | true => exact ih false (i + 1)
      | false => simp [digitFault?, Numeral.grouped_underscore_iff, Numeral.not_isDigit_underscore]
    · rw [digitFault?, if_neg (by simpa using hunderscore)]
      cases hd : digitIn? base c with
      | none =>
        have hnone : ∀ d, ¬ IsDigit base c d := by simp [← digitIn?_eq_some_iff, hd]
        cases separable <;>
          simp [Numeral.grouped_underscore_iff, Numeral.grouped_cons_iff hunderscore, hnone]
      | some d =>
        have hdigit : ∃ d, IsDigit base c d := ⟨d, digitIn?_eq_some_iff.mp hd⟩
        rw [if_pos Option.isSome_some, ih true]
        cases separable <;>
          simp [Numeral.grouped_underscore_iff, Numeral.grouped_cons_iff hunderscore, hdigit]

theorem isDigitLike_of_isDigit {base d : Nat} {c : Char} (hbase : base ≤ 10 ∨ base = 16)
    (h : IsDigit base c d) : isDigitLike base c = true := by
  rcases hbase with hbase | rfl
  · have hdecimal := Numeral.isDecimal_of_isDigit hbase h
    rw [isDigitLike, if_neg (by omega), hdecimal, Bool.or_true]
  · simp [isDigitLike, isHex, digitValue?_eq_some_iff.mpr h.2]

theorem isDigitLike_of_grouped {base : Nat} (hbase : base ≤ 10 ∨ base = 16) {cs : List Char}
    (h : Grouped base cs) : ∀ c ∈ cs, isDigitLike base c = true := by
  induction h with
  | nil => simp
  | plain hd _ ih => simpa [isDigitLike_of_isDigit hbase hd] using ih
  | separated hd _ ih =>
    have hunderscore : isDigitLike base '_' = true := by simp [isDigitLike]
    simpa [isDigitLike_of_isDigit hbase hd, hunderscore] using ih

theorem isDigitLike_of_isBlank {base : Nat} {c : Char} (h : isBlank c = true) :
    isDigitLike base c = false := by
  have hunderscore : c ≠ '_' := ne_of_isBlank h (by decide)
  have hhex : isHex c = false := by
    cases hvalue : digitValue? c with
    | none => simp [isHex, hvalue]
    | some d =>
      have hapart := forall_ascii (P := fun c => isBlank c = true → isHex c = false)
        (by decide +kernel) (toNat_lt_of_digitValue? hvalue)
      exact hapart h
  have hdecimal : isDecimal c = false :=
    Bool.eq_false_iff.mpr fun hdecimal => by simp [(of_isDecimal hdecimal).1] at h
  unfold isDigitLike
  split <;> simp [hunderscore, hhex, hdecimal]

theorem number_eq {cs digits : List Char} {base mark : Nat} (hbase : numberBase cs = (base, mark))
    (hdigits : (cs.drop mark).takeWhile (isDigitLike base) = digits) (hne : digits ≠ [])
    (hfault : digitFault? base (mark = 2) mark digits = none)
    (hpoint : (cs.drop (mark + digits.length)).head? ≠ some '.') :
    number cs = ⟨mark + digits.length,
      .token .number (String.ofList (cs.take (mark + digits.length)))⟩ := by
  unfold number
  simp only [hbase, hdigits, hfault]
  rw [if_neg (by simpa using hne), if_neg (by simpa using hpoint)]

theorem numberBase_cases (cs : List Char) :
    (∃ letter base rest, cs = '0' :: letter :: rest ∧ (letter, base) ∈ marks ∧
      numberBase cs = (base, 2)) ∨
    numberBase cs = (10, 0) := by
  unfold numberBase
  split
  · next letter rest =>
    cases hbase : Numeral.base? letter with
    | some base => exact .inl ⟨letter, base, rest, rfl, Numeral.base?_eq_some_iff.mp hbase, rfl⟩
    | none => exact .inr rfl
  · exact .inr rfl

theorem numberBase_marked {letter : Char} {base : Nat} (h : (letter, base) ∈ marks)
    (cs : List Char) : numberBase ('0' :: letter :: cs) = (base, 2) := by
  simp [numberBase, Numeral.base?_eq_some_iff.mpr h]

theorem numberBase_of_grouped {c : Char} {cs rest : List Char} (hcs : Grouped 10 cs)
    (hrest : Word.Gapped rest) : numberBase (c :: (cs ++ rest)) = (10, 0) := by
  rcases numberBase_cases (c :: (cs ++ rest)) with ⟨letter, base, after, heq, hmark, _⟩ | hbase
  · have hhead : (cs ++ rest).head? = some letter := by rw [(List.cons.inj heq).2]; rfl
    cases cs with
    | nil =>
      have hblank := hrest letter hhead
      simp [(Numeral.of_mem_marks hmark).2.1] at hblank
    | cons d ds =>
      obtain rfl : d = letter := Option.some.inj hhead
      exact absurd hmark hcs.not_mark
  · exact hbase

theorem takeWhile_grouped {base : Nat} (hbase : base ≤ 10 ∨ base = 16) {cs rest : List Char}
    (hcs : Grouped base cs) (hrest : Word.Gapped rest) :
    (cs ++ rest).takeWhile (isDigitLike base) = cs :=
  takeWhile_append_of_head? (isDigitLike_of_grouped hbase hcs)
    fun c hc => isDigitLike_of_isBlank (hrest c hc)

/-- **A numeral before white space is taken whole as a number.** -/
theorem number_of_denotes {cs rest : List Char} {n : Nat} (h : Denotes cs n)
    (hrest : Word.Gapped rest) :
    number (cs ++ rest) = ⟨cs.length, .token .number (String.ofList cs)⟩ := by
  have hpoint : ((cs ++ rest).drop cs.length).head? ≠ some '.' := by
    rw [List.drop_left]
    exact fun hhead => absurd (hrest '.' hhead) (by decide)
  cases h with
  | @decimal c d _ cs hd hcs =>
    have hdigits : ((c :: cs ++ rest).drop 0).takeWhile (isDigitLike 10) = c :: cs :=
      takeWhile_grouped (.inl (Nat.le_refl 10)) (.plain hd hcs) hrest
    have hfault : digitFault? 10 (decide (0 = 2)) 0 (c :: cs) = none :=
      (digitFault?_eq_none_iff 10 false 0 _).mpr (.separated hd hcs)
    have hbase : numberBase (c :: cs ++ rest) = (10, 0) := numberBase_of_grouped hcs hrest
    rw [← Nat.zero_add (List.length _)] at hpoint
    rw [number_eq hbase hdigits (List.cons_ne_nil c cs) hfault hpoint, Nat.zero_add,
      List.take_left]
  | @marked letter base _ cs hmark hne hcs =>
    have hdigits : (('0' :: letter :: cs ++ rest).drop 2).takeWhile (isDigitLike base) = cs :=
      takeWhile_grouped (Numeral.of_mem_marks hmark).2.2 hcs hrest
    have hfault : digitFault? base (decide (2 = 2)) 2 cs = none :=
      (digitFault?_eq_none_iff base true 2 cs).mpr hcs
    have hbase : numberBase ('0' :: letter :: cs ++ rest) = (base, 2) := numberBase_marked hmark _
    have hlength : 2 + cs.length = ('0' :: letter :: cs).length := by simp; omega
    rw [← hlength] at hpoint
    rw [number_eq hbase hdigits hne hfault hpoint, hlength, List.take_left]

theorem of_verdict_number {cs : List Char} {base mark : Nat} {kind : TokenKind} {data : String}
    (hbase : numberBase cs = (base, mark)) (h : (number cs).verdict = .token kind data) :
    let digits := (cs.drop mark).takeWhile (isDigitLike base)
    kind = .number ∧ digits ≠ [] ∧ digitFault? base (mark = 2) mark digits = none ∧
      data.toList = cs.take mark ++ digits := by
  intro digits
  have hdigits : digits = (cs.drop mark).take digits.length :=
    List.prefix_iff_eq_take.mp (List.takeWhile_prefix _)
  unfold number at h
  simp only [hbase] at h
  split at h
  · cases h
  · next hfault =>
    split at h
    · cases h
    · next hne =>
      split at h
      · cases h
      · obtain ⟨rfl, rfl⟩ := Verdict.token.inj h
        refine ⟨rfl, fun hnil => hne (List.isEmpty_iff.mpr hnil), hfault, ?_⟩
        rw [String.toList_ofList, List.take_add, ← hdigits]

/-- **What is taken as a number is a numeral**, whatever follows it. -/
theorem exists_denotes_of_number {cs : List Char} {kind : TokenKind} {data : String}
    (h : (number cs).verdict = .token kind data) :
    kind = .number ∧ ∃ n, Denotes data.toList n := by
  rcases numberBase_cases cs with ⟨letter, base, rest, rfl, hmark, hbase⟩ | hbase
  · obtain ⟨hkind, hne, hfault, hdata⟩ := of_verdict_number hbase h
    have hgrouped := (digitFault?_eq_none_iff base true 2 _).mp hfault
    rw [hdata]
    exact ⟨hkind, Numeral.exists_denotes_marked hmark hne hgrouped⟩
  · obtain ⟨hkind, _, hfault, hdata⟩ := of_verdict_number hbase h
    have hgrouped := (digitFault?_eq_none_iff 10 false 0 _).mp hfault
    obtain ⟨c, ds, heq, ⟨d, hd⟩, hds⟩ := Numeral.grouped_underscore_iff.mp hgrouped
    rw [hdata, heq]
    exact ⟨hkind, Numeral.exists_denotes_decimal hd hds⟩

theorem scan_of_isDecimal {c : Char} (hc : isDecimal c = true) (cs : List Char) :
    scan c cs = number (c :: cs) := by
  obtain ⟨hblank, hstart, _, _⟩ := of_isDecimal hc
  rw [scan, if_neg (by simp [hblank]), if_neg (by simp [hstart]), if_pos hc]

end Lexeme

theorem Numeral.Denotes.exists_digit {cs : List Char} {n : Nat} (h : Denotes cs n) :
    ∃ c rest, cs = c :: rest ∧ isDecimal c = true := by
  cases h with
  | decimal hd => exact ⟨_, _, rfl, isDecimal_of_isDigit (Nat.le_refl 10) hd⟩
  | marked => exact ⟨_, _, rfl, by decide⟩

theorem Word.legible_number {s : String} {n : Nat} (h : Numeral.Denotes s.toList n) :
    Legible ⟨.number, s⟩ := by
  intro rest hrest
  obtain ⟨c, cs, hs, hc⟩ := h.exists_digit
  refine ⟨rfl, c, cs, hs, ?_⟩
  have hnumber := Lexeme.number_of_denotes h hrest
  rw [String.ofList_toList, hs] at hnumber
  rw [Lexeme.scan_of_isDecimal hc]
  exact hnumber.trans (congrArg (fun l => Lexeme.mk (List.length l) _) hs.symm)

/-! ## What the parser reads -/

namespace Numeral

theorem grouped?_digit {base d : Nat} {c : Char} (h : IsDigit base c d) (acc : Nat)
    (cs : List Char) : grouped? base acc (c :: cs) = grouped? base (acc * base + d) cs := by
  have hne := ne_underscore_of_isDigit h
  rw [grouped?.eq_def]
  split
  · next heq => cases heq
  · next heq => exact absurd (List.cons.inj heq).1 hne
  · next heq =>
    obtain ⟨rfl, rfl⟩ := List.cons.inj heq
    rw [digitIn?_eq_some_iff.mpr h]

theorem grouped?_separated {base d : Nat} {c : Char} (h : IsDigit base c d) (acc : Nat)
    (cs : List Char) : grouped? base acc ('_' :: c :: cs) = grouped? base (acc * base + d) cs := by
  rw [grouped?, digitIn?_eq_some_iff.mpr h]

theorem grouped?_eq {base : Nat} {cs : List Char} {ds : List Nat} (h : Grouped base cs)
    (hds : List.Forall₂ (IsDigit base) (cs.filter (· != '_')) ds) (acc : Nat) :
    grouped? base acc cs = some (ds.foldl (fun n d => n * base + d) acc) := by
  induction h generalizing ds acc with
  | nil =>
    obtain rfl := List.forall₂_nil_left_iff.mp hds
    rfl
  | plain hd _ ih =>
    rw [List.filter_cons_of_pos (by simpa using ne_underscore_of_isDigit hd)] at hds
    cases hds with
    | cons hd' hds => rw [grouped?_digit hd', ih hds, List.foldl_cons]
  | separated hd _ ih =>
    rw [List.filter_cons_of_neg (by simp),
      List.filter_cons_of_pos (by simpa using ne_underscore_of_isDigit hd)] at hds
    cases hds with
    | cons hd' hds => rw [grouped?_separated hd', ih hds, List.foldl_cons]

theorem signed?_of_writes {cs : List Char} {n : Nat} (hne : cs ≠ []) (h : Writes 10 cs n) :
    signed? cs = some (n : Int) := by
  have hread : fixedDigits? 10 cs.length 0 cs = some n :=
    fixedDigits?_zero_eq_some_iff.mpr ⟨cs, [], by simp, rfl, h⟩
  have hdecimal : decimal? cs = some n := by rw [decimal?, if_neg (by simpa using hne), hread]
  obtain ⟨ds, hds, _⟩ := h
  unfold signed?
  split
  · cases hds with
    | cons hd => exact absurd (isDecimal_of_isDigit (Nat.le_refl 10) hd) (by decide)
  · cases hds with
    | cons hd => exact absurd (isDecimal_of_isDigit (Nat.le_refl 10) hd) (by decide)
  · rw [hdecimal]
    rfl

/-- **A numeral is read as the number that it denotes.** -/
theorem integer?_of_denotes {cs : List Char} {n : Nat} (h : Denotes cs n) :
    integer? cs = some (n : Int) := by
  cases h with
  | @decimal c d _ cs hd hcs hn =>
    have hsigned := signed?_of_writes (by simp [ne_underscore_of_isDigit hd]) hn
    unfold integer?
    split
    · next letter rest heq =>
      obtain ⟨rfl, rfl⟩ := List.cons.inj heq
      split
      · next base hbase => exact absurd (base?_eq_some_iff.mp hbase) hcs.not_mark
      · exact hsigned
    · exact hsigned
  | @marked letter base _ cs hmark hne hcs hn =>
    obtain ⟨ds, hds, rfl⟩ := hn
    rw [integer?, base?_eq_some_iff.mpr hmark]
    simp only [List.isEmpty_eq_false_iff.mpr hne, Bool.false_eq_true, if_false]
    rw [grouped?_eq hcs hds, ofDigits_reverse_eq_foldl]
    rfl

theorem toInt_ofInt_of_lt {n : Nat} (h : n < 2 ^ 63) : (Int64.ofInt n).toInt = n :=
  Int64.toInt_ofInt_of_le (by omega) (by omega)

/-- **A numeral is a literal of the program if the number that it denotes is below 2⁶³.** -/
theorem value?_of_denotes {s : String} {n : Nat} (h : Denotes s.toList n) :
    value? s = if n < 2 ^ 63 then some (Int64.ofInt n) else none := by
  have hmin : Int64.minValue.toInt = -2 ^ 63 := rfl
  have hmax : Int64.maxValue.toInt = 2 ^ 63 - 1 := rfl
  rw [value?, integer?_of_denotes h, hmin, hmax]
  by_cases hn : n < 2 ^ 63
  · have hrange : (decide (-2 ^ 63 ≤ (n : Int)) && decide ((n : Int) ≤ 2 ^ 63 - 1)) = true := by
      rw [Bool.and_eq_true, decide_eq_true_eq, decide_eq_true_eq]
      omega
    simp only [hrange, if_true, if_pos hn]
  · have hrange : (decide (-2 ^ 63 ≤ (n : Int)) && decide ((n : Int) ≤ 2 ^ 63 - 1)) = false := by
      rw [Bool.and_eq_false_iff, decide_eq_false_iff_not, decide_eq_false_iff_not]
      omega
    simp only [hrange, Bool.false_eq_true, if_false, if_neg hn]

theorem nonneg_of_value? {s : String} {n : Nat} {v : Int64} (h : Denotes s.toList n)
    (hv : value? s = some v) : 0 ≤ v.toInt := by
  rw [value?_of_denotes h] at hv
  split at hv
  · next hn =>
    obtain rfl := Option.some.inj hv
    rw [toInt_ofInt_of_lt hn]
    exact Int.natCast_nonneg n
  · cases hv

/-! ## Numbers that are shown -/

theorem isDecimal_of_mem_toList_repr {n : Nat} {c : Char} (h : c ∈ n.repr.toList) :
    isDecimal c = true := by
  rw [Nat.toList_repr] at h
  exact Nat.isDigit_of_mem_toDigits (by decide) (by decide) h

theorem of_mem_toList_toString {n : Int} {c : Char} (h : c ∈ (toString n).toList) :
    c = '-' ∨ isDecimal c = true := by
  cases n with
  | ofNat k => exact .inr (isDecimal_of_mem_toList_repr h)
  | negSucc k =>
    rcases List.mem_append.mp (String.toList_append ▸ h :
      c ∈ "-".toList ++ (k + 1).repr.toList) with hsign | hdigit
    · exact .inl (List.mem_singleton.mp hsign)
    · exact .inr (isDecimal_of_mem_toList_repr hdigit)

theorem isDigit_of_isDecimal {c : Char} (h : isDecimal c = true) : IsDigit 10 c (c.toNat - 48) :=
  digitIn?_eq_some_iff.mp (of_isDecimal h).2.2.2

theorem grouped_of_isDecimal {cs : List Char} (h : ∀ c ∈ cs, isDecimal c = true) :
    Grouped 10 cs := by
  induction cs with
  | nil => exact .nil
  | cons c cs ih =>
    exact .plain (isDigit_of_isDecimal (h c List.mem_cons_self))
      (ih fun d hd => h d (List.mem_cons_of_mem c hd))

theorem writes_of_isDecimal {cs : List Char} (h : ∀ c ∈ cs, isDecimal c = true) :
    Writes 10 cs (Nat.ofDigitChars 10 cs 0) := by
  refine ⟨cs.map (·.toNat - 48), ?_, ?_⟩
  · rw [List.forall₂_map_right_iff, List.forall₂_same]
    exact fun c hc => isDigit_of_isDecimal (h c hc)
  · rw [ofDigits_reverse_eq_foldl, List.foldl_map, Nat.ofDigitChars]
    congr 1
    funext n c
    rw [Nat.mul_comm]
    rfl

/-- **A number is shown by a numeral for itself.** -/
theorem denotes_repr (n : Nat) : Denotes n.repr.toList n := by
  have hdecimal : ∀ c ∈ n.repr.toList, isDecimal c = true := fun _ => isDecimal_of_mem_toList_repr
  have hfilter : n.repr.toList.filter (· != '_') = n.repr.toList :=
    List.filter_eq_self.mpr fun c hc => by simpa using (of_isDecimal (hdecimal c hc)).2.2.1
  have hwrites : Writes 10 n.repr.toList n := by
    have h := writes_of_isDecimal hdecimal
    rwa [Nat.toList_repr, Nat.ofDigitChars_ten_toDigits, ← Nat.toList_repr] at h
  obtain ⟨c, cs, hcs⟩ := List.exists_cons_of_ne_nil (show n.repr.toList ≠ [] by simp)
  rw [← hfilter] at hwrites
  rw [hcs] at hdecimal hwrites ⊢
  exact .decimal (isDigit_of_isDecimal (hdecimal c List.mem_cons_self))
    (grouped_of_isDecimal fun d hd => hdecimal d (List.mem_cons_of_mem c hd)) hwrites

theorem repr_injective {m n : Nat} (h : m.repr = n.repr) : m = n := by
  have hm := integer?_of_denotes (denotes_repr m)
  rw [h, integer?_of_denotes (denotes_repr n)] at hm
  exact (Int.ofNat.inj (Option.some.inj hm)).symm

theorem toString_injective {m n : Int} (h : toString m = toString n) : m = n := by
  have hsign (k k' : Nat) : k.repr ≠ "-" ++ (k' + 1).repr := by
    intro heq
    have hmem : '-' ∈ k.repr.toList := by simp [heq]
    exact absurd (isDecimal_of_mem_toList_repr hmem) (by decide)
  cases m with
  | ofNat k =>
    cases n with
    | ofNat k' => exact congrArg Int.ofNat (repr_injective h)
    | negSucc k' => exact absurd h (hsign k k')
  | negSucc k =>
    cases n with
    | ofNat k' => exact absurd h.symm (hsign k' k)
    | negSucc k' =>
      exact congrArg Int.negSucc (Nat.succ.inj (repr_injective ((String.append_right_inj _).mp h)))

theorem value?_toString {n : Int64} (h : 0 ≤ n.toInt) : value? (toString n.toInt) = some n := by
  obtain ⟨k, hk⟩ := Int.eq_ofNat_of_zero_le h
  have hlt : k < 2 ^ 63 := by
    have hrange := n.toInt_lt
    omega
  have hshown : value? k.repr = some (Int64.ofInt k) := by
    rw [value?_of_denotes (denotes_repr k), if_pos hlt]
  rw [← hk, Int64.ofInt_toInt] at hshown
  rw [hk]
  exact hshown

end Numeral

end TypedLambda
