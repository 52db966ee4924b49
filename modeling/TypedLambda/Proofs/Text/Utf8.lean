import TypedLambda.Text.Utf8

/-!
# Decoding and encoding

Each sequence that decoding accepts is the encoding of the character it reads there, and no other
(`two?_eq_some_iff` and its like). So decoding gives back every text that was encoded
(`chars_encode`), and no byte is lost: the pieces of a byte string, each written as its own bytes,
are the byte string again (`flatMap_bytes_decode`).
-/

namespace TypedLambda.Text.Utf8

open String (utf8EncodeChar)

/-! ## Code points and bytes -/

theorem toNat_isValidChar (c : Char) : c.toNat.isValidChar := c.valid

theorem toNat_ofNat {n : Nat} (h : n.isValidChar) : (Char.ofNat n).toNat = n := by
  rw [Char.ofNat, dif_pos h]
  rfl

theorem ofNat_eq_iff {n : Nat} {b : UInt8} (h : n < 256) : UInt8.ofNat n = b ↔ b.toNat = n := by
  rw [← UInt8.toNat_inj, UInt8.toNat_ofNat_of_lt' h]
  exact eq_comm

theorem ofNat_eq_char_iff {n : Nat} {c : Char} (h : n.isValidChar) :
    Char.ofNat n = c ↔ c.toNat = n := by
  constructor
  · rintro rfl
    exact toNat_ofNat h
  · rintro rfl
    exact Char.ofNat_toNat c

theorem lt_iff_toNat_lt {b : UInt8} : b < 0x80 ↔ b.toNat < 0x80 := UInt8.lt_iff_toNat_lt

theorem isContinuation_iff {b : UInt8} :
    isContinuation b = true ↔ 0x80 ≤ b.toNat ∧ b.toNat ≤ 0xBF := by
  simp [isContinuation, UInt8.le_iff_toNat_le]

/-! ## The encoding of a character -/

theorem utf8EncodeChar_of_le {c : Char} (h : c.toNat ≤ 0x7F) :
    utf8EncodeChar c = [UInt8.ofNat c.toNat] := by
  rw [utf8EncodeChar]
  exact if_pos h

theorem utf8EncodeChar_eq_two_iff {c : Char} {b₀ b₁ : UInt8} :
    utf8EncodeChar c = [b₀, b₁] ↔
      0x80 ≤ c.toNat ∧ c.toNat ≤ 0x7FF ∧ b₀.toNat = c.toNat / 64 + 0xC0 ∧
        b₁.toNat = c.toNat % 64 + 0x80 := by
  have hval : c.val.toNat = c.toNat := rfl
  unfold utf8EncodeChar
  simp only [hval]
  repeat' split
  all_goals simp only [List.cons.injEq, reduceCtorEq, and_false, false_iff, and_true]
  · omega
  · rw [ofNat_eq_iff (by omega), ofNat_eq_iff (by omega)]
    omega
  · omega
  · omega

theorem utf8EncodeChar_eq_three_iff {c : Char} {b₀ b₁ b₂ : UInt8} :
    utf8EncodeChar c = [b₀, b₁, b₂] ↔
      0x800 ≤ c.toNat ∧ c.toNat ≤ 0xFFFF ∧ b₀.toNat = c.toNat / 4096 + 0xE0 ∧
        b₁.toNat = c.toNat / 64 % 64 + 0x80 ∧ b₂.toNat = c.toNat % 64 + 0x80 := by
  have hval : c.val.toNat = c.toNat := rfl
  unfold utf8EncodeChar
  simp only [hval]
  repeat' split
  all_goals simp only [List.cons.injEq, reduceCtorEq, and_false, false_iff, and_true]
  · omega
  · omega
  · rw [ofNat_eq_iff (by omega), ofNat_eq_iff (by omega), ofNat_eq_iff (by omega)]
    omega
  · omega

theorem utf8EncodeChar_eq_four_iff {c : Char} {b₀ b₁ b₂ b₃ : UInt8} :
    utf8EncodeChar c = [b₀, b₁, b₂, b₃] ↔
      0x10000 ≤ c.toNat ∧ b₀.toNat = c.toNat / 262144 + 0xF0 ∧
        b₁.toNat = c.toNat / 4096 % 64 + 0x80 ∧ b₂.toNat = c.toNat / 64 % 64 + 0x80 ∧
        b₃.toNat = c.toNat % 64 + 0x80 := by
  have hval : c.val.toNat = c.toNat := rfl
  have hvalid := toNat_isValidChar c
  unfold utf8EncodeChar
  simp only [hval]
  repeat' split
  all_goals simp only [List.cons.injEq, reduceCtorEq, and_false, false_iff, and_true]
  · omega
  · omega
  · omega
  · rw [ofNat_eq_iff (by omega), ofNat_eq_iff (by omega), ofNat_eq_iff (by omega),
      ofNat_eq_iff (by omega)]
    omega

theorem exists_utf8EncodeChar_eq (c : Char) :
    c.toNat ≤ 0x7F ∧ utf8EncodeChar c = [UInt8.ofNat c.toNat] ∨
      (∃ b₀ b₁, utf8EncodeChar c = [b₀, b₁]) ∨ (∃ b₀ b₁ b₂, utf8EncodeChar c = [b₀, b₁, b₂]) ∨
        ∃ b₀ b₁ b₂ b₃, utf8EncodeChar c = [b₀, b₁, b₂, b₃] := by
  have hval : c.val.toNat = c.toNat := rfl
  unfold utf8EncodeChar
  simp only [hval]
  repeat' split
  · exact .inl ⟨‹_›, rfl⟩
  · exact .inr (.inl ⟨_, _, rfl⟩)
  · exact .inr (.inr (.inl ⟨_, _, _, rfl⟩))
  · exact .inr (.inr (.inr ⟨_, _, _, _, rfl⟩))

/-! ## What decoding accepts -/

theorem two?_eq_some_iff {b₀ b₁ : UInt8} {c : Char} :
    two? b₀ b₁ = some c ↔ utf8EncodeChar c = [b₀, b₁] := by
  rw [utf8EncodeChar_eq_two_iff]
  unfold two? payload
  simp only [Option.ite_none_right_eq_some, Bool.and_eq_true, decide_eq_true_eq,
    UInt8.le_iff_toNat_le, isContinuation_iff, Option.some_inj, UInt8.toNat_ofNat, Nat.reducePow,
    Nat.reduceMod]
  constructor
  · rintro ⟨⟨⟨h₁, h₂⟩, h₃, h₄⟩, h⟩
    rw [ofNat_eq_char_iff (.inl (by omega))] at h
    omega
  · rintro ⟨h₁, h₂, h₃, h₄⟩
    refine ⟨by omega, ?_⟩
    rw [ofNat_eq_char_iff (.inl (by omega))]
    omega

theorem three?_eq_some_iff {b₀ b₁ b₂ : UInt8} {c : Char} :
    three? b₀ b₁ b₂ = some c ↔ utf8EncodeChar c = [b₀, b₁, b₂] := by
  have hvalid := toNat_isValidChar c
  rw [utf8EncodeChar_eq_three_iff]
  unfold three? payload
  simp only [Option.ite_none_right_eq_some, Bool.and_eq_true, Bool.not_eq_true',
    Bool.and_eq_false_iff, decide_eq_true_eq, decide_eq_false_iff_not,
    UInt8.le_iff_toNat_le, isContinuation_iff, Option.some_inj, UInt8.toNat_ofNat, Nat.reducePow,
    Nat.reduceMod]
  constructor
  · rintro ⟨h₁, h⟩
    rw [ofNat_eq_char_iff (by omega)] at h
    omega
  · rintro ⟨h₁, h₂, h₃, h₄, h₅⟩
    refine ⟨by omega, ?_⟩
    rw [ofNat_eq_char_iff (by omega)]
    omega

theorem four?_eq_some_iff {b₀ b₁ b₂ b₃ : UInt8} {c : Char} :
    four? b₀ b₁ b₂ b₃ = some c ↔ utf8EncodeChar c = [b₀, b₁, b₂, b₃] := by
  have hvalid := toNat_isValidChar c
  rw [utf8EncodeChar_eq_four_iff]
  unfold four? payload
  simp only [Option.ite_none_right_eq_some, Bool.and_eq_true, decide_eq_true_eq,
    UInt8.le_iff_toNat_le, isContinuation_iff, Option.some_inj, UInt8.toNat_ofNat, Nat.reducePow,
    Nat.reduceMod]
  constructor
  · rintro ⟨h₁, h⟩
    rw [ofNat_eq_char_iff (by omega)] at h
    omega
  · rintro ⟨h₁, h₂, h₃, h₄, h₅⟩
    refine ⟨by omega, ?_⟩
    rw [ofNat_eq_char_iff (by omega)]
    omega

theorem two?_eq_none {b₀ : UInt8} (b₁ : UInt8) (h : 0xE0 ≤ b₀.toNat) : two? b₀ b₁ = none := by
  refine Option.eq_none_iff_forall_ne_some.mpr fun c hc => ?_
  have := utf8EncodeChar_eq_two_iff.mp (two?_eq_some_iff.mp hc)
  omega

theorem three?_eq_none {b₀ : UInt8} (b₁ b₂ : UInt8) (h : 0xF0 ≤ b₀.toNat) :
    three? b₀ b₁ b₂ = none := by
  refine Option.eq_none_iff_forall_ne_some.mpr fun c hc => ?_
  have := utf8EncodeChar_eq_three_iff.mp (three?_eq_some_iff.mp hc)
  omega

theorem front?_of_utf8EncodeChar {c : Char} {b : UInt8} {more : List UInt8}
    (h : utf8EncodeChar c = b :: more) (bs : List UInt8) :
    front? b (more ++ bs) = some (c, more.length) := by
  rcases exists_utf8EncodeChar_eq c with
    ⟨hle, hone⟩ | ⟨b₀, b₁, htwo⟩ | ⟨b₀, b₁, b₂, hthree⟩ | ⟨b₀, b₁, b₂, b₃, hfour⟩
  · obtain ⟨rfl, rfl⟩ := List.cons.inj (hone.symm.trans h)
    have hb : (UInt8.ofNat c.toNat).toNat = c.toNat := (ofNat_eq_iff (by omega)).mp rfl
    have hlt : UInt8.ofNat c.toNat < 0x80 := lt_iff_toNat_lt.mpr (by omega)
    rw [front?.eq_def, if_pos hlt, hb, Char.ofNat_toNat]
    rfl
  · obtain ⟨rfl, rfl⟩ := List.cons.inj (htwo.symm.trans h)
    have hnum := utf8EncodeChar_eq_two_iff.mp htwo
    have hlt : ¬b₀ < 0x80 := mt lt_iff_toNat_lt.mp (by omega)
    have hread := two?_eq_some_iff.mpr htwo
    rcases bs with _ | ⟨d, _ | ⟨e, bs⟩⟩ <;> simp [front?, hlt, hread]
  · obtain ⟨rfl, rfl⟩ := List.cons.inj (hthree.symm.trans h)
    have hnum := utf8EncodeChar_eq_three_iff.mp hthree
    have hlt : ¬b₀ < 0x80 := mt lt_iff_toNat_lt.mp (by omega)
    have hread := three?_eq_some_iff.mpr hthree
    have htwo : two? b₀ b₁ = none := two?_eq_none b₁ (by omega)
    rcases bs with _ | ⟨d, bs⟩ <;> simp [front?, hlt, htwo, hread]
  · obtain ⟨rfl, rfl⟩ := List.cons.inj (hfour.symm.trans h)
    have hnum := utf8EncodeChar_eq_four_iff.mp hfour
    have hlt : ¬b₀ < 0x80 := mt lt_iff_toNat_lt.mp (by omega)
    have hread := four?_eq_some_iff.mpr hfour
    have htwo : two? b₀ b₁ = none := two?_eq_none b₁ (by omega)
    have hthree : three? b₀ b₁ b₂ = none := three?_eq_none b₁ b₂ (by omega)
    simp [front?, hlt, htwo, hthree, hread]

theorem utf8EncodeChar_of_front? {b : UInt8} {bs : List UInt8} {c : Char} {n : Nat}
    (h : front? b bs = some (c, n)) : utf8EncodeChar c = b :: bs.take n := by
  unfold front? at h
  split at h
  · next hlt =>
    have hb : b.toNat < 0x80 := lt_iff_toNat_lt.mp hlt
    obtain ⟨rfl, rfl⟩ := Prod.mk.inj (Option.some.inj h)
    have hnat : (Char.ofNat b.toNat).toNat = b.toNat := toNat_ofNat (.inl (by omega))
    rw [utf8EncodeChar_of_le (by omega), hnat, UInt8.ofNat_toNat]
    rfl
  · split at h <;> simp only [Option.or_eq_some_iff, Option.map_eq_some_iff, Prod.mk.injEq,
      reduceCtorEq] at h
    · obtain ⟨_, hread, rfl, rfl⟩ := h
      exact two?_eq_some_iff.mp hread
    · rcases h with ⟨_, hread, rfl, rfl⟩ | ⟨_, _, hread, rfl, rfl⟩
      · exact two?_eq_some_iff.mp hread
      · exact three?_eq_some_iff.mp hread
    · rcases h with ⟨_, hread, rfl, rfl⟩ | ⟨_, ⟨_, hread, rfl, rfl⟩ | ⟨_, _, hread, rfl, rfl⟩⟩
      · exact two?_eq_some_iff.mp hread
      · exact three?_eq_some_iff.mp hread
      · exact four?_eq_some_iff.mp hread

/-! ## Whole texts -/

theorem decode_utf8EncodeChar_append (c : Char) (bs : List UInt8) :
    decode (utf8EncodeChar c ++ bs) = .char c :: decode bs := by
  obtain ⟨b, more, h⟩ : ∃ b more, utf8EncodeChar c = b :: more :=
    List.exists_cons_of_ne_nil String.utf8EncodeChar_ne_nil
  rw [h, List.cons_append, decode, front?_of_utf8EncodeChar h bs]
  simp

/-- **A text that was encoded is read back.** -/
theorem chars_encode (cs : List Char) : chars (encode cs) = cs := by
  have hdecode : decode (encode cs) = cs.map .char := by
    induction cs with
    | nil => rw [encode, List.flatMap_nil, decode, List.map_nil]
    | cons c cs ih =>
      rw [encode, List.flatMap_cons, decode_utf8EncodeChar_append, List.map_cons]
      exact congrArg _ ih
  rw [chars, hdecode, List.map_map]
  exact List.map_id cs

/-- The bytes that a piece was read from. -/
def Piece.bytes : Piece → List UInt8
  | .char c => utf8EncodeChar c
  | .stray b => [b]

/-- **No byte is lost in decoding.** -/
theorem flatMap_bytes_decode (bs : List UInt8) : (decode bs).flatMap Piece.bytes = bs := by
  fun_induction decode bs with
  | case1 => rfl
  | case2 b bs c n h ih =>
    rw [List.flatMap_cons, ih, Piece.bytes, utf8EncodeChar_of_front? h, List.cons_append,
      List.take_append_drop]
  | case3 b bs _ ih => rw [List.flatMap_cons, ih, Piece.bytes, List.singleton_append]

end TypedLambda.Text.Utf8
