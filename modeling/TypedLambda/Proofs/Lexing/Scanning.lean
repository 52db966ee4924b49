import TypedLambda.Proofs.Lexing.Cursor
import TypedLambda.Token.Cursor.Tokens

/-!
# What a cursor takes

Each function that takes a token moves the cursor over the characters of the lexeme that stands at
the front of the text, and makes the token of that lexeme (`Cursor.Takes`). The functions are loops
over the characters; each loop lemma follows the turns of the loop, with the characters that are
left in the text. The main fact is `Cursor.scan_takes`.
-/

namespace TypedLambda.Cursor

open Lexeme (digitFault?)
open Text (isDigitLike)

variable {s : List Char} {f : Handle} {b k : Nat} {ch : Char} {cs : List Char}

/-- The cursor goes over a lexeme at the offset `b` of the text and gives its token. -/
def Takes (s : List Char) (f : Handle) (b : Nat) (l : Lexeme)
    (result : Except Fault (Token × Cursor)) : Prop :=
  result = .ok (l.toToken (Pos.within s b) (s.drop b), standing s f b (b + l.length))

theorem ch_standing (s : List Char) (f : Handle) (b k : Nat) :
    (standing s f b k).ch = (s.drop k).head? :=
  (List.head?_drop).symm

theorem lt_length_of_drop (h : s.drop k = ch :: cs) : k < s.length := by
  refine Nat.lt_of_not_le fun hle => ?_
  rw [List.drop_of_length_le hle] at h
  cases h

theorem add_length_of_drop (h : s.drop k = ch :: cs) : k + (ch :: cs).length = s.length := by
  rw [← h, List.length_drop]
  exact Nat.add_sub_cancel' (Nat.le_of_lt (lt_length_of_drop h))

theorem drop_succ_of_drop (h : s.drop k = ch :: cs) : s.drop (k + 1) = cs := by
  rw [← List.drop_drop, h]
  rfl

theorem exists_of_takeWhile_cons {p : Char → Bool} {xs : List Char}
    (h : xs.takeWhile p = ch :: cs) :
    ∃ rest, xs = ch :: rest ∧ p ch = true ∧ rest.takeWhile p = cs := by
  cases xs with
  | nil => cases h
  | cons x rest =>
    by_cases hx : p x = true
    · rw [List.takeWhile_cons_of_pos hx] at h
      cases h
      exact ⟨rest, rfl, hx, rfl⟩
    · rw [List.takeWhile_cons_of_neg hx] at h
      cases h

theorem spanOf_eq_of_le {c : Cursor} {first last : Int} (h : last ≤ first) :
    c.spanOf first last = c.spanOf first first := by
  unfold spanOf
  simp [h]

/-- The span of the characters before the current one, from an index on. At the end of the file
there may be none of them. -/
theorem spanOf_before {i n : Nat} (hs : b + i + n ≤ s.length) :
    (standing s f b (b + i + n)).spanOf (b + i : Nat) ((standing s f b (b + i + n)).pos - 1) =
      .ok ⟨Pos.within s (b + i), Pos.within s (b + i + (n - 1))⟩ := by
  cases n with
  | zero =>
    have hle : ((b + i : Nat) : Int) - 1 ≤ (b + i : Nat) := Int.sub_le_self _ (by decide)
    exact (spanOf_eq_of_le hle).trans (spanOf_standing (Nat.le_refl _) (Nat.le_refl _) hs)
  | succ n =>
    have hlast : (standing s f b (b + i + (n + 1))).pos - 1 = (b + i + n : Nat) := by
      show ((b + i + (n + 1) : Nat) : Int) - 1 = _
      omega
    rw [hlast]
    exact spanOf_standing (Nat.le_add_right _ _) (by omega) hs

theorem spanOf_taken {m : Nat} (hs : b + m ≤ s.length) :
    (standing s f b (b + m)).spanOf b ((standing s f b (b + m)).pos - 1) =
      .ok ⟨Pos.within s b, Pos.within s (b + (m - 1))⟩ :=
  spanOf_before (i := 0) hs

theorem taken_of_add {m : Nat} (hs : b + m ≤ s.length) :
    (standing s f b (b + m)).taken = .ok (String.ofList ((s.drop b).take m)) := by
  rw [taken_standing (Nat.le_add_right _ _) hs, Nat.add_sub_cancel_left]

theorem takes_token {kind : TokenKind} {data : String} {m : Nat} (hs : b + m ≤ s.length) :
    Takes s f b ⟨m, .token kind data⟩
      (.ok (⟨kind, ⟨Pos.within s b, Pos.within s (b + (m - 1))⟩, data, []⟩,
        standing s f b (b + m))) := by
  rw [Takes, Lexeme.toToken_token hs]

/-! ## Runs of characters -/

theorem skipWhile_eq (p : Char → Bool) (c : Cursor) :
    c.skipWhile p = if c.ch.any p then c.next >>= skipWhile p else .ok c := by
  rw [skipWhile]
  split
  · cases c.next <;> rfl
  · rfl

theorem skipWhile_standing (p : Char → Bool) (hb : b ≤ k) (hk : k ≤ s.length) :
    (standing s f b k).skipWhile p =
      .ok (standing s f b (k + ((s.drop k).takeWhile p).length)) := by
  induction hcs : s.drop k generalizing k with
  | nil =>
    rw [skipWhile_eq, ch_standing, hcs]
    rfl
  | cons ch cs ih =>
    have hlt := lt_length_of_drop hcs
    rw [skipWhile_eq, ch_standing, hcs]
    by_cases hp : p ch = true
    · rw [if_pos (by simpa using hp), next_standing hb hlt, ok_bind,
        ih (Nat.le_succ_of_le hb) hlt (drop_succ_of_drop hcs), List.takeWhile_cons_of_pos hp,
        List.length_cons, Nat.succ_add_eq_add_succ]
    · rw [if_neg (by simpa using hp), List.takeWhile_cons_of_neg hp]
      rfl

section

variable (p : Char → Bool) (hcs : s.drop b = ch :: cs)

include hcs

theorem run_le : b + (Lexeme.run p (ch :: cs)).length ≤ s.length := by
  have hle : (Lexeme.run p (ch :: cs)).length ≤ (ch :: cs).length :=
    (Lexeme.run_isPrefix p ch cs).length_le
  have htext := add_length_of_drop hcs
  omega

theorem take_run : (s.drop b).take (Lexeme.run p (ch :: cs)).length = Lexeme.run p (ch :: cs) := by
  rw [hcs]
  exact (List.prefix_iff_eq_take.mp (Lexeme.run_isPrefix p ch cs)).symm

theorem spanOf_run :
    (standing s f b (b + (Lexeme.run p (ch :: cs)).length)).spanOf b
        ((standing s f b (b + (Lexeme.run p (ch :: cs)).length)).pos - 1) =
      .ok ⟨Pos.within s b, Pos.within s (b + ((Lexeme.run p (ch :: cs)).length - 1))⟩ :=
  spanOf_taken (run_le p hcs)

theorem taken_run :
    (standing s f b (b + (Lexeme.run p (ch :: cs)).length)).taken =
      .ok (String.ofList (Lexeme.run p (ch :: cs))) := by
  rw [taken_of_add (run_le p hcs), take_run p hcs]

end

theorem trivia_takes {kind : TokenKind} {p : Char → Bool} (hcs : s.drop b = ch :: cs)
    (hch : p ch = true) :
    Takes s f b
      ⟨(Lexeme.run p (ch :: cs)).length, .token kind (String.ofList (Lexeme.run p (ch :: cs)))⟩
      ((standing s f b b).trivia kind p) := by
  have hb : b ≤ s.length := Nat.le_of_lt (lt_length_of_drop hcs)
  have hrun : (s.drop b).takeWhile p = Lexeme.run p (ch :: cs) := by
    rw [hcs, List.takeWhile_cons_of_pos hch]
    rfl
  unfold trivia
  rw [skipWhile_standing p (Nat.le_refl b) hb, hrun, ok_bind]
  show Takes s f b _ (spanOf _ (b : Int) _ >>= _)
  rw [spanOf_run p hcs, ok_bind, taken_run p hcs]
  exact takes_token (run_le p hcs)

theorem word_takes (hcs : s.drop b = ch :: cs) :
    Takes s f b (Lexeme.word (ch :: cs)) (standing s f b b).word := by
  have hb : b < s.length := lt_length_of_drop hcs
  have hstop : b + 1 + (cs.takeWhile Text.isIdentContinue).length =
      b + (Lexeme.run Text.isIdentContinue (ch :: cs)).length := by
    rw [Nat.add_right_comm]
    rfl
  unfold word
  rw [next_standing (Nat.le_refl b) hb, ok_bind, skipWhile_standing _ (Nat.le_succ b) hb,
    drop_succ_of_drop hcs, ok_bind, hstop, taken_run _ hcs, ok_bind]
  show Takes s f b _ (spanOf _ (b : Int) _ >>= _)
  rw [spanOf_run _ hcs, ok_bind]
  exact takes_token (run_le _ hcs)

/-! ## Faults -/

/-- The token of a fault among the characters from the beginning of the buffer on. -/
def faultToken (s : List Char) (b : Nat) (v : Verdict) : Token :=
  Lexeme.toToken (Pos.within s b) (s.drop b) ⟨0, v⟩

theorem faultToken_eq {skip width : Nat} {why : LexicalFault}
    (hs : b + skip + width ≤ s.length) :
    faultToken s b (.fault skip width why) =
      ⟨.illegal, ⟨Pos.within s (b + skip), Pos.within s (b + skip + (width - 1))⟩, why.message,
        []⟩ :=
  Lexeme.toToken_fault hs

theorem illegal_char {i : Nat} (hi : b + i ≤ k) (hk : k ≤ s.length) (hs : b + i < s.length)
    (why : LexicalFault) :
    (standing s f b k).illegal (b + i : Nat) (b + i : Nat) why =
      .ok (faultToken s b (.fault i 1 why)) := by
  unfold illegal
  rw [spanOf_standing (Nat.le_refl _) hi hk, faultToken_eq hs]
  rfl

theorem illegal_before {i n : Nat} (hs : b + i + n ≤ s.length) (why : LexicalFault) :
    (standing s f b (b + i + n)).illegal (b + i : Nat) ((standing s f b (b + i + n)).pos - 1) why =
      .ok (faultToken s b (.fault i n why)) := by
  unfold illegal
  rw [spanOf_before hs, faultToken_eq hs]
  rfl

theorem takes_whole_fault {m : Nat} {why : LexicalFault} (hs : b + m ≤ s.length) :
    Takes s f b ⟨m, .fault 0 m why⟩
      ((standing s f b (b + m)).illegal b ((standing s f b (b + m)).pos - 1) why >>= fun t =>
        pure (t, standing s f b (b + m))) :=
  congrArg (· >>= _) (illegal_before (i := 0) hs why)

/-! ## Numbers -/

theorem faultAt_standing {i : Nat} (hi : b + i ≤ k) (hk : k ≤ s.length) (hs : b + i < s.length)
    (why : LexicalFault) (fault : Option Token) :
    (standing s f b k).faultAt (b + i : Nat) why fault =
      .ok (fault.or (some (faultToken s b (.fault i 1 why)))) := by
  cases fault with
  | some t => rfl
  | none => exact congrArg (· >>= _) (illegal_char hi hk hs why)

section

variable {c : Cursor} {base : Nat} {seen : Digits}

theorem digits_cons (hch : c.ch = some ch) (hlike : isDigitLike base ch = true) :
    c.digits base seen = c.digit base ch seen >>= fun seen => c.next >>= digits base seen := by
  have hfilter : c.ch.filter (isDigitLike base) = some ch := by simp [hch, hlike]
  rw [digits]
  split
  · next other hother =>
    obtain rfl : ch = other := Option.some.inj (hfilter.symm.trans hother)
    refine congrArg _ (funext fun seen => ?_)
    cases c.next <;> rfl
  · next hnone =>
    rw [hfilter] at hnone
    cases hnone

theorem digits_stop (hch : c.ch.filter (isDigitLike base) = none) :
    c.digits base seen =
      if seen.separable then pure (seen, c)
      else c.faultAt (c.pos - 1) .misplacedUnderscore seen.fault >>= fun fault =>
        pure ({ seen with fault }, c) := by
  rw [digits]
  split
  · next ch hsome =>
    rw [hch] at hsome
    cases hsome
  · rfl

end

/-- The token of the first fault among some digits, of which the first stands at index `i`. -/
def digitFault (s : List Char) (b base : Nat) (separable : Bool) (i : Nat) (ds : List Char) :
    Option Token :=
  (digitFault? base separable i ds).map fun q => faultToken s b (.fault q.1 1 q.2)

theorem digit_standing {i : Nat} (base : Nat) (ch : Char) (seen : Digits)
    (hi : b + i < s.length) :
    ∃ seen₁ : Digits, (standing s f b (b + i)).digit base ch seen = .ok seen₁ ∧
      seen₁.count = seen.count + (if ch != '_' then 1 else 0) ∧
      ∀ ds, seen₁.fault.or (digitFault s b base seen₁.separable (i + 1) ds) =
        seen.fault.or (digitFault s b base seen.separable i (ch :: ds)) := by
  have hfault (why : LexicalFault) :=
    faultAt_standing (f := f) (Nat.le_refl (b + i)) (Nat.le_of_lt hi) hi why seen.fault
  have hund : ('_' == '_') = true := by decide
  unfold digit
  by_cases hunder : ch = '_'
  · subst hunder
    rw [if_pos hund]
    by_cases hsep : seen.separable = true
    · rw [if_pos hsep]
      exact ⟨_, rfl, by simp, by simp [digitFault, digitFault?, hsep]⟩
    · rw [if_neg hsep]
      exact ⟨_, congrArg (· >>= _) (hfault _), by simp, by simp [digitFault, digitFault?, hsep]⟩
  · rw [if_neg (mt beq_iff_eq.mp hunder)]
    by_cases hdigit : (Text.digitIn? base ch).isSome = true
    · rw [if_pos hdigit]
      exact ⟨_, rfl, by simp [hunder], by simp [digitFault, digitFault?, hunder, hdigit]⟩
    · rw [if_neg hdigit]
      exact ⟨_, congrArg (· >>= _) (hfault _), by simp [hunder],
        by simp [digitFault, digitFault?, hunder, hdigit]⟩

theorem digits_stop_standing {base i : Nat} (seen : Digits)
    (hch : (standing s f b (b + i)).ch.filter (isDigitLike base) = none) (hpos : 0 < i)
    (hi : b + i ≤ s.length) :
    ∃ seen₁ : Digits,
      (standing s f b (b + i)).digits base seen = .ok (seen₁, standing s f b (b + i)) ∧
      seen₁.fault = seen.fault.or (digitFault s b base seen.separable i []) ∧
      seen₁.count = seen.count := by
  rw [digits_stop hch]
  by_cases hsep : seen.separable = true
  · rw [if_pos hsep]
    exact ⟨seen, rfl, by simp [digitFault, digitFault?, hsep], rfl⟩
  · have hoffset : (standing s f b (b + i)).pos - 1 = (b + (i - 1) : Nat) := by
      show ((b + i : Nat) : Int) - 1 = _
      omega
    rw [if_neg hsep, hoffset, faultAt_standing (by omega) hi (by omega), ok_bind]
    exact ⟨_, rfl, by simp [digitFault, digitFault?, hsep], rfl⟩

/-- Digits are read up to the first character that is none, and of their faults the first one is
kept. -/
theorem digits_standing {base i : Nat} (seen : Digits) (hi : b + i ≤ s.length) {ds : List Char}
    (hds : (s.drop (b + i)).takeWhile (isDigitLike base) = ds) (hpos : 0 < i ∨ ds ≠ []) :
    ∃ seen₁ : Digits,
      (standing s f b (b + i)).digits base seen =
        .ok (seen₁, standing s f b (b + (i + ds.length))) ∧
      seen₁.fault = seen.fault.or (digitFault s b base seen.separable i ds) ∧
      seen₁.count = seen.count + ds.countP (· != '_') := by
  induction ds generalizing i seen with
  | nil =>
    refine digits_stop_standing seen ?_ (hpos.resolve_right fun hne => hne rfl) hi
    rw [ch_standing, ← List.head?_takeWhile, hds]
    rfl
  | cons ch ds ih =>
    obtain ⟨cs, hcs, hlike, hds⟩ := exists_of_takeWhile_cons hds
    have hlt := lt_length_of_drop hcs
    obtain ⟨seen₁, hdigit, hcount₁, hfault₁⟩ := digit_standing (f := f) base ch seen hlt
    obtain ⟨seen₂, hdigits, hfault₂, hcount₂⟩ :=
      ih (i := i + 1) seen₁ hlt (by rw [← hds]; exact congrArg _ (drop_succ_of_drop hcs))
        (.inl (Nat.succ_pos i))
    refine ⟨seen₂, ?_, ?_, ?_⟩
    · rw [digits_cons (by rw [ch_standing, hcs]; rfl) hlike, hdigit, ok_bind,
        next_standing (Nat.le_add_right _ _) hlt, ok_bind, List.length_cons,
        Nat.add_comm ds.length, ← Nat.add_assoc i]
      exact hdigits
    · rw [hfault₂, hfault₁]
    · rw [List.countP_cons, hcount₂, hcount₁]
      omega

theorem numberBase_zero (cs : List Char) :
    Lexeme.numberBase ('0' :: cs) =
      match cs.head?.bind Numeral.base? with
      | some base => (base, 2)
      | none => (10, 0) := by
  cases cs <;> rfl

theorem numberBase_of_ne (h : ch ≠ '0') : Lexeme.numberBase (ch :: cs) = (10, 0) := by
  unfold Lexeme.numberBase
  split
  · next heq =>
    cases heq
    exact absurd rfl h
  · rfl

/-- The digits of a number are those after the mark of its base. A first zero that begins no mark is
the first of them. -/
theorem numberDigits_standing (hcs : s.drop b = ch :: cs) (hch : Text.isDecimal ch = true)
    {base mark : Nat} (hbase : Lexeme.numberBase (ch :: cs) = (base, mark)) {ds : List Char}
    (hds : ((ch :: cs).drop mark).takeWhile (isDigitLike base) = ds) :
    ∃ seen c₁ seen₁, (standing s f b b).numberBase = .ok (base, seen, c₁) ∧
      c₁.digits base seen = .ok (seen₁, standing s f b (b + (mark + ds.length))) ∧
      seen₁.fault = digitFault s b base (mark = 2) mark ds ∧
      seen₁.count = ds.countP (· != '_') := by
  have hb : b < s.length := lt_length_of_drop hcs
  have hcur : (standing s f b b).ch = some ch := by rw [ch_standing, hcs]; rfl
  have hlike : isDigitLike 10 ch = true := by simp [isDigitLike, hch]
  unfold numberBase
  rw [hcur]
  by_cases hzero : ch = '0'
  · subst hzero
    have hcur₁ : (standing s f b (b + 1)).ch = cs.head? := by
      rw [ch_standing, drop_succ_of_drop hcs]
    rw [if_pos rfl, next_standing (Nat.le_refl b) hb, ok_bind, hcur₁]
    rw [numberBase_zero] at hbase
    cases hmark : cs.head?.bind Numeral.base? with
    | some other =>
      rw [hmark] at hbase
      cases hbase
      obtain ⟨m, hm, _⟩ := Option.bind_eq_some_iff.mp hmark
      obtain ⟨rest, rfl⟩ := List.head?_eq_some_iff.mp hm
      have hlt : b + 1 < s.length := lt_length_of_drop (drop_succ_of_drop hcs)
      have hdrop : (s.drop (b + 2)).takeWhile (isDigitLike base) = ds := by
        rw [← hds, ← List.drop_drop, hcs]
      obtain ⟨seen₁, hdigits, hfault, hcount⟩ :=
        digits_standing (f := f) ⟨0, true, none⟩ hlt hdrop (.inl (by decide))
      refine ⟨_, _, seen₁, ?_, hdigits, hfault, ?_⟩
      · exact congrArg (· >>= _) (next_standing (Nat.le_succ b) hlt)
      · exact hcount.trans (Nat.zero_add _)
    | none =>
      rw [hmark] at hbase
      cases hbase
      rw [List.drop_zero, List.takeWhile_cons_of_pos hlike] at hds
      have hdrop : (s.drop (b + 1)).takeWhile (isDigitLike 10) = cs.takeWhile (isDigitLike 10) := by
        rw [drop_succ_of_drop hcs]
      obtain ⟨seen₁, hdigits, hfault, hcount⟩ :=
        digits_standing (f := f) ⟨1, true, none⟩ hb hdrop (.inl (by decide))
      refine ⟨_, _, seen₁, rfl, ?_, ?_, ?_⟩
      · rw [hdigits, ← hds, Nat.zero_add, List.length_cons, Nat.add_comm _ 1]
      · rw [hfault, ← hds]
        rfl
      · rw [hcount, ← hds, List.countP_cons, Nat.add_comm]
        rfl
  · rw [if_neg (by simpa using hzero)]
    rw [numberBase_of_ne hzero] at hbase
    cases hbase
    have hne : ds ≠ [] := by
      rw [← hds, List.drop_zero, List.takeWhile_cons_of_pos hlike]
      exact List.cons_ne_nil _ _
    obtain ⟨seen₁, hdigits, hfault, hcount⟩ :=
      digits_standing (f := f) (i := 0) ⟨0, false, none⟩ (Nat.le_of_lt hb)
        (by rw [← hds, Nat.add_zero, hcs, List.drop_zero]) (.inr hne)
    exact ⟨_, _, seen₁, rfl, hdigits, hfault, hcount.trans (Nat.zero_add _)⟩

theorem countP_pos_of_digitFault? {base i : Nat} {separable : Bool} {ds : List Char}
    (h : digitFault? base separable i ds = none) (hne : ds ≠ []) : 0 < ds.countP (· != '_') := by
  cases ds with
  | nil => exact absurd rfl hne
  | cons d rest =>
    by_cases hd : d = '_'
    · subst hd
      cases rest with
      | nil => cases separable <;> simp [digitFault?] at h
      | cons e rest =>
        have he : e ≠ '_' := by
          rintro rfl
          cases separable <;> simp [digitFault?] at h
        simp [he]
    · simp [hd]

theorem number_takes (hcs : s.drop b = ch :: cs) (hch : Text.isDecimal ch = true) :
    Takes s f b (Lexeme.number (ch :: cs)) (standing s f b b).number := by
  obtain ⟨base, mark, hbase⟩ : ∃ base mark, Lexeme.numberBase (ch :: cs) = (base, mark) :=
    ⟨_, _, rfl⟩
  obtain ⟨ds, hds⟩ : ∃ ds, ((ch :: cs).drop mark).takeWhile (isDigitLike base) = ds := ⟨_, rfl⟩
  obtain ⟨seen, c₁, seen₁, hnumber, hdigits, hfault, hcount⟩ :=
    numberDigits_standing (f := f) hcs hch hbase hds
  have hlength : mark + ds.length ≤ (ch :: cs).length := by
    have hlength := Lexeme.length_takeWhile_drop_le (isDigitLike base)
      (Lexeme.numberBase_snd_le (ch :: cs))
    rwa [hbase, hds] at hlength
  have htext := add_length_of_drop hcs
  have hle : b + (mark + ds.length) ≤ s.length := by omega
  have hdrop : s.drop (b + (mark + ds.length)) = (ch :: cs).drop (mark + ds.length) := by
    rw [← List.drop_drop, hcs]
  unfold number Lexeme.number
  rw [hnumber, ok_bind]
  show Takes s f b _ (c₁.digits base seen >>= _)
  rw [hdigits, ok_bind]
  simp only [hbase, hds]
  cases hq : digitFault? base (mark = 2) mark ds with
  | some q =>
    rw [digitFault, hq] at hfault
    simp only [hfault, Option.map_some]
    rfl
  | none =>
    rw [digitFault, hq] at hfault
    simp only [hfault, Option.map_none]
    by_cases hempty : ds = []
    · have hzero : seen₁.count = 0 := by
        rw [hcount, hempty]
        rfl
      rw [if_pos hzero, if_pos (List.isEmpty_iff.mpr hempty)]
      exact takes_whole_fault hle
    · have hsome : seen₁.count ≠ 0 := by
        rw [hcount]
        exact Nat.ne_of_gt (countP_pos_of_digitFault? hq hempty)
      rw [if_neg hsome, if_neg (mt List.isEmpty_iff.mp hempty), ch_standing, hdrop]
      by_cases hpoint : ((ch :: cs).drop (mark + ds.length)).head? = some '.'
      · rw [if_pos hpoint, if_pos (beq_iff_eq.mpr hpoint), skipWhile_standing _ (by omega) hle,
          hdrop, ok_bind, Nat.add_assoc b]
        refine takes_whole_fault ?_
        have htotal :=
          Lexeme.length_takeWhile_drop_le (fun ch => ch == '.' || Text.isDecimal ch) hlength
        omega
      · rw [if_neg hpoint, if_neg (mt beq_iff_eq.mp hpoint)]
        show Takes s f b _ (spanOf _ (b : Int) _ >>= _)
        rw [spanOf_taken hle, ok_bind, taken_of_add hle, hcs]
        exact takes_token hle

/-! ## Strings -/

theorem escapeDigits_standing (base limit count acc : Nat) (hb : b ≤ k) (hk : k ≤ s.length) :
    escapeDigits base limit count acc (standing s f b k) =
      .ok ((Lexeme.escapeDigits base limit count acc (s.drop k)).2,
        standing s f b (k + (Lexeme.escapeDigits base limit count acc (s.drop k)).1)) := by
  induction count generalizing acc k with
  | zero =>
    unfold escapeDigits Lexeme.escapeDigits
    rfl
  | succ count ih =>
    unfold escapeDigits
    rw [ch_standing]
    cases hcs : s.drop k with
    | nil => rfl
    | cons ch cs =>
      have hlt := lt_length_of_drop hcs
      simp only [List.head?_cons, Lexeme.escapeDigits]
      rw [next_standing hb hlt, ok_bind]
      cases Text.digitIn? base ch with
      | none => rfl
      | some d =>
        show escapeDigits base limit count (acc * base + d) _ = _
        rw [ih (acc * base + d) (Nat.le_succ_of_le hb) hlt, drop_succ_of_drop hcs,
          Nat.succ_add_eq_add_succ]

theorem not_octal_of_isSimpleEscape (h : Text.isSimpleEscape ch = true) :
    ('0' ≤ ch && ch ≤ '7') = false := by
  simp only [Text.isSimpleEscape, Bool.or_eq_true, beq_iff_eq] at h
  rcases h with (((((((rfl | rfl) | rfl) | rfl) | rfl) | rfl) | rfl) | rfl) | rfl <;> decide

theorem escape_standing (hb : b ≤ k) (hk : k ≤ s.length) :
    (standing s f b k).escape =
      .ok ((Lexeme.escape (s.drop k)).2, standing s f b (k + (Lexeme.escape (s.drop k)).1)) := by
  unfold escape
  rw [ch_standing]
  cases hcs : s.drop k with
  | nil => rfl
  | cons ch cs =>
    have hlt := lt_length_of_drop hcs
    have hdigits (base limit count : Nat) :
        escapeDigits base limit count 0 (standing s f b (k + 1)) =
          .ok ((Lexeme.escapeDigits base limit count 0 cs).2,
            standing s f b (k + ((Lexeme.escapeDigits base limit count 0 cs).1 + 1))) := by
      rw [escapeDigits_standing base limit count 0 (Nat.le_succ_of_le hb) hlt,
        drop_succ_of_drop hcs, Nat.succ_add_eq_add_succ]
    simp only [List.head?_cons, Lexeme.escape]
    by_cases hoctal : ('0' ≤ ch && ch ≤ '7') = true
    · have hsimple : ¬Text.isSimpleEscape ch = true := fun hsimple =>
        absurd hoctal (by rw [not_octal_of_isSimpleEscape hsimple]; decide)
      rw [if_pos hoctal, if_neg hsimple, if_pos hoctal, escapeDigits_standing _ _ _ _ hb hk, hcs]
    · rw [if_neg hoctal, next_standing hb hlt, ok_bind]
      by_cases hsimple : Text.isSimpleEscape ch = true
      · rw [if_pos hsimple, if_pos hsimple]
        rfl
      · rw [if_neg hsimple, if_neg hsimple, if_neg hoctal]
        repeat' split
        all_goals first | exact hdigits .. | rfl

theorem stringFrom_eq (start : Int) (bad : Option Token) (c : Cursor) :
    c.stringFrom start bad =
      if c.ch = none ∨ c.ch = some '\n' then
        c.illegal start (c.pos - 1) .unterminatedString >>= fun t => pure (t, c)
      else c.next >>= fun c₁ =>
        if c.ch = some '\x22' then
          match bad with
          | some t => pure (t, c₁)
          | none => c₁.spanOf start (c₁.pos - 1) >>= fun span => c₁.taken >>= fun text =>
              pure (⟨.string, span, text, []⟩, c₁)
        else if c.ch = some '\\' then
          c₁.escape >>= fun q =>
            q.2.escapeFault c₁.pos bad q.1 >>= fun bad => q.2.stringFrom start bad
        else c₁.stringFrom start bad := by
  rw [stringFrom]
  split
  · rfl
  · cases c.next with
    | error e => rfl
    | ok c₁ =>
      rw [ok_bind]
      refine ite_congr rfl (fun _ => rfl) fun _ => ite_congr rfl (fun _ => ?_) fun _ => rfl
      cases c₁.escape <;> rfl

theorem escapeFault_standing {i n : Nat} (hs : b + i + n ≤ s.length) (bad : Option Verdict)
    (why : Option LexicalFault) :
    (standing s f b (b + i + n)).escapeFault (b + i : Nat) (bad.map (faultToken s b)) why =
      .ok ((bad.or (why.map (.fault i n))).map (faultToken s b)) := by
  cases why with
  | none => simp [escapeFault, pure, Except.pure]
  | some why =>
    cases bad with
    | some v => rfl
    | none => exact congrArg (· >>= _) (illegal_before hs why)

theorem stringFrom_standing {i : Nat} (bad : Option Verdict) {cs : List Char}
    (hcs : s.drop (b + i) = cs) (hle : b + i ≤ s.length)
    (hbad : ∀ v ∈ bad, Lexeme.FaultWithin i v) :
    Takes s f b ⟨(Lexeme.stringFrom i bad cs).1, (Lexeme.stringFrom i bad cs).2.getD
        (.token .string (String.ofList ((s.drop b).take (Lexeme.stringFrom i bad cs).1)))⟩
      ((standing s f b (b + i)).stringFrom b (bad.map (faultToken s b))) := by
  fun_induction Lexeme.stringFrom i bad cs with
  | case1 i bad =>
    rw [stringFrom_eq, ch_standing, hcs, if_pos (.inl rfl)]
    exact takes_whole_fault hle
  | case2 i bad c cs hc =>
    rw [stringFrom_eq, ch_standing, hcs, if_pos (.inr (congrArg some (beq_iff_eq.mp hc)))]
    exact takes_whole_fault hle
  | case3 i bad c cs hnewline hquote =>
    have hlt := lt_length_of_drop hcs
    rw [stringFrom_eq, ch_standing, hcs, List.head?_cons, if_neg (by simpa using hnewline),
      next_standing (Nat.le_add_right b i) hlt, ok_bind, if_pos (by simpa using hquote)]
    cases bad with
    | none =>
      show Takes s f b _ (spanOf _ (b : Int) _ >>= _)
      rw [Nat.add_assoc, spanOf_taken hlt, ok_bind, taken_of_add hlt]
      exact takes_token hlt
    | some v =>
      obtain ⟨skip, width, why, rfl, _⟩ := hbad v rfl
      rfl
  | case4 i bad c cs hnewline hquote hslash n ih =>
    have hlt := lt_length_of_drop hcs
    have hn : b + (i + 1) + n ≤ s.length := by
      have hn : n ≤ cs.length := Lexeme.escape_le cs
      have htext := add_length_of_drop hcs
      rw [List.length_cons] at htext
      omega
    rw [stringFrom_eq, ch_standing, hcs, List.head?_cons, if_neg (by simpa using hnewline),
      next_standing (Nat.le_add_right b i) hlt, ok_bind, if_neg (by simpa using hquote),
      if_pos (by simpa using hslash), escape_standing (by omega) hlt, drop_succ_of_drop hcs,
      ok_bind]
    show Takes s f b _
      ((standing s f b (b + (i + 1) + n)).escapeFault (b + (i + 1) : Nat) _ _ >>= _)
    rw [escapeFault_standing hn, ok_bind]
    have hdrop : s.drop (b + (i + 1) + n) = cs.drop n := by
      rw [← List.drop_drop]
      exact congrArg (List.drop n) (drop_succ_of_drop hcs)
    rw [Nat.add_assoc b (i + 1) n] at hn hdrop
    have htakes := ih hdrop hn (Lexeme.FaultWithin.or_escape hbad)
    rwa [← Nat.add_assoc b (i + 1) n] at htakes
  | case5 i bad c cs hnewline hquote hslash ih =>
    have hlt := lt_length_of_drop hcs
    rw [stringFrom_eq, ch_standing, hcs, List.head?_cons, if_neg (by simpa using hnewline),
      next_standing (Nat.le_add_right b i) hlt, ok_bind, if_neg (by simpa using hquote),
      if_neg (by simpa using hslash)]
    exact ih (drop_succ_of_drop hcs) hlt
      fun v hv => (hbad v hv).mono (Nat.le_succ i)

theorem string_takes (hcs : s.drop b = ch :: cs) :
    Takes s f b (Lexeme.string (ch :: cs)) (standing s f b b).string := by
  have hb : b < s.length := lt_length_of_drop hcs
  have htakes := stringFrom_standing (f := f) (i := 1) none (drop_succ_of_drop hcs) hb nofun
  unfold string
  rw [next_standing (Nat.le_refl b) hb, ok_bind]
  rw [hcs] at htakes
  exact htakes

/-! ## All tokens -/

theorem mark_takes (hcs : s.drop b = ch :: cs) :
    Takes s f b (Lexeme.mark ch cs) (standing s f b b).mark := by
  have hb : b < s.length := lt_length_of_drop hcs
  have hcur : (ahead s f b b (b + 1)).ch = some ch := by
    show s[b]? = some ch
    rw [← List.head?_drop, hcs]
    rfl
  have hahead : s[b + 1]? = cs.head? := by
    rw [← List.head?_drop, drop_succ_of_drop hcs]
  unfold mark Lexeme.mark
  rw [peek_standing (Nat.le_refl b) hb, ok_bind]
  show Takes s f b _ ((ahead s f b b (b + 1)).next >>= _)
  rw [next_ahead (Nat.le_refl b) (Nat.lt_succ_self b) hb, ok_bind, hcur, hahead]
  dsimp only
  cases htwo : cs.head?.bind (TokenKind.ofTwoChars? ch) with
  | some kind =>
    have hb₁ : b + 1 < s.length := by
      obtain ⟨next, hnext, _⟩ := Option.bind_eq_some_iff.mp htwo
      obtain ⟨rest, rfl⟩ := List.head?_eq_some_iff.mp hnext
      exact lt_length_of_drop (drop_succ_of_drop hcs)
    show Takes s f b _ ((standing s f b (b + 1)).next >>= _)
    rw [next_standing (Nat.le_succ b) hb₁, ok_bind]
    show Takes s f b _ (spanOf _ (b : Int) _ >>= _)
    rw [spanOf_taken (m := 2) hb₁, ok_bind]
    exact takes_token hb₁
  | none =>
    dsimp only
    cases TokenKind.ofOneChar? ch with
    | some kind =>
      show Takes s f b _ ((standing s f b (b + 1)).spanOf (b : Int) (b : Int) >>= _)
      rw [spanOf_standing (Nat.le_refl b) (Nat.le_succ b) hb, ok_bind]
      exact takes_token hb
    | none => exact congrArg (· >>= _) (illegal_char (i := 0) (Nat.le_succ b) hb hb _)

/-- **The cursor takes the lexeme at the front of the text.** -/
theorem scan_takes (hcs : s.drop b = ch :: cs) :
    Takes s f b (Lexeme.scan ch cs) (standing s f b b).scan := by
  unfold scan Lexeme.scan
  simp only [ch_standing, hcs, List.head?_cons, Option.any_some, Option.some.injEq, beq_iff_eq]
  split
  · next hblank => exact trivia_takes hcs hblank
  split
  · exact word_takes hcs
  split
  · next hdecimal => exact number_takes hcs hdecimal
  split
  · next hhash => exact trivia_takes hcs (by simp [hhash])
  split
  · exact string_takes hcs
  · exact mark_takes hcs

theorem scan_end :
    (standing s f s.length s.length).scan =
      .ok (.endAt (Pos.within s s.length), standing s f s.length s.length) := by
  have hcur : (standing s f s.length s.length).ch = none := by
    rw [ch_standing, List.drop_length]
    rfl
  unfold scan
  simp only [hcur, Option.any_none, Bool.false_eq_true, if_false, reduceCtorEq]
  unfold mark
  rw [peek_end, ok_bind]
  show (standing s f s.length s.length).next >>= _ = _
  rw [next_end, ok_bind, hcur]
  show spanOf _ (s.length : Int) (s.length : Int) >>= _ = _
  rw [spanOf_standing (Nat.le_refl _) (Nat.le_refl _) (Nat.le_refl _)]
  rfl

end TypedLambda.Cursor
