import TypedLambda.Proofs.Lexing.Lexeme
import TypedLambda.Proofs.Text.Digits
import TypedLambda.Proofs.Text.Utf8

/-!
# String literals

The syntax of string literals and the bytes they denote, on their own (`Text.Literal.Denotes`). Two
functions of the program read it: the lexer takes a string off a text and checks its escapes, and
the parser determines the bytes of the literal.

* `Text.Literal.Escape.isEscape`: both take every escape of the syntax as a whole;
* `Lexeme.exists_escape_of_eq`: the lexer takes no other escape without a fault;
* `Lexeme.exists_body_of_stringFrom` and `Lexeme.stringFrom_body`: the strings without a fault are
  those of the syntax;
* `Text.literalBytes?_of_denotes`: each of them has its bytes.
-/

namespace TypedLambda

open Text
open String (utf8EncodeChar)

/-! ## Syntax -/

namespace Text.Literal

/-- The escapes of one character, with the bytes they denote. -/
def simpleEscapes : List (Char × UInt8) :=
  [('a', 7), ('b', 8), ('f', 12), ('n', 10), ('r', 13), ('t', 9), ('v', 11), ('\\', 92),
    ('\x22', 34)]

/-- The characters after a backslash are an escape for the bytes. -/
inductive Escape : List Char → List UInt8 → Prop
  | simple {letter : Char} {byte : UInt8} :
      (letter, byte) ∈ simpleEscapes → Escape [letter] [byte]
  | octal {digits : List Char} {n : Nat} :
      digits.length = 3 → Writes 8 digits n → n ≤ 255 → Escape digits [n.toUInt8]
  | hex {digits : List Char} {n : Nat} :
      digits.length = 2 → Writes 16 digits n → Escape ('x' :: digits) [n.toUInt8]
  /-- Surrogates and numbers above U+10FFFF are the code points of no character. -/
  | short {digits : List Char} {c : Char} :
      digits.length = 4 → Writes 16 digits c.toNat → Escape ('u' :: digits) (utf8EncodeChar c)
  | long {digits : List Char} {c : Char} :
      digits.length = 8 → Writes 16 digits c.toNat → Escape ('U' :: digits) (utf8EncodeChar c)

/-- The characters may stand between double quotes and denote the bytes. -/
inductive Body : List Char → List UInt8 → Prop
  | nil : Body [] []
  | plain {c : Char} {cs : List Char} {bs : List UInt8} :
      c ≠ '\n' → c ≠ '\x22' → c ≠ '\\' → Body cs bs → Body (c :: cs) (utf8EncodeChar c ++ bs)
  | escape {e cs : List Char} {es bs : List UInt8} :
      Escape e es → Body cs bs → Body ('\\' :: (e ++ cs)) (es ++ bs)

def Denotes (text : List Char) (bytes : List UInt8) : Prop :=
  ∃ body, text = '\x22' :: (body ++ ['\x22']) ∧ Body body bytes

end Text.Literal

/-! ## Escapes -/

namespace Lexeme

/-- The digits of an escape have no fault exactly if they can be read, and their value is at most
the limit and no surrogate. -/
theorem escapeDigits_eq_none_iff {base limit count acc k : Nat} {cs : List Char} :
    escapeDigits base limit count acc cs = (k, none) ↔
      ∃ n, fixedDigits? base count acc cs = some n ∧ k = count ∧ n ≤ limit ∧
        ¬ (0xD800 ≤ n ∧ n < 0xE000) := by
  induction count generalizing acc cs k with
  | zero =>
    simp only [escapeDigits, fixedDigits?, Prod.mk.injEq, ite_eq_right_iff, reduceCtorEq, imp_false,
      Bool.or_eq_true, Bool.and_eq_true, decide_eq_true_eq, Option.some.injEq, exists_eq_left']
    omega
  | succ count ih =>
    cases cs with
    | nil => simp [escapeDigits, fixedDigits?]
    | cons c cs =>
      rw [escapeDigits, fixedDigits?]
      cases digitIn? base c with
      | none => simp
      | some d =>
        have hrest := @ih (acc * base + d) (k - 1) cs
        simp only [Prod.ext_iff] at hrest ⊢
        constructor
        · rintro ⟨rfl, hfault⟩
          obtain ⟨n, hn, hk, hvalue⟩ := hrest.mp ⟨by simp, hfault⟩
          exact ⟨n, hn, by simpa using hk, hvalue⟩
        · rintro ⟨n, hn, rfl, hvalue⟩
          obtain ⟨hk, hfault⟩ := hrest.mpr ⟨n, hn, rfl, hvalue⟩
          exact ⟨by simpa using hk, hfault⟩

end Lexeme

namespace Text

/-- The characters `e` after a backslash are an escape for the bytes, both when a string is taken
from a text and when the bytes of a literal are determined. -/
structure IsEscape (e : List Char) (bytes : List UInt8) : Prop where
  taken : ∀ cs, Lexeme.escape (e ++ cs) = (e.length, none)
  denoted : ∀ cs, Literal.escape? '\x22' (e ++ cs) = some (bytes, e.length)

theorem isEscape_simple {letter : Char} {byte : UInt8}
    (h : (letter, byte) ∈ Literal.simpleEscapes) : IsEscape [letter] [byte] := by
  simp only [Literal.simpleEscapes, List.mem_cons, List.not_mem_nil, or_false, Prod.mk.injEq] at h
  rcases h with ⟨rfl, rfl⟩ | ⟨rfl, rfl⟩ | ⟨rfl, rfl⟩ | ⟨rfl, rfl⟩ | ⟨rfl, rfl⟩ | ⟨rfl, rfl⟩ |
    ⟨rfl, rfl⟩ | ⟨rfl, rfl⟩ | ⟨rfl, rfl⟩
  all_goals exact ⟨fun _ => rfl, fun _ => rfl⟩

theorem of_isDigit_eight {c : Char} {d : Nat} (h : IsDigit 8 c d) :
    Text.isSimpleEscape c = false ∧ ('0' ≤ c && c ≤ '7') = true ∧
      c ≠ '\\' ∧ c ≠ '\x22' ∧ c ≠ 'x' ∧ c ≠ 'u' ∧ c ≠ 'U' := by
  have hascii := toNat_lt_of_digitValue? (digitValue?_eq_some_iff.mpr h.2)
  refine forall_ascii (P := fun c => ∀ d ∈ digitIn? 8 c, Text.isSimpleEscape c = false ∧
    ('0' ≤ c && c ≤ '7') = true ∧ c ≠ '\\' ∧ c ≠ '\x22' ∧ c ≠ 'x' ∧ c ≠ 'u' ∧ c ≠ 'U') ?_ hascii d
    (digitIn?_eq_some_iff.mpr h)
  decide +kernel

theorem isEscape_octal {digits : List Char} {n : Nat} (hlength : digits.length = 3)
    (hdigits : Writes 8 digits n) (hn : n ≤ 255) : IsEscape digits [n.toUInt8] := by
  have hread : ∀ cs, fixedDigits? 8 3 0 (digits ++ cs) = some n := fun cs =>
    fixedDigits?_zero_eq_some_iff.mpr ⟨digits, cs, rfl, hlength, hdigits⟩
  obtain ⟨ds, hdigits, _⟩ := hdigits
  cases hdigits with
  | nil => simp at hlength
  | cons hd hdigits =>
    obtain ⟨hsimple, hoctal, hslash, hquote, hx, hu, hU⟩ := of_isDigit_eight hd
    refine ⟨fun cs => ?_, fun cs => ?_⟩
    · have hnone := Lexeme.escapeDigits_eq_none_iff.mpr ⟨n, hread cs, rfl, hn, by omega⟩
      rw [hlength]
      simpa [Lexeme.escape, hsimple, hoctal] using hnone
    · have hbytes := hread cs
      rw [hlength]
      simp only [List.cons_append] at hbytes ⊢
      simp [Literal.escape?, hoctal, hslash, hquote, hx, hu, hU, hbytes, hn]

theorem isEscape_hex {letter : Char} {digits : List Char} {width limit n : Nat}
    {bytes : List UInt8}
    (htaken : ∀ cs, Lexeme.escape (letter :: cs) =
      ((Lexeme.escapeDigits 16 limit width 0 cs).1 + 1,
        (Lexeme.escapeDigits 16 limit width 0 cs).2))
    (hdenoted : ∀ cs, fixedDigits? 16 width 0 cs = some n →
      Literal.escape? '\x22' (letter :: cs) = some (bytes, width + 1))
    (hwidth : digits.length = width) (hdigits : Writes 16 digits n) (hlimit : n ≤ limit)
    (hvalid : n.isValidChar) : IsEscape (letter :: digits) bytes := by
  have hlength : (letter :: digits).length = width + 1 := by simp [hwidth]
  have hread : ∀ cs, fixedDigits? 16 width 0 (digits ++ cs) = some n := fun cs =>
    fixedDigits?_zero_eq_some_iff.mpr ⟨digits, cs, rfl, hwidth, hdigits⟩
  refine ⟨fun cs => ?_, fun cs => ?_⟩
  · have hnone : Lexeme.escapeDigits 16 limit width 0 (digits ++ cs) = (width, none) :=
      Lexeme.escapeDigits_eq_none_iff.mpr ⟨n, hread cs, rfl, hlimit, by omega⟩
    rw [hlength, List.cons_append, htaken, hnone]
  · rw [hlength, List.cons_append, hdenoted _ (hread cs)]

theorem codePointBytes?_toNat (c : Char) :
    Literal.codePointBytes? c.toNat = some (utf8EncodeChar c) := by
  rw [Literal.codePointBytes?, if_pos (Utf8.toNat_isValidChar c), Char.ofNat_toNat]

theorem isEscape_codePoint {letter : Char} {digits : List Char} {width : Nat} {c : Char}
    (htaken : ∀ cs, Lexeme.escape (letter :: cs) =
      ((Lexeme.escapeDigits 16 0x10FFFF width 0 cs).1 + 1,
        (Lexeme.escapeDigits 16 0x10FFFF width 0 cs).2))
    (hdenoted : ∀ cs, Literal.escape? '\x22' (letter :: cs) =
      (fixedDigits? 16 width 0 cs).bind fun n => (Literal.codePointBytes? n).map (·, width + 1))
    (hwidth : digits.length = width) (hdigits : Writes 16 digits c.toNat) :
    IsEscape (letter :: digits) (utf8EncodeChar c) := by
  have hvalid := Utf8.toNat_isValidChar c
  refine isEscape_hex htaken (fun cs hread => ?_) hwidth hdigits (by omega) hvalid
  rw [hdenoted, hread, Option.bind_some, codePointBytes?_toNat, Option.map_some]

/-- **Both readings take an escape of the syntax as a whole.** -/
theorem Literal.Escape.isEscape {e : List Char} {bytes : List UInt8} (h : Escape e bytes) :
    IsEscape e bytes := by
  cases h with
  | simple hletter => exact isEscape_simple hletter
  | octal hlength hdigits hn => exact isEscape_octal hlength hdigits hn
  | @hex digits n hlength hdigits =>
    have hn : n < 256 := by simpa [hlength] using hdigits.lt (by decide)
    refine isEscape_hex (fun _ => rfl) (fun cs hread => ?_) hlength hdigits (Nat.le_of_lt_succ hn)
      (.inl (by omega))
    show (fixedDigits? 16 2 0 cs).map _ = _
    rw [hread]
    rfl
  | short hlength hdigits =>
    exact isEscape_codePoint (fun _ => rfl) (fun _ => rfl) hlength hdigits
  | long hlength hdigits =>
    exact isEscape_codePoint (fun _ => rfl) (fun _ => rfl) hlength hdigits

theorem exists_simpleEscape {c : Char} (h : Text.isSimpleEscape c = true) :
    ∃ byte, (c, byte) ∈ Literal.simpleEscapes := by
  simp only [Text.isSimpleEscape, Bool.or_eq_true, beq_iff_eq] at h
  rcases h with (((((((rfl | rfl) | rfl) | rfl) | rfl) | rfl) | rfl) | rfl) | rfl
  all_goals simp [Literal.simpleEscapes]

end Text

namespace Lexeme

theorem exists_writes_of_escapeDigits {base limit count : Nat} {cs : List Char}
    (h : (escapeDigits base limit count 0 cs).2 = none) :
    ∃ digits rest n, cs = digits ++ rest ∧ digits.length = count ∧
      (escapeDigits base limit count 0 cs).1 = count ∧ Writes base digits n ∧ n ≤ limit ∧
      ¬ (0xD800 ≤ n ∧ n < 0xE000) := by
  obtain ⟨n, hread, hcount, hvalue⟩ := escapeDigits_eq_none_iff.mp (Prod.ext rfl h)
  obtain ⟨digits, rest, rfl, hlength, hdigits⟩ := fixedDigits?_zero_eq_some_iff.mp hread
  exact ⟨digits, rest, n, rfl, hlength, hcount, hdigits, hvalue⟩

theorem exists_escape_of_codePoint {letter : Char} {width k : Nat} {cs : List Char}
    (hescape : ∀ {digits : List Char} {c : Char}, digits.length = width →
      Writes 16 digits c.toNat → Literal.Escape (letter :: digits) (utf8EncodeChar c))
    (h : ((escapeDigits 16 0x10FFFF width 0 cs).1 + 1,
      (escapeDigits 16 0x10FFFF width 0 cs).2) = (k, none)) :
    ∃ e rest bytes, letter :: cs = e ++ rest ∧ e.length = k ∧ Literal.Escape e bytes := by
  obtain ⟨hk, hnone⟩ := Prod.mk.inj h
  obtain ⟨digits, rest, n, rfl, hlength, hcount, hdigits, hlimit, hvalid⟩ :=
    exists_writes_of_escapeDigits hnone
  have hchar : (Char.ofNat n).toNat = n := Utf8.toNat_ofNat (by unfold Nat.isValidChar; omega)
  rw [← hchar] at hdigits
  exact ⟨letter :: digits, rest, _, rfl, by simp; omega, hescape hlength hdigits⟩

/-- **What the lexer takes as an escape without a fault is one.** -/
theorem exists_escape_of_eq {cs : List Char} {k : Nat} (h : escape cs = (k, none)) :
    ∃ e rest bytes, cs = e ++ rest ∧ e.length = k ∧ Literal.Escape e bytes := by
  cases cs with
  | nil => simp [escape] at h
  | cons c rest =>
    rw [escape] at h
    split at h
    · next hsimple =>
      obtain ⟨byte, hbyte⟩ := exists_simpleEscape hsimple
      exact ⟨[c], rest, [byte], rfl, (Prod.mk.inj h).1, .simple hbyte⟩
    · split at h
      · obtain ⟨digits, rest, n, hcs, hlength, hcount, hdigits, hlimit, _⟩ :=
          exists_writes_of_escapeDigits (congrArg Prod.snd h)
        have hk : k = 3 := (congrArg Prod.fst h).symm.trans hcount
        exact ⟨digits, rest, _, hcs, hlength.trans hk.symm, .octal hlength hdigits hlimit⟩
      · split at h
        · next hletter =>
          obtain ⟨hk, hnone⟩ := Prod.mk.inj h
          obtain ⟨digits, rest, n, rfl, hlength, hcount, hdigits, _⟩ :=
            exists_writes_of_escapeDigits hnone
          obtain rfl : c = 'x' := by simpa using hletter
          exact ⟨'x' :: digits, rest, _, rfl, by simp; omega, .hex hlength hdigits⟩
        · split at h
          · next hletter =>
            obtain rfl : c = 'u' := by simpa using hletter
            exact exists_escape_of_codePoint .short h
          · split at h
            · next hletter =>
              obtain rfl : c = 'U' := by simpa using hletter
              exact exists_escape_of_codePoint .long h
            · simp at h

/-! ## Strings -/

/-- **A body of the syntax is taken up to its closing quote**, whatever follows. -/
theorem stringFrom_body {body : List Char} {bytes : List UInt8} (h : Literal.Body body bytes)
    (i : Nat) (bad : Option Verdict) (rest : List Char) :
    stringFrom i bad (body ++ '\x22' :: rest) = (i + body.length + 1, bad) := by
  induction h generalizing i with
  | nil => simp [stringFrom]
  | plain hline hquote hslash _ ih =>
    rw [List.cons_append, stringFrom]
    simp [hline, hquote, hslash, ih]
    omega
  | @escape e cs es bs he _ ih =>
    rw [List.cons_append, List.append_assoc, stringFrom]
    simp [he.isEscape.taken, ih]
    omega

/-- **A string literal of the syntax is taken as one string**, whatever follows it. -/
theorem scan_denotes {cs : List Char} {bytes : List UInt8}
    (h : Literal.Denotes ('\x22' :: cs) bytes) (rest : List Char) :
    scan '\x22' (cs ++ rest) =
      ⟨('\x22' :: cs).length, .token .string (String.ofList ('\x22' :: cs))⟩ := by
  obtain ⟨body, hcs, hbody⟩ := h
  have hfound : stringFrom 1 none (cs ++ rest) = (('\x22' :: cs).length, none) := by
    rw [(List.cons.inj hcs).2, List.append_assoc, List.singleton_append, stringFrom_body hbody]
    simp
    omega
  rw [scan_of_ascii (by decide) (by decide)]
  show string ('\x22' :: (cs ++ rest)) = _
  rw [string, List.tail_cons, hfound]
  show Lexeme.mk _ (.token .string (String.ofList (('\x22' :: cs ++ rest).take _))) = _
  rw [List.take_left]

/-- **What the lexer takes as a string without a fault has a body of the syntax.** -/
theorem exists_body_of_stringFrom {i n : Nat} {bad : Option Verdict} {cs : List Char}
    (h : stringFrom i bad cs = (n, none)) :
    bad = none ∧ ∃ body rest bytes, cs = body ++ '\x22' :: rest ∧ n = i + body.length + 1 ∧
      Literal.Body body bytes := by
  fun_induction stringFrom i bad cs with
  | case1 i => simp at h
  | case2 i => simp at h
  | case3 i bad c cs _ hquote =>
    obtain rfl : c = '\x22' := by simpa using hquote
    obtain ⟨hn, hbad⟩ := Prod.mk.inj h
    exact ⟨hbad, [], cs, [], rfl, by simp [← hn], .nil⟩
  | case4 i bad c cs _ _ hslash k ih =>
    obtain rfl : c = '\\' := by simpa using hslash
    obtain ⟨hor, body, rest, bytes, hcs, hn, hbody⟩ := ih h
    obtain ⟨hbad, hfault⟩ := Option.or_eq_none_iff.mp hor
    have hescape : escape cs = (k, none) := Prod.ext rfl (by simpa using hfault)
    obtain ⟨e, after, es, rfl, hlength, he⟩ := exists_escape_of_eq hescape
    rw [← hlength, List.drop_left] at hcs
    refine ⟨hbad, '\\' :: (e ++ body), rest, es ++ bytes, by simp [hcs], ?_, .escape he hbody⟩
    simp
    omega
  | case5 i bad c cs hline hquote hslash ih =>
    obtain ⟨hbad, body, rest, bytes, rfl, hn, hbody⟩ := ih h
    refine ⟨hbad, c :: body, rest, _, rfl, by simp; omega, .plain ?_ ?_ ?_ hbody⟩
    · simpa using hline
    · simpa using hquote
    · simpa using hslash

theorem exists_denotes_of_stringFrom {n : Nat} {cs : List Char}
    (h : stringFrom 1 none cs = (n, none)) :
    ∃ bytes, Literal.Denotes (('\x22' :: cs).take n) bytes := by
  obtain ⟨_, body, rest, bytes, rfl, rfl, hbody⟩ := exists_body_of_stringFrom h
  refine ⟨bytes, body, ?_, hbody⟩
  have hsplit : '\x22' :: (body ++ '\x22' :: rest) = '\x22' :: (body ++ ['\x22']) ++ rest := by simp
  have hlength : 1 + body.length + 1 = ('\x22' :: (body ++ ['\x22'])).length := by simp; omega
  rw [hsplit, hlength, List.take_left]

end Lexeme

namespace Text

theorem doubleQuoted?_body {body : List Char} {bytes : List UInt8} (h : Literal.Body body bytes) :
    Literal.doubleQuoted? (body ++ ['\x22']) = some bytes := by
  induction h with
  | nil => simp [Literal.doubleQuoted?]
  | plain hline hquote hslash _ ih =>
    rw [List.cons_append, Literal.doubleQuoted?]
    simp [hline, hquote, hslash, ih]
  | escape he _ ih =>
    rw [List.cons_append, List.append_assoc, Literal.doubleQuoted?]
    simp [he.isEscape.denoted, ih]

/-- **A string literal of the syntax has the bytes that it denotes.** -/
theorem literalBytes?_of_denotes {s : String} {bytes : List UInt8}
    (h : Literal.Denotes s.toList bytes) : literalBytes? s = some bytes := by
  obtain ⟨body, hs, hbody⟩ := h
  rw [literalBytes?, hs]
  exact doubleQuoted?_body hbody

end Text

end TypedLambda
