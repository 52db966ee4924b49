import TypedLambda.Text.Digit
import TypedLambda.Text.Utf8

/-!
# Text literals

The byte string that a literal denotes. A literal stands between double quotes, holds at most one
character between single quotes, or stands uninterpreted between back quotes.
-/

namespace TypedLambda.Text

/-- The control character that an escape letter names. -/
def control? (letter : Char) : Option UInt8 :=
  match letter with
  | 'a' => some 7
  | 'b' => some 8
  | 't' => some 9
  | 'n' => some 10
  | 'v' => some 11
  | 'f' => some 12
  | 'r' => some 13
  | _ => none

/-- Whether a backslash and `c` are an escape. -/
def isSimpleEscape (c : Char) : Bool :=
  c == 'a' || c == 'b' || c == 'f' || c == 'n' || c == 'r' || c == 't' || c == 'v' || c == '\\' ||
    c == '\x22'

namespace Literal

/-- The bytes of the character with code point `n`, unless `n` is a surrogate or too large. -/
def codePointBytes? (n : Nat) : Option (List UInt8) :=
  if n.isValidChar then some (String.utf8EncodeChar (Char.ofNat n)) else none

/-- The bytes of the escape whose text after the backslash begins `cs`, inside a literal with the
given quote mark, and how many characters of `cs` it takes. -/
def escape? (quote : Char) (cs : List Char) : Option (List UInt8 × Nat) :=
  match cs with
  | [] => none
  | c :: rest =>
    if c == '\\' || c == quote then some ([c.toNat.toUInt8], 1)
    else if c == 'x' then (fixedDigits? 16 2 0 rest).map fun n => ([n.toUInt8], 3)
    else if c == 'u' then
      (fixedDigits? 16 4 0 rest).bind fun n => (codePointBytes? n).map (·, 5)
    else if c == 'U' then
      (fixedDigits? 16 8 0 rest).bind fun n => (codePointBytes? n).map (·, 9)
    else if '0' ≤ c && c ≤ '7' then
      (fixedDigits? 8 3 0 cs).bind fun n => if n ≤ 255 then some ([n.toUInt8], 3) else none
    else (control? c).map fun b => ([b], 1)

/-- The bytes of a double-quoted literal, from the text after its opening quote. -/
def doubleQuoted? : List Char → Option (List UInt8)
  | [] => none
  | c :: cs =>
    if c == '\x22' then if cs.isEmpty then some [] else none
    else if c == '\n' then none
    else if c == '\\' then
      match escape? '\x22' cs with
      | some (bs, n) => (doubleQuoted? (cs.drop n)).map (bs ++ ·)
      | none => none
    else (doubleQuoted? cs).map (String.utf8EncodeChar c ++ ·)
termination_by cs => cs.length
decreasing_by all_goals (simp only [List.length_drop, List.length_cons]; omega)

/-- The bytes of a single-quoted literal, from the text after its opening quote: one character,
one escape, or nothing. -/
def singleQuoted? : List Char → Option (List UInt8)
  | [] => none
  | c :: cs =>
    if c == '\x27' then if cs.isEmpty then some [] else none
    else if c == '\n' then none
    else if c == '\\' then
      match escape? '\x27' cs with
      | some (bs, n) => if cs.drop n == ['\x27'] then some bs else none
      | none => none
    else if cs == ['\x27'] then some (String.utf8EncodeChar c) else none

/-- The bytes of a back-quoted literal, from the text after its opening quote. Carriage returns
are left out. -/
def backQuoted? (cs : List Char) : Option (List UInt8) :=
  if cs.dropWhile (· != '\x60') == ['\x60'] then
    some (Utf8.encode ((cs.takeWhile (· != '\x60')).filter (· != '\r')))
  else none

end Literal

/-- The byte string that a literal denotes. -/
def literalBytes? (s : String) : Option (List UInt8) :=
  match s.toList with
  | [] => none
  | c :: cs =>
    if c == '\x22' then Literal.doubleQuoted? cs
    else if c == '\x27' then Literal.singleQuoted? cs
    else if c == '\x60' then Literal.backQuoted? cs
    else none

end TypedLambda.Text
