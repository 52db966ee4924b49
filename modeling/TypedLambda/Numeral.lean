import TypedLambda.Text.Digit

/-!
# Numerals

The integer that a number's text denotes. After `0x`, `0o` or `0b` the digits are of base 16, 8 or
2 and an underscore may stand before each of them. Any other text is decimal: its underscores are
dropped and it may have a sign. A number outside the 64-bit range denotes nothing.
-/

namespace TypedLambda.Numeral
open Text

/-- The base that the second character of a text beginning with `0` selects. -/
def base? (c : Char) : Option Nat :=
  if c == 'x' || c == 'X' then some 16
  else if c == 'o' || c == 'O' then some 8
  else if c == 'b' || c == 'B' then some 2
  else none

/-- The number written by groups of an optional underscore and a digit, after the digits of
`acc`. -/
def grouped? (base acc : Nat) : List Char → Option Nat
  | [] => some acc
  | '_' :: c :: cs =>
    match digitIn? base c with
    | some d => grouped? base (acc * base + d) cs
    | none => none
  | c :: cs =>
    match digitIn? base c with
    | some d => grouped? base (acc * base + d) cs
    | none => none

/-- The number written by decimal digits alone, at least one of them. -/
def decimal? (cs : List Char) : Option Nat :=
  if cs.isEmpty then none else fixedDigits? 10 cs.length 0 cs

/-- The integer written by decimal digits after an optional sign. -/
def signed? : List Char → Option Int
  | '-' :: cs => (decimal? cs).map fun n => -(n : Int)
  | '+' :: cs => (decimal? cs).map fun n => (n : Int)
  | cs => (decimal? cs).map fun n => (n : Int)

/-- The integer that a number's text denotes, in whatever range. -/
def integer? : List Char → Option Int
  | '0' :: c :: cs =>
    match base? c with
    | some base => if cs.isEmpty then none else (grouped? base 0 cs).map fun n => (n : Int)
    | none => signed? (('0' :: c :: cs).filter (· != '_'))
  | cs => signed? (cs.filter (· != '_'))

/-- The 64-bit integer that a number's text denotes. -/
def value? (s : String) : Option Int64 :=
  match integer? s.toList with
  | some n =>
    if Int64.minValue.toInt ≤ n && n ≤ Int64.maxValue.toInt then some (Int64.ofInt n) else none
  | none => none

end TypedLambda.Numeral
