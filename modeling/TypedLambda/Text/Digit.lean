/-!
# Digits

Digit characters and their values in bases up to sixteen.
-/

namespace TypedLambda.Text

/-- The value of a hexadecimal digit, in either case. -/
def digitValue? (c : Char) : Option Nat :=
  if '0' ≤ c && c ≤ '9' then some (c.toNat - 48)
  else if 'a' ≤ c && c ≤ 'f' then some (c.toNat - 87)
  else if 'A' ≤ c && c ≤ 'F' then some (c.toNat - 55)
  else none

def digitIn? (base : Nat) (c : Char) : Option Nat := (digitValue? c).filter (· < base)

def isDecimal (c : Char) : Bool := '0' ≤ c && c ≤ '9'

def isHex (c : Char) : Bool := (digitValue? c).isSome

/-- Whether `c` belongs to the digits of a number of the given base, valid in it or not. -/
def isDigitLike (base : Nat) (c : Char) : Bool :=
  c == '_' || (if base = 16 then isHex c else isDecimal c)

/-- The number written by the first `count` characters in the given base, after the digits of
`acc`; nothing unless all of them are digits of that base. -/
def fixedDigits? (base : Nat) : Nat → Nat → List Char → Option Nat
  | 0, acc, _ => some acc
  | _ + 1, _, [] => none
  | count + 1, acc, c :: cs =>
    match digitIn? base c with
    | some d => fixedDigits? base count (acc * base + d) cs
    | none => none

def lowerDigit (n : Nat) : Char := if n < 10 then Char.ofNat (48 + n) else Char.ofNat (87 + n)

/-- The last `width` hexadecimal digits of `n`, in lower case. -/
def lowerHex : Nat → Nat → List Char
  | 0, _ => []
  | width + 1, n => lowerHex width (n / 16) ++ [lowerDigit (n % 16)]

def upperDigit (n : Nat) : Char := if n < 10 then Char.ofNat (48 + n) else Char.ofNat (55 + n)

/-- The last `width` hexadecimal digits of `n`, in upper case. -/
def upperHex : Nat → Nat → List Char
  | 0, _ => []
  | width + 1, n => upperHex width (n / 16) ++ [upperDigit (n % 16)]

end TypedLambda.Text
