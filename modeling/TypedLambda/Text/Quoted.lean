import TypedLambda.Text.Digit
import TypedLambda.Text.Printable
import TypedLambda.Text.Utf8

/-!
# Quoted text

How bytes, names and characters are shown between quotes: printable characters as they are, the
others as escapes. A byte that belongs to no character is shown by its two hexadecimal digits.
-/

namespace TypedLambda.Text

/-- The letter that names a control character in an escape. -/
def controlLetter? (c : Char) : Option Char :=
  match c.toNat with
  | 7 => some 'a'
  | 8 => some 'b'
  | 9 => some 't'
  | 10 => some 'n'
  | 11 => some 'v'
  | 12 => some 'f'
  | 13 => some 'r'
  | _ => none

namespace Quoted

/-- One character between two `quote` marks. -/
def escape (quote c : Char) : List Char :=
  if c == quote || c == '\\' then ['\\', c]
  else if isPrintable c then [c]
  else
    match controlLetter? c with
    | some letter => ['\\', letter]
    | none =>
      if c.toNat < 0x80 then '\\' :: 'x' :: lowerHex 2 c.toNat
      else if c.toNat < 0x10000 then '\\' :: 'u' :: lowerHex 4 c.toNat
      else '\\' :: 'U' :: lowerHex 8 c.toNat

/-- One piece of a byte string between double quotes. -/
def escapePiece : Utf8.Piece → List Char
  | .char c => escape '\x22' c
  | .stray b => '\\' :: 'x' :: lowerHex 2 b.toNat

def ofBytes (bs : List UInt8) : String :=
  String.ofList ('\x22' :: (Utf8.decode bs).flatMap escapePiece ++ ['\x22'])

def ofString (s : String) : String :=
  String.ofList ('\x22' :: s.toList.flatMap (escape '\x22') ++ ['\x22'])

def ofChar (c : Char) : String :=
  String.ofList ('\x27' :: escape '\x27' c ++ ['\x27'])

end Quoted

/-- A character by its code point, followed by the character itself when it is printable. -/
def codePointName (c : Char) : String :=
  let n := c.toNat
  let width := if n < 0x10000 then 4 else if n < 0x100000 then 5 else 6
  "U+" ++ String.ofList (upperHex width n) ++
    if isPrintable c then String.ofList [' ', '\x27', c, '\x27'] else ""

end TypedLambda.Text
