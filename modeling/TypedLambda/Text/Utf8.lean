/-!
# UTF-8

Bytes to characters and back. Decoding never fails: a byte that is part of no valid sequence is
kept as a stray piece, and `chars` shows it as U+FFFD.
-/

namespace TypedLambda.Text.Utf8

/-- One step of decoding: a character, or a byte that is part of no valid sequence. -/
inductive Piece where
  | char (c : Char)
  | stray (b : UInt8)
deriving DecidableEq

def isContinuation (b : UInt8) : Bool := 0x80 ≤ b && b ≤ 0xBF

def payload (b : UInt8) : Nat := b.toNat - 0x80

def two? (b₀ b₁ : UInt8) : Option Char :=
  if 0xC2 ≤ b₀ && b₀ ≤ 0xDF && isContinuation b₁ then
    some (Char.ofNat ((b₀.toNat - 0xC0) * 0x40 + payload b₁))
  else none

/-- The character of a three-byte sequence: neither overlong nor a surrogate. -/
def three? (b₀ b₁ b₂ : UInt8) : Option Char :=
  let n := ((b₀.toNat - 0xE0) * 0x40 + payload b₁) * 0x40 + payload b₂
  if 0xE0 ≤ b₀ && b₀ ≤ 0xEF && isContinuation b₁ && isContinuation b₂ && 0x800 ≤ n
      && !(0xD800 ≤ n && n ≤ 0xDFFF) then
    some (Char.ofNat n)
  else none

/-- The character of a four-byte sequence: neither overlong nor above U+10FFFF. -/
def four? (b₀ b₁ b₂ b₃ : UInt8) : Option Char :=
  let n := (((b₀.toNat - 0xF0) * 0x40 + payload b₁) * 0x40 + payload b₂) * 0x40 + payload b₃
  if 0xF0 ≤ b₀ && b₀ ≤ 0xF4 && isContinuation b₁ && isContinuation b₂ && isContinuation b₃
      && 0x10000 ≤ n && n ≤ 0x10FFFF then
    some (Char.ofNat n)
  else none

/-- The character at the front of `b₀ :: bs` and the number of bytes of `bs` it takes. -/
def front? (b₀ : UInt8) (bs : List UInt8) : Option (Char × Nat) :=
  if b₀ < 0x80 then some (Char.ofNat b₀.toNat, 0)
  else
    match bs with
    | [] => none
    | [b₁] => (two? b₀ b₁).map (·, 1)
    | [b₁, b₂] => ((two? b₀ b₁).map (·, 1)).or ((three? b₀ b₁ b₂).map (·, 2))
    | b₁ :: b₂ :: b₃ :: _ =>
      ((two? b₀ b₁).map (·, 1)).or
        (((three? b₀ b₁ b₂).map (·, 2)).or ((four? b₀ b₁ b₂ b₃).map (·, 3)))

/-- Split a byte string into characters and stray bytes. -/
def decode : List UInt8 → List Piece
  | [] => []
  | b :: bs =>
    match front? b bs with
    | some (c, n) => .char c :: decode (bs.drop n)
    | none => .stray b :: decode bs
termination_by bs => bs.length
decreasing_by all_goals (simp only [List.length_drop, List.length_cons]; omega)

/-- The character that stands for a piece: a stray byte reads as U+FFFD. -/
def Piece.toChar : Piece → Char
  | .char c => c
  | .stray _ => Char.ofNat 0xFFFD

/-- The text of a byte string, with U+FFFD for each stray byte. -/
def chars (bs : List UInt8) : List Char := (decode bs).map Piece.toChar

def encode (cs : List Char) : List UInt8 := cs.flatMap String.utf8EncodeChar

end TypedLambda.Text.Utf8
