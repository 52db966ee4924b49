import TypedLambda.Source
import TypedLambda.Token

/-!
# A cursor over a file

The characters of a file are read one by one into a buffer. It holds the text of the current token
and, after a look ahead, the character that follows. The offsets at which lines start are noted when
their newlines are first read, and places are found by a binary search among them.

The buffer and the table of lines are accessed by index, and an index out of range is a fault. So is
a read after the end of the file, of which nothing is known.
-/

namespace TypedLambda

/-- A file in use: the errors of its reading and its closing, whether it is open, how often it was
closed, and the error that was met so far. -/
structure Handle where
  readError : Option String
  closeError : Option String
  isOpen : Bool
  closes : Nat
  error : Option String

namespace Handle

def ofFile (f : OpenFile) : Handle := ⟨f.readError, f.closeError, true, 0, none⟩

/-- Close the file. Only the first time has an effect, and only then can it fail. -/
def close (f : Handle) : Option String × Handle :=
  if f.isOpen then (f.closeError, { f with isOpen := false, closes := f.closes + 1 })
  else (none, f)

/-- Come to the end of the file: the error of the reading is kept, and the file is closed. -/
def finish (f : Handle) : Handle :=
  let ended := { f with error := f.readError.or f.error }
  let closing := ended.close
  { closing.2 with error := ended.error.or closing.1 }

end Handle

inductive Cursor.Fault where
  | outOfRange (index : Int) (size : Nat)
  | readPastEnd
deriving DecidableEq

def Cursor.Fault.message : Fault → String
  | outOfRange index size =>
    "index out of range [" ++ toString index ++ "] with length " ++ toString size
  | readPastEnd => "read past the end"

/-- The current character `ch`, which is none at the end of the file, its offset `pos` in the text
and its index `i` in the buffer; the offsets at which `lines` start, the first ones of them; and the
characters that are not yet read from the file. -/
structure Cursor where
  ch : Option Char
  pos : Int
  i : Int
  buf : Array (Option Char)
  lines : Array Int
  unread : List Char
  ended : Bool
  file : Handle

namespace Cursor

section

variable {α : Type}

def elemAt (xs : Array α) (i : Int) : Except Fault α :=
  if i < 0 then .error (.outOfRange i xs.size)
  else
    match xs[i.toNat]? with
    | some x => .ok x
    | none => .error (.outOfRange i xs.size)

def sliceTo (xs : Array α) (i : Int) : Except Fault (Array α) :=
  if 0 ≤ i ∧ i ≤ xs.size then .ok (xs.extract 0 i.toNat) else .error (.outOfRange i xs.size)

def sliceFrom (xs : Array α) (i : Int) : Except Fault (Array α) :=
  if 0 ≤ i ∧ i ≤ xs.size then .ok (xs.extract i.toNat xs.size)
  else .error (.outOfRange i xs.size)

end

/-! ## Moving -/

def read (c : Cursor) : Except Fault Cursor :=
  match c.unread with
  | ch :: unread => .ok { c with ch := some ch, unread }
  | [] =>
    if c.ended then .error .readPastEnd
    else .ok { c with ch := none, ended := true, file := c.file.finish }

/-- Make the character at the index of the cursor the current one. It is read from the file if the
buffer does not hold it yet. -/
def fetch (c : Cursor) : Except Fault Cursor :=
  if c.i < c.buf.size then do
    let ch ← elemAt c.buf c.i
    pure { c with ch }
  else do
    let c ← c.read
    pure { c with buf := c.buf.push c.ch }

/-- Note the line that starts after a newline, unless it was noted before. -/
def noteLine (c : Cursor) : Except Fault Cursor :=
  if c.ch = some '\n' then do
    let last ← elemAt c.lines (c.lines.size - 1)
    pure (if last ≤ c.pos then { c with lines := c.lines.push (c.pos + 1) } else c)
  else pure c

/-- Go to the next character. The end of the file is not passed. -/
def next (c : Cursor) : Except Fault Cursor :=
  if c.ch = none then .ok c
  else do
    let c ← fetch { c with i := c.i + 1, pos := c.pos + 1 }
    c.noteLine

/-- Go back to the character before, if the buffer still holds it. -/
def backup (c : Cursor) : Except Fault Cursor :=
  if 0 < c.i then do
    let ch ← elemAt c.buf (c.i - 1)
    pure { c with ch, i := c.i - 1, pos := c.pos - 1 }
  else pure c

def peek (c : Cursor) : Except Fault (Option Char × Cursor) :=
  if c.ch = none then .ok (none, c)
  else do
    let ahead ← c.next
    let c ← ahead.backup
    pure (ahead.ch, c)

/-- Forget the characters of the buffer before the current one. -/
def reset (c : Cursor) : Except Fault Cursor := do
  let buf ← sliceFrom c.buf c.i
  let ch ← elemAt buf 0
  pure { c with buf, ch, i := 0 }

def close (c : Cursor) : Option String × Cursor :=
  (c.file.close.1, { c with file := c.file.close.2 })

def ofFile (f : OpenFile) : Except Fault Cursor :=
  next ⟨some '\x00', -1, -1, #[], #[0], Text.Utf8.chars f.bytes, false, .ofFile f⟩

/-! ## Text and places -/

/-- The text of the buffer before the current character. -/
def taken (c : Cursor) : Except Fault String := do
  let chars ← sliceTo c.buf c.i
  pure (String.ofList (chars.toList.map (·.getD '\uFFFD')))

/-- The number of lines that start before an offset, sought among those from `lo` up to `hi`. -/
def findLine (lines : Array Int) (offset : Int) (lo hi : Nat) : Except Fault Nat :=
  if lo < hi then do
    let start ← elemAt lines ((lo + hi) / 2 : Nat)
    if start < offset then findLine lines offset ((lo + hi) / 2 + 1) hi
    else findLine lines offset lo ((lo + hi) / 2)
  else pure lo
termination_by hi - lo

def lineIndex (c : Cursor) (offset : Int) : Except Fault Int := do
  let line ← findLine c.lines offset 0 c.lines.size
  if line < c.lines.size then
    let start ← elemAt c.lines line
    pure (if start = offset then (line : Int) else line - 1)
  else pure ((line : Int) - 1)

def posOf (c : Cursor) (offset : Int) : Except Fault Pos := do
  let line ← c.lineIndex offset
  let start ← elemAt c.lines line
  pure ⟨offset, line + 1, offset - start + 1⟩

/-- The span between two offsets. The second one does not count if it is before the first. -/
def spanOf (c : Cursor) (first last : Int) : Except Fault Span := do
  let start ← c.posOf first
  if last ≤ first then pure ⟨start, start⟩
  else
    let stop ← c.posOf last
    pure ⟨start, stop⟩

/-! ## How far the end is -/

/-- The number of times that the cursor can go to a next character. -/
def left (c : Cursor) : Nat :=
  (c.buf.size - c.i).toNat + c.unread.length + if c.ended then 0 else 1

theorem bind_eq_ok {α β : Type} {x : Except Fault α} {f : α → Except Fault β} {b : β}
    (h : x >>= f = .ok b) : ∃ a, x = .ok a ∧ f a = .ok b := by
  cases x with
  | error e => cases h
  | ok a => exact ⟨a, rfl, h⟩

variable {c c' : Cursor}

theorem left_noteLine (h : c.noteLine = .ok c') : c'.left = c.left := by
  unfold noteLine at h
  split at h
  · obtain ⟨last, _, h⟩ := bind_eq_ok h
    cases h
    split <;> rfl
  · cases h
    rfl

theorem left_read (h : c.read = .ok c') : c'.left < c.left ∧ c'.buf = c.buf ∧ c'.i = c.i := by
  unfold read at h
  split at h
  · next ch unread hunread =>
    cases h
    refine ⟨?_, rfl, rfl⟩
    simp only [left, hunread, List.length_cons]
    omega
  · split at h
    · cases h
    · next hended =>
      cases h
      refine ⟨?_, rfl, rfl⟩
      simp only [left, if_true, if_neg hended]
      omega

theorem left_fetch (h : fetch { c with i := c.i + 1, pos := c.pos + 1 } = .ok c') :
    c'.left < c.left := by
  unfold fetch at h
  split at h
  · next hlt =>
    obtain ⟨ch, _, h⟩ := bind_eq_ok h
    cases h
    simp only [left] at hlt ⊢
    omega
  · obtain ⟨read, hread, h⟩ := bind_eq_ok h
    obtain ⟨hleft, hbuf, hi⟩ := left_read hread
    cases h
    simp only [left, hbuf, hi, Array.size_push] at hleft ⊢
    omega

/-- Unless it stands at the end, the next character is nearer to the end. -/
theorem left_next (h : c.next = .ok c') :
    c'.left ≤ c.left ∧ (c.ch ≠ none → c'.left < c.left) := by
  unfold next at h
  split at h
  · next hch =>
    cases h
    exact ⟨Nat.le_refl _, fun hne => absurd hch hne⟩
  · obtain ⟨fetched, hfetch, h⟩ := bind_eq_ok h
    have hlt : c'.left < c.left := by
      rw [left_noteLine h]
      exact left_fetch hfetch
    exact ⟨Nat.le_of_lt hlt, fun _ => hlt⟩

end Cursor

end TypedLambda
