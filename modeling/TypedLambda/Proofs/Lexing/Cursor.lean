import TypedLambda.Proofs.Lexing.Lines

/-!
# Where a cursor stands

A cursor over a text is in a state that four numbers determine (`Cursor.ahead`): the offset at which
its buffer begins, the offset of the current character, the last offset that was read, and how the
file was used before. Buffer, index, table of lines, unread characters and the state of the file are
in step in such a state, and each move leads to another one.

The last offset that was read is that of the current character (`Cursor.standing`) but for the time
between a look ahead and the next move. The end of the file may be met in such a look ahead; the
move then takes it from the buffer, and the file is neither read nor closed again.
-/

namespace TypedLambda.Cursor

variable {s : List Char} {f : Handle} {b k h : Nat}

/-! ## States -/

/-- What can be read from the text: its characters, and then the end. -/
def cells (s : List Char) : List (Option Char) := s.map some ++ [none]

theorem length_cells (s : List Char) : (cells s).length = s.length + 1 := by
  simp [cells]

theorem getElem?_cells (hk : k ≤ s.length) : (cells s)[k]? = some s[k]? := by
  unfold cells
  rcases Nat.lt_or_eq_of_le hk with hlt | rfl
  · rw [List.getElem?_append_left (by simpa using hlt), List.getElem?_map,
      List.getElem?_eq_getElem hlt]
    rfl
  · rw [List.getElem?_append_right (by simp)]
    simp

/-- The characters in the buffer that begins at `b`, when the text was read up to the offset `h`. -/
def buffered (s : List Char) (b h : Nat) : List (Option Char) := ((cells s).drop b).take (h + 1 - b)

theorem length_buffered (hh : h ≤ s.length) : (buffered s b h).length = h + 1 - b := by
  rw [buffered, List.length_take, List.length_drop, length_cells]
  omega

theorem getElem?_buffered (hb : b ≤ k) (hk : k ≤ h) (hh : h ≤ s.length) :
    (buffered s b h)[k - b]? = some s[k]? := by
  rw [buffered, List.getElem?_take_of_lt (by omega), List.getElem?_drop, Nat.add_sub_cancel' hb,
    getElem?_cells (Nat.le_trans hk hh)]

/-- The cursor at the offset `k` of the text, with a buffer that begins at the offset `b`, when the
text was read up to the offset `h`. -/
def ahead (s : List Char) (f : Handle) (b k h : Nat) : Cursor where
  ch := s[k]?
  pos := k
  i := (k : Int) - b
  buf := (buffered s b h).toArray
  lines := (lineTable (s.take (h + 1))).toArray
  unread := s.drop (h + 1)
  ended := h = s.length
  file := if h = s.length then f.finish else f

/-- The cursor at an offset that nothing was read after. -/
def standing (s : List Char) (f : Handle) (b k : Nat) : Cursor := ahead s f b k k

theorem i_ahead (hb : b ≤ k) : (ahead s f b k h).i = (k - b : Nat) := by
  show (k : Int) - b = _
  omega

theorem index_le_size (hb : b ≤ k) (hk : k ≤ s.length) :
    0 ≤ ((k - b : Nat) : Int) ∧ ((k - b : Nat) : Int) ≤ (standing s f b k).buf.size := by
  show _ ∧ _ ≤ (((buffered s b k).length : Nat) : Int)
  rw [length_buffered hk]
  omega

/-! ## Moves -/

section

variable {c : Cursor} {cs : List Char}

theorem noteLine_noted (hlines : c.lines = (lineTable cs).toArray)
    (hnoted : c.ch = some '\n' → c.pos < lastLine cs) : c.noteLine = .ok c := by
  unfold noteLine
  split
  · next hch =>
    obtain ⟨front, htable, _⟩ := exists_lineTable_eq cs
    rw [hlines, htable, elemAt_last, ok_bind, if_neg (Int.not_le.mpr (hnoted hch))]
    rfl
  · rfl

theorem noteLine_read (hlines : c.lines = (lineTable cs).toArray) (hpos : c.pos = cs.length) :
    c.noteLine = .ok { c with lines := (lineTable (cs ++ c.ch.toList)).toArray } := by
  unfold noteLine
  split
  · next hch =>
    obtain ⟨front, htable, _⟩ := exists_lineTable_eq cs
    have hle : lastLine cs ≤ c.pos := hpos ▸ lastLine_le cs
    have hnew : lineTable (cs ++ ['\n']) = lineTable cs ++ [c.pos + 1] := by
      rw [lineTable_append, hpos]
      rfl
    rw [hch, Option.toList_some, hnew, hlines, htable, elemAt_last, ok_bind, if_pos hle,
      List.push_toArray]
    rfl
  · next hch =>
    have hsame : lineTable (cs ++ c.ch.toList) = lineTable cs := by
      cases hc : c.ch with
      | none => simp
      | some d =>
        have hd : d ≠ '\n' := fun hd => hch (by rw [hc, hd])
        simp [lineTable_append, lineStarts, hd]
    rw [hsame, ← hlines]
    rfl

end

theorem ch_ahead_ne_none (hk : k < s.length) : (ahead s f b k h).ch ≠ none := by
  show s[k]? ≠ none
  simp [hk]

/-- The state between counting up the offset and getting the character there. -/
theorem moved_eq : { ahead s f b k h with
      i := (ahead s f b k h).i + 1, pos := (ahead s f b k h).pos + 1 } =
    { ahead s f b (k + 1) h with ch := s[k]? } := by
  simp only [ahead, Cursor.mk.injEq, true_and, and_true]
  omega

/-- A move over a character that was looked at before takes the next one from the buffer. -/
theorem next_ahead (hb : b ≤ k) (hk : k < h) (hh : h ≤ s.length) :
    (ahead s f b k h).next = .ok (ahead s f b (k + 1) h) := by
  have hi : (ahead s f b (k + 1) h).i = (k + 1 - b : Nat) := i_ahead (Nat.le_succ_of_le hb)
  have hsize : (ahead s f b (k + 1) h).i < (ahead s f b (k + 1) h).buf.size := by
    rw [hi]
    show _ < (((buffered s b h).length : Nat) : Int)
    rw [length_buffered hh]
    omega
  have helem : elemAt (ahead s f b (k + 1) h).buf (ahead s f b (k + 1) h).i = .ok s[k + 1]? := by
    rw [hi]
    exact elemAt_eq (getElem?_buffered (Nat.le_succ_of_le hb) hk hh)
  have hfetch : fetch { ahead s f b (k + 1) h with ch := s[k]? } = .ok (ahead s f b (k + 1) h) := by
    unfold fetch
    rw [if_pos hsize, helem]
    rfl
  unfold next
  rw [if_neg (ch_ahead_ne_none (Nat.lt_of_lt_of_le hk hh)), moved_eq, hfetch, ok_bind]
  refine noteLine_noted rfl fun hch => lt_lastLine ?_
  rw [List.getElem?_take_of_lt (Nat.succ_lt_succ hk)]
  exact hch

theorem buffered_succ (hb : b ≤ k + 1) (hk : k < s.length) :
    buffered s b k ++ [s[k + 1]?] = buffered s b (k + 1) := by
  unfold buffered
  rw [show k + 1 + 1 - b = k + 1 - b + 1 by omega, List.take_add_one, List.getElem?_drop,
    Nat.add_sub_cancel' hb, getElem?_cells hk]
  rfl

theorem read_standing (hk : k < s.length) :
    read { ahead s f b (k + 1) k with ch := s[k]? } =
      .ok { standing s f b (k + 1) with
        buf := (buffered s b k).toArray, lines := (lineTable (s.take (k + 1))).toArray } := by
  have hne : k ≠ s.length := Nat.ne_of_lt hk
  unfold read standing
  rcases Nat.lt_or_eq_of_le (Nat.succ_le_of_lt hk) with hlt | heq
  · have hunread : s.drop (k + 1) = s[k + 1] :: s.drop (k + 1 + 1) := List.drop_eq_getElem_cons hlt
    have hne' : k + 1 ≠ s.length := Nat.ne_of_lt hlt
    simp only [ahead]
    rw [hunread]
    simp [hne, hne', hlt]
  · have hunread : s.drop (k + 1) = [] := by simp [← heq]
    simp [ahead, hunread, ← heq]

theorem next_standing (hb : b ≤ k) (hk : k < s.length) :
    (standing s f b k).next = .ok (standing s f b (k + 1)) := by
  have hsize : ¬(ahead s f b (k + 1) k).i < (ahead s f b (k + 1) k).buf.size := by
    show ¬((k + 1 : Nat) : Int) - b < (((buffered s b k).length : Nat) : Int)
    rw [length_buffered (Nat.le_of_lt hk)]
    omega
  have hfetch : fetch { ahead s f b (k + 1) k with ch := s[k]? } =
      .ok { standing s f b (k + 1) with lines := (lineTable (s.take (k + 1))).toArray } := by
    unfold fetch
    rw [if_neg hsize, read_standing hk, ok_bind]
    show Except.ok { standing s f b (k + 1) with
      buf := (buffered s b k).toArray.push s[k + 1]?,
      lines := (lineTable (s.take (k + 1))).toArray } = _
    rw [List.push_toArray, buffered_succ (Nat.le_succ_of_le hb) hk]
    rfl
  unfold next standing
  rw [if_neg (ch_ahead_ne_none hk), moved_eq, hfetch, ok_bind]
  have hpos : ((k + 1 : Nat) : Int) = (s.take (k + 1)).length := by
    rw [List.length_take_of_le hk]
  rw [noteLine_read rfl hpos]
  show Except.ok { standing s f b (k + 1) with
    lines := (lineTable (s.take (k + 1) ++ (s[k + 1]?).toList)).toArray } = _
  rw [← List.take_add_one]
  rfl

theorem next_end : (standing s f b s.length).next = .ok (standing s f b s.length) := by
  unfold next
  rw [if_pos]
  show s[s.length]? = none
  simp

theorem ofFile_eq (file : OpenFile) :
    ofFile file = .ok (standing (Text.Utf8.chars file.bytes) (.ofFile file) 0 0) := by
  generalize hs : Text.Utf8.chars file.bytes = s
  unfold ofFile next
  rw [hs, if_neg (by simp)]
  cases s with
  | nil => rfl
  | cons c cs =>
    show noteLine { standing (c :: cs) (.ofFile file) 0 0 with lines := (lineTable []).toArray } = _
    rw [noteLine_read rfl rfl]
    rfl

/-- A look ahead reads one more character, and the cursor stays where it is. -/
theorem peek_standing (hb : b ≤ k) (hk : k < s.length) :
    (standing s f b k).peek = .ok (s[k + 1]?, ahead s f b k (k + 1)) := by
  have hi : (standing s f b (k + 1)).i - 1 = (k - b : Nat) := by
    show ((k + 1 : Nat) : Int) - b - 1 = _
    omega
  have helem : elemAt (standing s f b (k + 1)).buf ((standing s f b (k + 1)).i - 1) =
      .ok s[k]? := by
    rw [hi]
    exact elemAt_eq (getElem?_buffered hb (Nat.le_succ k) hk)
  have hbackup : (standing s f b (k + 1)).backup = .ok (ahead s f b k (k + 1)) := by
    unfold backup
    rw [if_pos, helem, ok_bind]
    · refine congrArg Except.ok ?_
      simp only [standing, ahead, Cursor.mk.injEq, true_and, and_true]
      omega
    · show 0 < ((k + 1 : Nat) : Int) - b
      omega
  unfold peek
  rw [if_neg (show (standing s f b k).ch ≠ none from ch_ahead_ne_none hk), next_standing hb hk,
    ok_bind, hbackup]
  rfl

theorem peek_end : (standing s f b s.length).peek = .ok (none, standing s f b s.length) := by
  unfold peek
  rw [if_pos]
  show s[s.length]? = none
  simp

theorem reset_standing (hb : b ≤ k) (hk : k ≤ s.length) :
    (standing s f b k).reset = .ok (standing s f k k) := by
  have hi : (standing s f b k).i = (k - b : Nat) := i_ahead hb
  have hdrop : (buffered s b k).drop (k - b) = buffered s k k := by
    rw [buffered, List.drop_take, List.drop_drop, Nat.add_sub_cancel' hb, buffered,
      show k + 1 - b - (k - b) = k + 1 - k by omega]
  have hslice : sliceFrom (standing s f b k).buf (standing s f b k).i =
      .ok (buffered s k k).toArray := by
    rw [hi, sliceFrom, if_pos (index_le_size hb hk)]
    show Except.ok ((buffered s b k).toArray.extract (k - b) (buffered s b k).toArray.size) = _
    rw [List.size_toArray, List.extract_toArray, List.extract_eq_take_drop, hdrop,
      List.take_of_length_le]
    rw [length_buffered hk, length_buffered hk]
    omega
  have helem : elemAt (buffered s k k).toArray (0 : Nat) = .ok s[k]? :=
    elemAt_eq (Nat.sub_self k ▸ getElem?_buffered (Nat.le_refl k) (Nat.le_refl k) hk)
  unfold reset
  rw [hslice, ok_bind, show (0 : Int) = (0 : Nat) from rfl, helem, ok_bind]
  refine congrArg Except.ok ?_
  simp [standing, ahead]

/-! ## Text and places -/

theorem taken_standing (hb : b ≤ k) (hk : k ≤ s.length) :
    (standing s f b k).taken = .ok (String.ofList ((s.drop b).take (k - b))) := by
  have hi : (standing s f b k).i = (k - b : Nat) := i_ahead hb
  have hslice : sliceTo (standing s f b k).buf (standing s f b k).i =
      .ok (((s.drop b).take (k - b)).map some).toArray := by
    rw [hi, sliceTo, if_pos (index_le_size hb hk)]
    show Except.ok ((buffered s b k).toArray.extract 0 (k - b)) = _
    rw [List.extract_toArray, List.extract_eq_take_drop, Nat.sub_zero, List.drop_zero, buffered,
      List.take_take, Nat.min_eq_left (by omega), cells,
      List.drop_append_of_le_length (by simp; omega),
      List.take_append_of_le_length (by simp; omega), List.map_take, List.map_drop]
  have hchars : ((·.getD '\uFFFD') ∘ some : Char → Char) = id := rfl
  unfold taken
  rw [hslice, ok_bind, List.map_map, hchars, List.map_id]
  rfl

theorem spanOf_standing {first last : Nat} (hle : first ≤ last) (hlast : last ≤ k)
    (hk : k ≤ s.length) :
    (standing s f b k).spanOf first last = .ok ⟨Pos.within s first, Pos.within s last⟩ :=
  spanOf_eq_within rfl hle (Nat.le_succ_of_le hlast) (Nat.le_trans hlast hk)

end TypedLambda.Cursor
