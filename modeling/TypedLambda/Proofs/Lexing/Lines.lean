import Mathlib.Data.List.Induction
import TypedLambda.Proofs.Lexing.Lossless
import TypedLambda.Token.Cursor

/-!
# Lines and places

The table of a cursor holds the offsets at which the lines of the text start that was read so far,
in ascending order (`lineTable`). A binary search in it finds the line of an offset, also when the
table has lines that start after that offset. So the places that a cursor computes are those that
the text determines: `Cursor.posOf_eq_within`.
-/

namespace TypedLambda

/-! ## The table -/

/-- The offsets after the newlines of a text that stands at an offset. -/
def lineStarts (offset : Int) : List Char → List Int
  | [] => []
  | c :: cs =>
    if c = '\n' then (offset + 1) :: lineStarts (offset + 1) cs else lineStarts (offset + 1) cs

def lineTable (cs : List Char) : List Int := 0 :: lineStarts 0 cs

theorem lineStarts_append (offset : Int) (cs ds : List Char) :
    lineStarts offset (cs ++ ds) = lineStarts offset cs ++ lineStarts (offset + cs.length) ds := by
  induction cs generalizing offset with
  | nil => simp [lineStarts]
  | cons c cs ih =>
    have hoffset : offset + 1 + (cs.length : Int) = offset + ((c :: cs).length : Nat) := by
      rw [List.length_cons]
      omega
    simp only [List.cons_append, lineStarts, ih, hoffset]
    split <;> rfl

theorem lineTable_append (cs ds : List Char) :
    lineTable (cs ++ ds) = lineTable cs ++ lineStarts cs.length ds := by
  rw [lineTable, lineStarts_append, Int.zero_add]
  rfl

theorem lt_of_mem_lineStarts {offset x : Int} {cs : List Char} (h : x ∈ lineStarts offset cs) :
    offset < x := by
  induction cs generalizing offset with
  | nil => cases h
  | cons c cs ih =>
    have hlater : x ∈ lineStarts (offset + 1) cs → offset < x := by
      intro hx
      have hlt := ih hx
      omega
    unfold lineStarts at h
    split at h
    · rcases List.mem_cons.mp h with rfl | hx
      · omega
      · exact hlater hx
    · exact hlater h

def lastLine (cs : List Char) : Int :=
  (cs.length : Int) - (cs.reverse.takeWhile (· != '\n')).length

theorem lastLine_le (cs : List Char) : lastLine cs ≤ cs.length := by
  unfold lastLine
  omega

theorem lastLine_newline (cs : List Char) : lastLine (cs ++ ['\n']) = cs.length + 1 := by
  simp [lastLine]

theorem lastLine_append {c : Char} (hc : c ≠ '\n') (cs : List Char) :
    lastLine (cs ++ [c]) = lastLine cs := by
  simp only [lastLine, List.reverse_append, List.reverse_singleton, List.singleton_append,
    List.takeWhile_cons_of_pos (p := (· != '\n')) (a := c) (by simp [hc]), List.length_append,
    List.length_cons, List.length_nil]
  omega

theorem lt_lastLine {cs : List Char} {k : Nat} (h : cs[k]? = some '\n') :
    (k : Int) < lastLine cs := by
  induction cs using List.reverseRecOn with
  | nil => cases h
  | append_singleton cs c ih =>
    have hk : k < (cs ++ [c]).length := (List.getElem?_eq_some_iff.mp h).1
    rw [List.length_append, List.length_singleton] at hk
    by_cases hc : c = '\n'
    · subst hc
      rw [lastLine_newline]
      omega
    · have hlt : k < cs.length := by
        refine Nat.lt_of_le_of_ne (Nat.le_of_lt_succ hk) fun heq => hc ?_
        subst heq
        simpa using h
      rw [lastLine_append hc]
      exact ih ((List.getElem?_append_left hlt).symm.trans h)

/-- The table ends with the start of the last line, and has as many earlier starts as there are
newlines. -/
theorem exists_lineTable_eq (cs : List Char) :
    ∃ front, lineTable cs = front ++ [lastLine cs] ∧ front.length = cs.count '\n' ∧
      ∀ x ∈ front, x < lastLine cs := by
  induction cs using List.reverseRecOn with
  | nil => exact ⟨[], rfl, rfl, List.forall_mem_nil _⟩
  | append_singleton cs c ih =>
    obtain ⟨front, htable, hcount, hfront⟩ := ih
    rw [lineTable_append, htable]
    by_cases hc : c = '\n'
    · subst hc
      rw [lastLine_newline]
      refine ⟨front ++ [lastLine cs], rfl, by simp [hcount], ?_⟩
      have hlast := lastLine_le cs
      intro x hx
      rcases List.mem_append.mp hx with hx | hx
      · have hlt := hfront x hx
        omega
      · obtain rfl := List.mem_singleton.mp hx
        omega
    · rw [lastLine_append hc]
      refine ⟨front, ?_, ?_, hfront⟩
      · simp [lineStarts, hc]
      · simp [hcount, hc]

theorem exists_lineTable_split {s : List Char} {offset m : Nat} (hm : offset ≤ m)
    (hs : offset ≤ s.length) :
    ∃ front later, lineTable (s.take m) = front ++ lastLine (s.take offset) :: later ∧
      Pos.within s offset =
        ⟨offset, front.length + 1, offset - lastLine (s.take offset) + 1⟩ ∧
      (∀ x ∈ front, x < lastLine (s.take offset)) ∧ ∀ x ∈ later, (offset : Int) < x := by
  obtain ⟨front, htable, hcount, hfront⟩ := exists_lineTable_eq (s.take offset)
  have hlength : (s.take offset).length = offset := List.length_take_of_le hs
  refine ⟨front, lineStarts offset ((s.take m).drop offset), ?_, ?_, hfront, ?_⟩
  · have hsplit := List.take_append_drop offset (s.take m)
    rw [List.take_take, Nat.min_eq_left hm] at hsplit
    calc lineTable (s.take m)
        = lineTable (s.take offset ++ (s.take m).drop offset) := by rw [hsplit]
      _ = _ := by rw [lineTable_append, htable, hlength, List.append_assoc]; rfl
  · unfold Pos.within
    rw [hcount, lastLine, hlength]
    congr 1 <;> omega
  · exact fun x hx => lt_of_mem_lineStarts hx

/-! ## Finding a place -/

namespace Cursor

variable {α : Type}

theorem ok_bind {β : Type} (a : α) (f : α → Except Fault β) : Except.ok a >>= f = f a := rfl

theorem elemAt_eq {xs : List α} {i : Nat} {x : α} (h : xs[i]? = some x) :
    elemAt xs.toArray i = .ok x := by
  have hi : ¬(i : Int) < 0 := by omega
  simp [elemAt, hi, h]

theorem elemAt_last (xs : List α) (x : α) :
    elemAt (xs ++ [x]).toArray ((xs ++ [x]).toArray.size - 1) = .ok x := by
  have hindex : (((xs ++ [x]).toArray.size : Nat) : Int) - 1 = (xs.length : Nat) := by
    simp
  rw [hindex]
  exact elemAt_eq (by simp)

/-- A binary search finds where the starts are no longer before the offset. -/
theorem findLine_eq {offset : Int} {front back : List Int} (hfront : ∀ x ∈ front, x < offset)
    (hback : ∀ x ∈ back, offset ≤ x) {lo hi : Nat} (hlo : lo ≤ front.length)
    (hhi : front.length ≤ hi) (hsize : hi ≤ (front ++ back).length) :
    findLine (front ++ back).toArray offset lo hi = .ok front.length := by
  induction hn : hi - lo using Nat.strongRecOn generalizing lo hi with
  | ind n ih =>
    unfold findLine
    by_cases hlt : lo < hi
    · rw [if_pos hlt]
      have hmid : (lo + hi) / 2 < (front ++ back).length := by omega
      rw [elemAt_eq (List.getElem?_eq_getElem hmid)]
      show (if (front ++ back)[(lo + hi) / 2] < offset then _ else _) = _
      rcases Nat.lt_or_ge ((lo + hi) / 2) front.length with hfirst | hsecond
      · rw [if_pos, ih (hi - ((lo + hi) / 2 + 1)) (by omega) hfirst hhi hsize rfl]
        rw [List.getElem_append_left hfirst]
        exact hfront _ (List.getElem_mem hfirst)
      · rw [if_neg, ih ((lo + hi) / 2 - lo) (by omega) hlo hsecond (by omega) rfl]
        rw [List.getElem_append_right hsecond, Int.not_lt]
        exact hback _ (List.getElem_mem _)
    · rw [if_neg hlt]
      obtain rfl : lo = front.length := by omega
      rfl

variable {c : Cursor} {front later : List Int} {start offset : Int}

theorem lineIndex_eq (hlines : c.lines = (front ++ start :: later).toArray)
    (hfront : ∀ x ∈ front, x < start) (hstart : start ≤ offset) (hlater : ∀ x ∈ later, offset < x) :
    c.lineIndex offset = .ok front.length := by
  unfold lineIndex
  rw [hlines, List.size_toArray]
  rcases Int.lt_or_eq_of_le hstart with hlt | rfl
  · -- The search stops after the line of the offset, at a start that is a later one.
    have hbefore : ∀ x ∈ front ++ [start], x < offset := by
      intro x hx
      rcases List.mem_append.mp hx with hx | hx
      · exact Int.lt_trans (hfront x hx) hlt
      · obtain rfl := List.mem_singleton.mp hx
        exact hlt
    have hfind := findLine_eq hbefore (fun x hx => Int.le_of_lt (hlater x hx)) (Nat.zero_le _)
      (by simp) (Nat.le_refl ((front ++ [start]) ++ later).length)
    rw [List.append_assoc, List.singleton_append] at hfind
    rw [hfind, List.length_append, List.length_singleton]
    cases later with
    | nil =>
      rw [ok_bind, if_neg (by simp)]
      exact congrArg Except.ok (by omega)
    | cons next later =>
      have helem : elemAt (front ++ start :: next :: later).toArray (front.length + 1 : Nat) =
          .ok next :=
        elemAt_eq (by simp)
      have hne : next ≠ offset := Int.ne_of_gt (hlater next (by simp))
      rw [ok_bind, if_pos (by simp), helem, ok_bind, if_neg hne]
      exact congrArg Except.ok (by omega)
  · have hat : ∀ x ∈ start :: later, start ≤ x := by
      intro x hx
      rcases List.mem_cons.mp hx with rfl | hx
      · exact Int.le_refl _
      · exact Int.le_of_lt (hlater x hx)
    have helem : elemAt (front ++ start :: later).toArray front.length = .ok start :=
      elemAt_eq (by simp)
    rw [findLine_eq hfront hat (Nat.zero_le _) (by simp) (Nat.le_refl _), ok_bind,
      if_pos (by simp), helem, ok_bind, if_pos rfl]
    rfl

theorem posOf_eq (hlines : c.lines = (front ++ start :: later).toArray)
    (hfront : ∀ x ∈ front, x < start) (hstart : start ≤ offset) (hlater : ∀ x ∈ later, offset < x) :
    c.posOf offset = .ok ⟨offset, front.length + 1, offset - start + 1⟩ := by
  have helem : elemAt c.lines (front.length : Nat) = .ok start := by
    rw [hlines]
    exact elemAt_eq (by simp)
  unfold posOf
  rw [lineIndex_eq hlines hfront hstart hlater, ok_bind, helem]
  rfl

/-- **The places of a cursor are true** for each offset of the text that was read. -/
theorem posOf_eq_within {s : List Char} {offset m : Nat}
    (hlines : c.lines = (lineTable (s.take m)).toArray) (hm : offset ≤ m) (hs : offset ≤ s.length) :
    c.posOf offset = .ok (Pos.within s offset) := by
  obtain ⟨front, later, htable, hwithin, hfront, hlater⟩ := exists_lineTable_split hm hs
  rw [htable] at hlines
  have hstart := lastLine_le (s.take offset)
  rw [List.length_take_of_le hs] at hstart
  rw [hwithin]
  exact posOf_eq hlines hfront hstart hlater

theorem spanOf_eq_within {s : List Char} {first last m : Nat}
    (hlines : c.lines = (lineTable (s.take m)).toArray) (hle : first ≤ last) (hm : last ≤ m)
    (hs : last ≤ s.length) :
    c.spanOf first last = .ok ⟨Pos.within s first, Pos.within s last⟩ := by
  unfold spanOf
  rw [posOf_eq_within hlines (Nat.le_trans hle hm) (Nat.le_trans hle hs), ok_bind]
  rcases Nat.lt_or_eq_of_le hle with hlt | rfl
  · rw [if_neg (by omega), posOf_eq_within hlines hm hs]
    rfl
  · rw [if_pos (Int.le_refl _)]
    rfl

end Cursor

end TypedLambda
