/-!
# Aligned columns

Text whose tabs end cells is laid out in columns. A column is a run of adjacent lines that have a
cell there; each of its cells is padded to one more than the widest. What follows the last tab of
a line belongs to no column and is not padded. A vertical tab ends a cell as a tab does, and a form
feed ends a line and every column with it.
-/

namespace TypedLambda.Text.Columns

/-- A line of text, cut at its tabs. The last cell belongs to no column. -/
abbrev Line := List (List Char)

def cells : List Char → Line
  | [] => [[]]
  | c :: cs =>
    if c == '\t' || c == '\x0b' then [] :: cells cs
    else
      match cells cs with
      | cell :: rest => (c :: cell) :: rest
      | [] => [[c]]

/-- Whether a line has a cell in the first column. -/
def Line.hasColumn (line : Line) : Bool := 2 ≤ line.length

/-- The width of a column that begins the given lines: one more than its widest cell. -/
def width (lines : List Line) : Nat :=
  (lines.map fun line => (line.headD []).length).foldl max 0 + 1

def pad (width : Nat) (cell : List Char) : List Char :=
  cell ++ List.replicate (width - cell.length) ' '

/-- The number of cells in some lines, each line counting for one more. -/
def extent (lines : List Line) : Nat := lines.flatten.length + lines.length

theorem extent_cons (line : Line) (lines : List Line) :
    extent (line :: lines) = line.length + 1 + extent lines := by
  simp only [extent, List.flatten_cons, List.length_append, List.length_cons]
  omega

theorem extent_append (lines lines' : List Line) :
    extent (lines ++ lines') = extent lines + extent lines' := by
  simp only [extent, List.flatten_append, List.length_append]
  omega

theorem extent_takeWhile_add_dropWhile (p : Line → Bool) (lines : List Line) :
    extent (lines.takeWhile p) + extent (lines.dropWhile p) = extent lines := by
  rw [← extent_append, List.takeWhile_append_dropWhile]

theorem extent_map_tail_le (lines : List Line) : extent (lines.map List.tail) ≤ extent lines := by
  induction lines with
  | nil => exact Nat.le_refl _
  | cons line rest ih =>
    rw [List.map_cons, extent_cons, extent_cons, List.length_tail]
    omega

/-- The lines of one block, laid out from their first column on. -/
def layout : List Line → List (List Char)
  | [] => []
  | line :: rest =>
    if line.hasColumn then
      let run := line :: rest.takeWhile Line.hasColumn
      let w := width run
      let tails := layout (line.tail :: (rest.takeWhile Line.hasColumn).map List.tail)
      List.zipWith (fun cell tail => pad w cell ++ tail) (run.map (·.headD [])) tails ++
        layout (rest.dropWhile Line.hasColumn)
    else line.headD [] :: layout rest
termination_by lines => extent lines
decreasing_by
  · rename_i h
    have h₁ := extent_takeWhile_add_dropWhile Line.hasColumn rest
    have h₂ := extent_map_tail_le (rest.takeWhile Line.hasColumn)
    simp only [Line.hasColumn, decide_eq_true_eq] at h
    rw [extent_cons, extent_cons, List.length_tail]
    omega
  · have h₁ := extent_takeWhile_add_dropWhile Line.hasColumn rest
    rw [extent_cons]
    omega
  · rw [extent_cons]
    omega

/-- Cut a list wherever `p` holds, leaving out the elements at which it is cut. -/
def splitWhere {α : Type} (p : α → Bool) : List α → List (List α)
  | [] => [[]]
  | a :: as =>
    if p a then [] :: splitWhere p as
    else
      match splitWhere p as with
      | first :: rest => (a :: first) :: rest
      | [] => [[a]]

end TypedLambda.Text.Columns

namespace TypedLambda.Text

def alignColumns (text : String) : String :=
  let blocks := Columns.splitWhere (· == '\x0c') text.toList
  let laidOut := blocks.flatMap fun block =>
    Columns.layout ((Columns.splitWhere (· == '\n') block).map Columns.cells)
  String.intercalate "\n" (laidOut.map String.ofList)

end TypedLambda.Text
