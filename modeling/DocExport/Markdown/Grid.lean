import DocExport.Text.Chars

/-!
# Tables as grids

A table is written as a grid of cells between bars: the columns are as wide as their widest
cell, and a row of dashes under the first row makes it the header.  Rows may have fewer cells
than the widest row; the missing ones are empty.

* **Main results.** `Grid.markdown` writes a grid, `Grid.columns_eq` says how many columns it has,
  and `Grid.length_padded` that padding brings a cell to the width of its column, which
  `Grid.length_le_width` says no cell exceeds.
-/

namespace DocExport.Grid

/-- The text of a cell as it stands between bars: on one line, its own bars escaped. -/
def cell (cs : List Char) : List Char :=
  Text.replace '|' ['\\', '|'] (Text.replace '\n' [' '] cs)

/-- The number of columns: the number of cells in the longest row. -/
def columns (rows : List (List (List Char))) : Nat := (rows.map List.length).foldl max 0

/-- The width of a column: that of its widest cell, and at least three. -/
def width (rows : List (List (List Char))) (column : Nat) : Nat :=
  (rows.map fun row => (row.getD column []).length).foldl max 3

/-- The widths of all columns. -/
def widths (rows : List (List (List Char))) : List Nat :=
  (List.range (columns rows)).map (width rows)

/-- A cell with spaces after it up to the width of its column. -/
def padded (w : Nat) (cs : List Char) : List Char := cs ++ List.replicate (w - cs.length) ' '

/-- A line of cells between bars. -/
def line (cells : List (List Char)) : List Char :=
  '|' :: cells.flatMap fun cs => ' ' :: cs ++ [' ', '|']

/-- A row of a table; the cells it does not have are empty. -/
def row (ws : List Nat) (cells : List (List Char)) : List Char :=
  line (ws.mapIdx fun i w => padded w (cells.getD i []))

/-- The line of dashes under the header. -/
def rule (ws : List Nat) : List Char := line (ws.map fun w => List.replicate w '-')

/-- The lines of a table. -/
def lines (rows : List (List (List Char))) : List (List Char) :=
  let ws := widths rows
  match rows with
  | [] => []
  | header :: others => row ws header :: rule ws :: others.map (row ws)

/-- A table as Markdown; without any cell there is nothing to write. -/
def markdown (rows : List (List (List Char))) : List Char :=
  if columns rows = 0 then [] else List.intercalate ['\n'] (lines rows)

theorem foldl_max_le_iff {ns : List Nat} {n bound : Nat} :
    ns.foldl max n ≤ bound ↔ n ≤ bound ∧ ∀ m ∈ ns, m ≤ bound := by
  induction ns generalizing n with
  | nil => simp
  | cons m ns ih =>
    rw [List.foldl_cons, ih, Nat.max_le, and_assoc, List.forall_mem_cons]

/-- There are as many columns as the longest row has cells. -/
theorem columns_eq {rows : List (List (List Char))} {n : Nat} (hrow : ∃ row ∈ rows, row.length = n)
    (hmost : ∀ row ∈ rows, row.length ≤ n) : columns rows = n := by
  apply Nat.le_antisymm
  · refine foldl_max_le_iff.2 ⟨Nat.zero_le n, fun m hm => ?_⟩
    obtain ⟨row, hmem, rfl⟩ := List.mem_map.1 hm
    exact hmost row hmem
  · obtain ⟨row, hmem, rfl⟩ := hrow
    exact (foldl_max_le_iff.1 (Nat.le_refl _)).2 _ (List.mem_map_of_mem hmem)

/-- No cell is wider than its column. -/
theorem length_le_width {rows : List (List (List Char))} {row : List (List Char)} (h : row ∈ rows)
    (column : Nat) : (row.getD column []).length ≤ width rows column :=
  (foldl_max_le_iff.1 (Nat.le_refl _)).2 _
    (List.mem_map_of_mem (f := fun row => (row.getD column []).length) h)

/-- Padding brings a cell that fits to the width of its column. -/
theorem length_padded {w : Nat} {cs : List Char} (h : cs.length ≤ w) :
    (padded w cs).length = w := by
  rw [padded, List.length_append, List.length_replicate]
  omega

end DocExport.Grid
