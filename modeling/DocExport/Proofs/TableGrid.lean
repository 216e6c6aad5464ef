import DocExport.Markdown.Flow
import Mathlib.Data.List.Induction

/-!
# Tables read back

A reader of a table takes its lines one by one, leaves out the one of dashes, and cuts each of the
others at its bars.  A bar with a backslash directly before it is part of a cell, so cells may hold
bars of their own.  Blanks that fill a cell up to the width of its column are not told apart from
blanks that end the cell; everything else of a cell is found again.

* **Main results.** `segmentsAfter_append` and `segments_line` (a line is cut into its cells),
  `cellText_segment` (a cell is read back), `isGrid_markdown` (a table is a grid of what its cells
  read) and `Node.isGrid_write_table` (the same of the tables of a document).
-/

namespace DocExport

open Text

namespace Grid

/-! ## Reading -/

/-- How many bars of a line have no backslash directly before them; `slash` says whether one stands
before the line. -/
def freeBarsAfter (slash : Bool) : List Char → Nat
  | [] => 0
  | c :: cs =>
      if c = '|' ∧ slash = false then freeBarsAfter (c == '\\') cs + 1
      else freeBarsAfter (c == '\\') cs

/-- How many bars of a line have no backslash directly before them. -/
def freeBars (line : List Char) : Nat := freeBarsAfter false line

/-- What stands between such bars; `slash` says whether a backslash stands before the line. -/
def segmentsAfter (slash : Bool) : List Char → List (List Char)
  | [] => [[]]
  | c :: cs =>
      if c = '|' ∧ slash = false then [] :: segmentsAfter (c == '\\') cs
      else (segmentsAfter (c == '\\') cs).modifyHead (c :: ·)

/-- What stands between the bars of a line, before the first and after the last of them. -/
def segments (line : List Char) : List (List Char) := segmentsAfter false line

/-- A text with a bar for every bar that has a backslash directly before it, without the
backslash. -/
def unescapeBars : List Char → List Char
  | [] => []
  | [c] => [c]
  | c :: d :: cs =>
      if c = '\\' ∧ d = '|' then '|' :: unescapeBars cs else c :: unescapeBars (d :: cs)

/-- The text of a cell, read off what stands between two bars: the first space and all spaces at
the end belong to the grid. -/
def cellText (segment : List Char) : List Char :=
  unescapeBars (dropEnd ' ' (if segment.head? = some ' ' then segment.tail else segment))

/-- The texts of the cells of a line. -/
def readLine (line : List Char) : List (List Char) := (segments line).tail.dropLast.map cellText

/-- The texts of the cells of a table; its second line is not a row. -/
def readTable (written : List Char) : List (List (List Char)) :=
  ((pieces written).eraseIdx 1).map readLine

/-- Some Markdown is a table with the given number of columns, which reads as the given texts of
its cells. -/
structure IsGrid (written : List Char) (columns : Nat) (texts : List (List (List Char))) :
    Prop where
  /-- There is one line for every row and one for the rule. -/
  length_lines : (pieces written).length = texts.length + 1
  /-- All lines are equally long. -/
  aligned : ∃ width, ∀ line ∈ pieces written, line.length = width
  /-- Every line has a bar before each column and one after the last. -/
  bars : ∀ line ∈ pieces written, freeBars line = columns + 1
  cells : readTable written = texts

/-! ## Cutting lines at bars -/

/-- A line is cut at each of its bars. -/
theorem length_segmentsAfter (slash : Bool) (cs : List Char) :
    (segmentsAfter slash cs).length = freeBarsAfter slash cs + 1 := by
  induction cs generalizing slash with
  | nil => rfl
  | cons c cs ih =>
    rw [segmentsAfter, freeBarsAfter]
    split
    · rw [List.length_cons, ih]
    · rw [List.length_modifyHead, ih]

theorem freeBarsAfter_of_not_mem {slash : Bool} {cs : List Char} (h : '|' ∉ cs) :
    freeBarsAfter slash cs = 0 := by
  induction cs generalizing slash with
  | nil => rfl
  | cons c cs ih =>
    rw [List.mem_cons, not_or] at h
    rw [freeBarsAfter, if_neg fun hc => h.1 hc.1.symm, ih h.2]

theorem freeBarsAfter_append {slash : Bool} {xs ys : List Char} (h : '|' ∉ ys) :
    freeBarsAfter slash (xs ++ ys) = freeBarsAfter slash xs := by
  induction xs generalizing slash with
  | nil => exact freeBarsAfter_of_not_mem h
  | cons c cs ih => rw [List.cons_append, freeBarsAfter, freeBarsAfter, ih]

/-- The first bar after some text ends the first segment. -/
theorem segmentsAfter_append {slash : Bool} {cs : List Char} (h : freeBarsAfter slash cs = 0)
    (rest : List Char) :
    segmentsAfter slash (cs ++ ' ' :: '|' :: rest) =
      (cs ++ [' ']) :: segmentsAfter false rest := by
  induction cs generalizing slash with
  | nil => rfl
  | cons c cs ih =>
    rw [freeBarsAfter] at h
    split at h
    · exact absurd h (Nat.succ_ne_zero _)
    · rename_i hc
      rw [List.cons_append, segmentsAfter, if_neg hc, ih h]
      rfl

/-- A line of cells is cut into what stands around each of them. -/
theorem segments_line {cells : List (List Char)} (h : ∀ cs ∈ cells, freeBarsAfter false cs = 0) :
    segments (line cells) = [] :: (cells.map fun cs => ' ' :: cs ++ [' ']) ++ [[]] := by
  have hcells : segmentsAfter false (cells.flatMap fun cs => ' ' :: cs ++ [' ', '|']) =
      (cells.map fun cs => ' ' :: cs ++ [' ']) ++ [[]] := by
    induction cells with
    | nil => rfl
    | cons cs cells ih =>
      have hcs : freeBarsAfter false (' ' :: cs) = 0 := h cs List.mem_cons_self
      have hline : (' ' :: cs ++ [' ', '|']) ++ (cells.flatMap fun cs => ' ' :: cs ++ [' ', '|']) =
          ' ' :: cs ++ ' ' :: '|' :: cells.flatMap fun cs => ' ' :: cs ++ [' ', '|'] := by
        simp
      rw [List.flatMap_cons, hline, segmentsAfter_append hcs,
        ih fun d hd => h d (List.mem_cons_of_mem _ hd)]
      rfl
  rw [segments, line, segmentsAfter, if_pos ⟨rfl, rfl⟩]
  exact congrArg ([] :: ·) hcells

theorem freeBars_line {cells : List (List Char)} (h : ∀ cs ∈ cells, freeBarsAfter false cs = 0) :
    freeBars (line cells) = cells.length + 1 := by
  have hlength := length_segmentsAfter false (line cells)
  rw [← segments, segments_line h, List.length_append, List.length_cons, List.length_map] at hlength
  exact (Nat.add_right_cancel hlength).symm

/-! ## Reading cells -/

/-- Bars that are escaped are no places to cut at. -/
theorem freeBarsAfter_replace (slash : Bool) (cs : List Char) :
    freeBarsAfter slash (replace '|' ['\\', '|'] cs) = 0 := by
  induction cs generalizing slash with
  | nil => rfl
  | cons c cs ih =>
    by_cases hc : c = '|'
    · rw [hc, replace_cons_self]
      exact ih _
    · rw [replace_cons_of_ne hc, freeBarsAfter, if_neg fun h => hc h.1, ih]

/-- A text with its bars escaped does not begin with a bar. -/
theorem head?_replace_ne (cs : List Char) : (replace '|' ['\\', '|'] cs).head? ≠ some '|' := by
  cases cs with
  | nil => exact nofun
  | cons c cs =>
    by_cases hc : c = '|'
    · rw [hc, replace_cons_self]
      exact fun h => absurd (Option.some.inj h) (by decide)
    · rw [replace_cons_of_ne hc]
      exact fun h => hc (Option.some.inj h)

theorem unescapeBars_cons {c : Char} {cs : List Char} (h : cs.head? ≠ some '|') :
    unescapeBars (c :: cs) = c :: unescapeBars cs := by
  cases cs with
  | nil => rfl
  | cons d cs => rw [unescapeBars, if_neg fun hd => h (congrArg some hd.2)]

/-- Escaped bars are read as bars. -/
theorem unescapeBars_replace (cs : List Char) :
    unescapeBars (replace '|' ['\\', '|'] cs) = cs := by
  induction cs with
  | nil => rfl
  | cons c cs ih =>
    by_cases hc : c = '|'
    · rw [hc, replace_cons_self]
      exact congrArg ('|' :: ·) ih
    · rw [replace_cons_of_ne hc, unescapeBars_cons (head?_replace_ne cs), ih]

/-- Escaping bars changes nothing about the spaces at the end. -/
theorem dropEnd_replace (cs : List Char) :
    dropEnd ' ' (replace '|' ['\\', '|'] cs) =
      replace '|' ['\\', '|'] (dropEnd ' ' cs) := by
  refine reverse_dropWhile_flatMap (fun c hc => ?_) (fun c => ?_) cs
  · have hbar : c ≠ '|' := by
      rintro rfl
      exact nomatch hc
    exact if_neg hbar
  · by_cases hbar : c = '|'
    · exact ⟨['\\'], by rw [if_pos hbar, hbar]; rfl⟩
    · exact ⟨[], by rw [if_neg hbar]; rfl⟩

/-- A cell in its column is read back but for the spaces at its end. -/
theorem cellText_segment (w : Nat) (cs : List Char) :
    cellText (' ' :: padded w (cell cs) ++ [' ']) = dropEnd ' ' (replace '\n' [' '] cs) := by
  have hspaces : ∀ c ∈ List.replicate (w - (cell cs).length) ' ' ++ [' '], c = ' ' := by
    intro c hc
    rcases List.mem_append.1 hc with h | h
    · exact List.eq_of_mem_replicate h
    · exact List.mem_singleton.1 h
  have hsegment : cellText (' ' :: padded w (cell cs) ++ [' ']) =
      unescapeBars (dropEnd ' ' (cell cs)) := by
    rw [cellText, List.cons_append, List.head?_cons, if_pos rfl, List.tail_cons, padded,
      List.append_assoc, dropEnd_append hspaces]
  rw [hsegment, cell, dropEnd_replace, unescapeBars_replace]

/-! ## Lines of a table -/

theorem readLine_line {cells : List (List Char)} (h : ∀ cs ∈ cells, freeBarsAfter false cs = 0) :
    readLine (line cells) = cells.map fun cs => cellText (' ' :: cs ++ [' ']) := by
  rw [readLine, segments_line h, List.cons_append, List.tail_cons, List.dropLast_concat,
    List.map_map]
  rfl

/-- A line of a table whose columns have the given widths: between its bars stand cells that fill
the columns and hold neither bars to cut at nor line feeds. -/
def IsLine (ws : List Nat) (l : List Char) : Prop :=
  ∃ cells, l = line cells ∧ cells.map List.length = ws ∧
    ∀ cs ∈ cells, freeBarsAfter false cs = 0 ∧ '\n' ∉ cs

/-- All lines of a table are equally long. -/
theorem IsLine.length_eq {ws : List Nat} {l l' : List Char} (h : IsLine ws l) (h' : IsLine ws l') :
    l.length = l'.length := by
  obtain ⟨cells, rfl, hws, -⟩ := h
  obtain ⟨cells', rfl, hws', -⟩ := h'
  -- around each cell stand a bar and two spaces
  have hlength : ∀ cells : List (List Char),
      (line cells).length = ((cells.map List.length).map (· + 3)).sum + 1 := by
    intro cells
    rw [line, List.length_cons, List.length_flatMap, List.map_map]
    congr 2
    refine List.map_congr_left fun cs _ => ?_
    rw [List.length_append, List.length_cons]
    rfl
  rw [hlength, hlength, hws, hws']

theorem IsLine.freeBars_eq {ws : List Nat} {l : List Char} (h : IsLine ws l) :
    freeBars l = ws.length + 1 := by
  obtain ⟨cells, rfl, rfl, hcells⟩ := h
  rw [freeBars_line fun cs hcs => (hcells cs hcs).1, List.length_map]

/-- No line feed is in a line of a table. -/
theorem IsLine.not_mem {ws : List Nat} {l : List Char} (h : IsLine ws l) : '\n' ∉ l := by
  obtain ⟨cells, rfl, -, hcells⟩ := h
  intro hmem
  rw [line, List.mem_cons, List.mem_flatMap] at hmem
  obtain hbar | ⟨cs, hcs, hmem⟩ := hmem
  · exact absurd hbar (by decide)
  · rw [List.mem_append, List.mem_cons] at hmem
    obtain (hspace | hcell) | hend := hmem
    · exact absurd hspace (by decide)
    · exact (hcells cs hcs).2 hcell
    · exact absurd hend (by decide)

theorem freeBarsAfter_padded (w : Nat) (cs : List Char) :
    freeBarsAfter false (padded w (cell cs)) = 0 := by
  rw [padded, cell, freeBarsAfter_append fun h => absurd (List.eq_of_mem_replicate h) (by decide)]
  exact freeBarsAfter_replace false _

/-- Nor does it hold a line feed. -/
theorem not_mem_padded (w : Nat) (cs : List Char) : '\n' ∉ padded w (cell cs) := by
  intro hmem
  obtain hcell | hspace := List.mem_append.1 hmem
  · obtain hescape | ⟨hline, -⟩ := mem_of_mem_replace hcell
    · exact absurd hescape (by decide)
    · obtain hspace | ⟨-, hne⟩ := mem_of_mem_replace hline
      · exact absurd hspace (by decide)
      · exact hne rfl
  · exact absurd (List.eq_of_mem_replicate hspace) (by decide)

/-! ## Tables -/

/-- Changing the cells of a table changes nothing about which rows are the longest. -/
theorem longest_map {α β : Type} (f : α → β) {rows : List (List α)} {n : Nat}
    (hrow : ∃ cells ∈ rows, cells.length = n) (hmost : ∀ cells ∈ rows, cells.length ≤ n) :
    (∃ cells ∈ rows.map (List.map f), cells.length = n) ∧
      ∀ cells ∈ rows.map (List.map f), cells.length ≤ n := by
  refine ⟨?_, fun cells hcells => ?_⟩
  · obtain ⟨cells, hmem, hlength⟩ := hrow
    exact ⟨cells.map f, List.mem_map_of_mem hmem, by rw [List.length_map, hlength]⟩
  · obtain ⟨cells, hmem, rfl⟩ := List.mem_map.1 hcells
    rw [List.length_map]
    exact hmost cells hmem

section Table

variable (rows : List (List (List Char)))

/-- The rows of a table as its grid holds them. -/
def grid : List (List (List Char)) := rows.map (List.map cell)

/-- The cells of a row, each in its column; those that the row does not have are empty. -/
def rowCells (cells : List (List Char)) : List (List Char) :=
  (List.range (columns (grid rows))).map fun i =>
    padded (width (grid rows) i) (cell (cells.getD i []))

/-- The text that is read in a column of a row: that of its cell on one line and without the spaces
at its end, or nothing where the row has no cell. -/
def textAt (cells : List (List Char)) (i : Nat) : List Char :=
  dropEnd ' ' (replace '\n' [' '] (cells.getD i []))

theorem getD_map_cell (cells : List (List Char)) (i : Nat) :
    (cells.map cell).getD i [] = cell (cells.getD i []) := by
  rw [List.getD_eq_getElem?_getD, List.getD_eq_getElem?_getD, List.getElem?_map]
  cases cells[i]? <;> rfl

/-- A row as a line of cells. -/
theorem row_eq_line (cells : List (List Char)) :
    row (widths (grid rows)) (cells.map cell) = line (rowCells rows cells) := by
  rw [row, rowCells, widths]
  congr 1
  apply List.ext_getElem
  · simp
  · intro i _ _
    simp only [List.getElem_mapIdx, List.getElem_map, List.getElem_range, getD_map_cell]

theorem free_of_mem_rowCells {cells : List (List Char)} {cs : List Char}
    (h : cs ∈ rowCells rows cells) : freeBarsAfter false cs = 0 ∧ '\n' ∉ cs := by
  obtain ⟨i, -, rfl⟩ := List.mem_map.1 h
  exact ⟨freeBarsAfter_padded _ _, not_mem_padded _ _⟩

/-- A row of the table is a line of it. -/
theorem isLine_row {cells : List (List Char)} (h : cells ∈ rows) :
    IsLine (widths (grid rows)) (row (widths (grid rows)) (cells.map cell)) := by
  refine ⟨rowCells rows cells, row_eq_line rows cells, ?_, fun cs => free_of_mem_rowCells rows⟩
  rw [rowCells, widths, List.map_map]
  refine List.map_congr_left fun i _ => length_padded ?_
  rw [← getD_map_cell]
  exact length_le_width (List.mem_map_of_mem h) i

/-- So is the rule. -/
theorem isLine_rule : IsLine (widths (grid rows)) (rule (widths (grid rows))) := by
  refine ⟨_, rfl, ?_, ?_⟩
  · rw [List.map_map]
    exact (List.map_congr_left fun w _ => List.length_replicate).trans (List.map_id _)
  · intro cs hcs
    obtain ⟨w, -, rfl⟩ := List.mem_map.1 hcs
    exact ⟨freeBarsAfter_of_not_mem fun h => absurd (List.eq_of_mem_replicate h) (by decide),
      fun h => absurd (List.eq_of_mem_replicate h) (by decide)⟩

/-- A table has no other lines. -/
theorem isLine_of_mem_lines {l : List Char} (h : l ∈ lines (grid rows)) :
    IsLine (widths (grid rows)) l := by
  cases rows with
  | nil => exact absurd h List.not_mem_nil
  | cons first others =>
    rcases List.mem_cons.1 h with rfl | h
    · exact isLine_row _ List.mem_cons_self
    rcases List.mem_cons.1 h with rfl | h
    · exact isLine_rule _
    · rw [List.map_map] at h
      obtain ⟨cells, hcells, rfl⟩ := List.mem_map.1 h
      exact isLine_row _ (List.mem_cons_of_mem _ hcells)

theorem eraseIdx_lines :
    (lines (grid rows)).eraseIdx 1 = (grid rows).map (row (widths (grid rows))) := by
  cases rows <;> rfl

/-- What stands between the line feeds of a table that has columns are its lines. -/
theorem pieces_markdown (h : columns (grid rows) ≠ 0) :
    pieces (markdown (grid rows)) = lines (grid rows) := by
  have hne : lines (grid rows) ≠ [] := by
    cases rows with
    | nil => exact absurd rfl h
    | cons first others => exact List.cons_ne_nil _ _
  rw [markdown, if_neg h]
  exact pieces_intercalate hne fun l hl => (isLine_of_mem_lines rows hl).not_mem

theorem readLine_row (cells : List (List Char)) :
    readLine (row (widths (grid rows)) (cells.map cell)) =
      (List.range (columns (grid rows))).map (textAt cells) := by
  rw [row_eq_line, readLine_line fun cs hcs => (free_of_mem_rowCells rows hcs).1, rowCells,
    List.map_map]
  exact List.map_congr_left fun i _ => cellText_segment _ _

/-- A table whose longest row has some number of cells, and at least one, is a grid with as many
columns, and every cell of it is read back. -/
theorem isGrid_markdown {n : Nat} (hn : 1 ≤ n) (hrow : ∃ cells ∈ rows, cells.length = n)
    (hmost : ∀ cells ∈ rows, cells.length ≤ n) :
    IsGrid (markdown (grid rows)) n (rows.map fun cells => (List.range n).map (textAt cells)) := by
  have hcolumns : columns (grid rows) = n := by
    obtain ⟨hrow', hmost'⟩ := longest_map cell hrow hmost
    exact columns_eq hrow' hmost'
  have hws : (widths (grid rows)).length = n := by
    rw [widths, List.length_map, List.length_range, hcolumns]
  have hpieces : pieces (markdown (grid rows)) = lines (grid rows) :=
    pieces_markdown rows (by omega)
  refine ⟨?_, ?_, ?_, ?_⟩
  · obtain ⟨cells, hmem, -⟩ := hrow
    obtain ⟨first, others, rfl⟩ := List.exists_cons_of_ne_nil (List.ne_nil_of_mem hmem)
    rw [hpieces]
    simp [lines, grid]
  · exact ⟨_, fun l hl => (isLine_of_mem_lines rows (hpieces ▸ hl)).length_eq (isLine_rule rows)⟩
  · intro l hl
    rw [(isLine_of_mem_lines rows (hpieces ▸ hl)).freeBars_eq, hws]
  · rw [readTable, hpieces, eraseIdx_lines, grid, List.map_map, List.map_map]
    refine List.map_congr_left fun cells _ => ?_
    rw [← hcolumns]
    exact readLine_row rows cells

end Table

end Grid

/-! ## Tables of a document -/

namespace Node

/-- A written table is a grid, one line for each row and one for the rule, with as many columns as
its longest row has cells.  Cut at its bars, each row reads as what its cells are written as, on one
line and without the spaces at the end, and as nothing where it has no cell. -/
theorem isGrid_write_table (style : Style) (slots : Slots) (m : Marker)
    {rows : List (List (List Inline))} {n : Nat} (hn : 1 ≤ n)
    (hrow : ∃ cells ∈ rows, cells.length = n) (hmost : ∀ cells ∈ rows, cells.length ≤ n) :
    Grid.IsGrid (write style slots m (.table rows)) n
      (rows.map fun cells =>
        (List.range n).map (Grid.textAt (cells.map (Inline.markdown style slots)))) := by
  have hgrid : gridOf style slots rows =
      Grid.grid (rows.map (List.map (Inline.markdown style slots))) := by
    simp [gridOf, Grid.grid]
  obtain ⟨hrow', hmost'⟩ := Grid.longest_map (Inline.markdown style slots) hrow hmost
  have hread := Grid.isGrid_markdown _ hn hrow' hmost'
  rw [List.map_map] at hread
  rw [write, hgrid]
  exact hread

/-- Rows of different lengths whose cells hold bars, backslashes and line feeds. -/
def barredRows : List (List (List Inline)) := [
  [[.text "a|b\\"], [.text "c\nd  "]],
  [],
  [[.code "p\\|q"]]]

/-- Such a table is a grid. -/
theorem isGrid_barredRows :
    1 ≤ 2 ∧ (∃ cells ∈ barredRows, cells.length = 2) ∧ (∀ cells ∈ barredRows, cells.length ≤ 2) ∧
    Grid.IsGrid (write {} {} .primary (.table barredRows)) 2
      (barredRows.map fun cells =>
        (List.range 2).map (Grid.textAt (cells.map (Inline.markdown {} {})))) := by
  have hrow : ∃ cells ∈ barredRows, cells.length = 2 := ⟨_, List.mem_cons_self, rfl⟩
  have hmost : ∀ cells ∈ barredRows, cells.length ≤ 2 := by
    simp [barredRows]
  exact ⟨by decide, hrow, hmost, isGrid_write_table {} {} .primary (by decide) hrow hmost⟩

example : Grid.readTable (write {} {} .primary (.table barredRows)) =
    [["a|b\\\\".toList, "c d".toList], [[], []], ["\x60p\\|q\x60".toList, []]] := by decide

end Node

end DocExport
