import DocExport.Proofs.Splicing
import Mathlib.Algebra.Order.Floor.Div

/-!
# The rows of a table

A table shows the cells among the blocks inside it, and those inside synced blocks there, cut into
rows; other blocks are left out.  A cell shows the paragraphs among its blocks, and images and files
without a paragraph of their own.  Images and files are numbered along the way, so that each block
is told together with what has been met before it.

* **Main results.** `cutIntoRows_rowsOf` (how cells are cut into rows), `Block.allNodes_allOpened`
  (synced blocks stand for those inside them), `Block.contribution_tableCell` (what a cell shows)
  and `Block.nodes_table` (what a table shows).
-/

namespace DocExport

/-! ## Rows -/

/-- Cells cut into rows of the given number of columns. -/
structure CutIntoRows {α : Type} (columns : Nat) (cells : List α) (grid : List (List α)) :
    Prop where
  /-- The rows hold all cells, in order. -/
  whole : 0 < columns → grid.flatten = cells
  /-- Every row but the last is full. -/
  full : ∀ row ∈ grid.dropLast, row.length = columns
  /-- The last row is not empty, but need not be full. -/
  last : ∀ row ∈ grid.getLast?, 1 ≤ row.length ∧ row.length ≤ columns
  /-- There are no more rows than the cells fill. -/
  count : 0 < columns → grid.length = cells.length ⌈/⌉ columns
  /-- Without columns there are no rows. -/
  none : columns = 0 → grid = []

section

variable {α : Type} {columns : Nat} {cells row : List α}

theorem length_rowsOf (columns : Nat) (cells : List α) :
    (rowsOf columns cells).length = Block.rowCount columns cells.length := by
  simp [rowsOf]

theorem length_le_of_mem_rowsOf (h : row ∈ rowsOf columns cells) : row.length ≤ columns := by
  obtain ⟨i, -, rfl⟩ := List.mem_map.1 h
  exact List.length_take_le _ _

/-- Every row but the last is full. -/
theorem length_of_mem_dropLast_rowsOf (h : row ∈ (rowsOf columns cells).dropLast) :
    row.length = columns := by
  obtain ⟨i, hi, rfl⟩ := List.mem_iff_getElem.1 h
  rw [List.length_dropLast, length_rowsOf] at hi
  have hcolumns : 0 < columns := columns_pos_of_lt_rowCount (Nat.lt_of_lt_of_le hi (Nat.sub_le _ _))
  rw [Block.rowCount] at hi
  -- there is a row after this one, and its first cell stands behind this row
  have hnext : (i + 2) * columns ≤ cells.length + columns - 1 :=
    (Nat.le_div_iff_mul_le hcolumns).1 (by omega)
  rw [Nat.add_mul] at hnext
  simp only [List.getElem_dropLast, rowsOf, List.getElem_map, List.getElem_range, List.length_take,
    List.length_drop]
  omega

/-- The rows of a table are its cells cut into rows. -/
theorem cutIntoRows_rowsOf (columns : Nat) (cells : List α) :
    CutIntoRows columns cells (rowsOf columns cells) where
  whole h := flatten_rowsOf h cells
  full _ := length_of_mem_dropLast_rowsOf
  last row h := by
    have hrow : row ∈ rowsOf columns cells := List.mem_of_getLast? h
    exact ⟨List.length_pos_iff.2 (ne_nil_of_mem_rowsOf hrow), length_le_of_mem_rowsOf hrow⟩
  count _ := by rw [length_rowsOf, Block.rowCount, Nat.ceilDiv_eq_add_pred_div]
  none h := by
    rw [← List.length_eq_zero_iff, length_rowsOf, Block.rowCount, h, Nat.div_zero]

end

theorem Kind.eq_tableCell {kind : Kind} (h : kind.isTableCell = true) : kind = .tableCell := by
  cases kind <;> first | rfl | exact absurd h Bool.false_ne_true

/-! ## Synced blocks opened -/

namespace Block

mutual

/-- The blocks that stand where a block does: those inside it if it is synced, at every depth, and
otherwise the block itself as it is. -/
def opened : Block → List Block
  | ⟨kind, zone, children⟩ =>
      match kind with
      | .synced => allOpened children
      | kind => [⟨kind, zone, children⟩]

/-- The blocks that stand where a list of blocks does. -/
def allOpened : List Block → List Block
  | [] => []
  | b :: bs => b.opened ++ allOpened bs

end

theorem allOpened_eq_flatMap (bs : List Block) : allOpened bs = bs.flatMap opened := by
  induction bs with
  | nil => rfl
  | cons b bs ih => rw [allOpened, ih, List.flatMap_cons]

theorem opened_eq {b : Block} (h : b.kind ≠ .synced) : b.opened = [b] := by
  obtain ⟨kind, zone, children⟩ := b
  cases kind <;> first | rfl | exact absurd rfl h

theorem allOpened_eq_self {bs : List Block} (h : ∀ b ∈ bs, b.kind ≠ .synced) :
    allOpened bs = bs := by
  rw [allOpened_eq_flatMap, List.flatMap_congr fun b hb => opened_eq (h b hb)]
  exact List.flatMap_singleton' bs

/-- No synced block is left. -/
theorem ne_synced_of_mem_opened (b : Block) : ∀ d ∈ b.opened, d.kind ≠ .synced := by
  induction b using Block.induction with
  | h b ih =>
    intro d hd
    by_cases hb : b.kind = .synced
    · obtain ⟨kind, zone, children⟩ := b
      obtain rfl : kind = .synced := hb
      have hd : d ∈ allOpened children := hd
      rw [allOpened_eq_flatMap] at hd
      obtain ⟨c, hc, hdc⟩ := List.mem_flatMap.1 hd
      exact ih c hc d hdc
    · rw [opened_eq hb] at hd
      obtain rfl := List.mem_singleton.1 hd
      exact hb

/-- A block is walked like the blocks that stand where it does. -/
theorem allNodes_opened (b : Block) (place : Place) : allNodes place b.opened = b.nodes place := by
  induction b using Block.induction with
  | h b ih =>
    by_cases hb : b.kind = .synced
    · obtain ⟨kind, zone, children⟩ := b
      obtain rfl : kind = .synced := hb
      show allNodes place (allOpened children) = allNodes place children
      rw [allOpened_eq_flatMap, allNodes_flatMap ih]
    · rw [opened_eq hb, allNodes_singleton]

/-- So are lists of blocks. -/
theorem allNodes_allOpened (bs : List Block) (place : Place) :
    allNodes place (allOpened bs) = allNodes place bs := by
  rw [allOpened_eq_flatMap, allNodes_flatMap fun b _ => b.allNodes_opened place]

/-! ## What has been met before -/

/-- The blocks of a list, each with what has been met before it. -/
def reached (place : Place) (met : Gathered) : List Block → List (Block × Gathered)
  | [] => []
  | b :: bs => (b, met) :: reached place ((b.nodes place).run met).2 bs

/-- What a block contributes after what has been met before it. -/
def contribution (place : Place) (p : Block × Gathered) : List Node := ((p.1.nodes place).run p.2).1

theorem map_fst_reached (place : Place) (met : Gathered) (bs : List Block) :
    (reached place met bs).map Prod.fst = bs := by
  induction bs generalizing met with
  | nil => rfl
  | cons b bs ih => rw [reached, List.map_cons, ih]

theorem run_allNodes_reached (place : Place) (met : Gathered) (bs : List Block) :
    ((allNodes place bs).run met).1 = (reached place met bs).flatMap (contribution place) := by
  induction bs generalizing met with
  | nil => rfl
  | cons b bs ih =>
    rw [run_allNodes_cons, reached, List.flatMap_cons, ← ih]
    rfl

/-- Blocks contribute what those that stand where they do contribute, none of which is synced. -/
theorem run_allNodes_allOpened (place : Place) (met : Gathered) (bs : List Block) :
    ((allNodes place bs).run met).1 =
        (reached place met (allOpened bs)).flatMap (contribution place) ∧
      ∀ p ∈ reached place met (allOpened bs), p.1.kind ≠ .synced := by
  refine ⟨by rw [← run_allNodes_reached, allNodes_allOpened], fun p hp => ?_⟩
  have hmem : p.1 ∈ allOpened bs := by
    rw [← map_fst_reached place met (allOpened bs)]
    exact List.mem_map_of_mem hp
  rw [allOpened_eq_flatMap] at hmem
  obtain ⟨b, -, hb⟩ := List.mem_flatMap.1 hmem
  exact b.ne_synced_of_mem_opened p.1 hb

end Block

/-! ## Cells -/

/-- The inlines of a paragraph. -/
def Node.paragraphInlines : Node → List Inline
  | .paragraph content => content
  | _ => []

namespace Block

/-- The image or the link of a block that is an image, a file or a whiteboard, when the slot given
is free. -/
def bareMedia (slot : Nat) (b : Block) : List Inline :=
  b.own.flatMap fun c =>
    ((c.image? slot).map Asset.image).toList ++ ((c.file? slot).map Asset.link).toList

/-- The inlines of a cell with the given blocks inside: those of the paragraphs that the blocks
contribute, and the images and files among the blocks themselves. -/
def cellInlines (met : Gathered) (children : List Block) : List Inline :=
  (reached .cell met (allOpened children)).flatMap fun p =>
    (contribution .cell p).flatMap Node.paragraphInlines ++ p.1.bareMedia p.2.issued

/-- A block in a cell brings the inlines of its paragraph, or itself if it is an image or a file. -/
theorem cellContent_contribution {p : Block × Gathered} (h : p.1.kind ≠ .synced) :
    (contribution .cell p).flatMap Node.cellContent =
      (contribution .cell p).flatMap Node.paragraphInlines ++ p.1.bareMedia p.2.issued := by
  obtain ⟨⟨kind, zone, children⟩, met⟩ := p
  cases kind
  case synced => exact absurd rfl h
  case heading depth =>
    have hcontent : ∀ content, Node.cellContent
        (if 1 ≤ depth ∧ depth ≤ 6 then .heading depth content else .paragraph content) =
        Node.paragraphInlines
          (if 1 ≤ depth ∧ depth ≤ 6 then .heading depth content else .paragraph content) := by
      intro content
      split <;> rfl
    show Node.cellContent _ ++ [] = Node.paragraphInlines _ ++ [] ++ []
    rw [hcontent, List.append_nil, List.append_nil]
  case text => exact (List.append_nil _).symm
  all_goals rfl

/-- A cell holds the inlines that the blocks inside bring. -/
theorem contribution_tableCell (place : Place) {p : Block × Gathered} (h : p.1.kind = .tableCell) :
    contribution place p = [.tableCell (cellInlines p.2 p.1.children)] := by
  obtain ⟨⟨kind, zone, children⟩, met⟩ := p
  obtain rfl : kind = .tableCell := h
  obtain ⟨hrun, hkinds⟩ := run_allNodes_allOpened .cell met children
  show [Node.tableCell (((allNodes .cell children).run met).1.flatMap Node.cellContent)] = _
  rw [hrun, List.flatMap_assoc, cellInlines]
  refine congrArg (fun inlines => [Node.tableCell inlines]) ?_
  exact List.flatMap_congr fun p hp => cellContent_contribution (hkinds p hp)

/-- Of what a block contributes, only cells are inlines of a cell. -/
theorem filterMap_cell?_contribution (place : Place) {p : Block × Gathered}
    (h : p.1.kind ≠ .synced) : (contribution place p).filterMap Node.cell? =
      if p.1.kind.isTableCell then [cellInlines p.2 p.1.children] else [] := by
  by_cases hcell : p.1.kind = .tableCell
  · rw [contribution_tableCell place hcell, hcell]
    rfl
  · have hkind : p.1.kind.isTableCell = false :=
      Bool.eq_false_iff.2 fun hkind => hcell (Kind.eq_tableCell hkind)
    rw [hkind, if_neg Bool.false_ne_true]
    refine List.filterMap_eq_nil_iff.2 fun n hn => ?_
    rw [← Option.not_isSome_iff_eq_none, (shape_of_mem_nodes h hn).2.1, hkind]
    exact Bool.false_ne_true

/-! ## Tables -/

/-- The cells of a table with the given blocks inside, each with what has been met before it. -/
def cellsReached (met : Gathered) (children : List Block) : List (Block × Gathered) :=
  (reached .elsewhere met (allOpened children)).filter fun p => p.1.kind.isTableCell

theorem length_cellsReached (met : Gathered) (children : List Block) :
    (cellsReached met children).length =
      (allOpened children).countP fun b => b.kind.isTableCell := by
  rw [cellsReached, ← List.countP_eq_length_filter,
    ← map_fst_reached .elsewhere met (allOpened children), List.countP_map, map_fst_reached]
  rfl

/-- The cells that blocks contribute are those among them. -/
theorem filterMap_cell?_flatMap (place : Place) {ps : List (Block × Gathered)}
    (h : ∀ p ∈ ps, p.1.kind ≠ .synced) :
    (ps.flatMap (contribution place)).filterMap Node.cell? =
      (ps.filter fun p => p.1.kind.isTableCell).map fun p => cellInlines p.2 p.1.children := by
  induction ps with
  | nil => rfl
  | cons p ps ih =>
    obtain ⟨hp, hps⟩ := List.forall_mem_cons.1 h
    rw [List.flatMap_cons, List.filterMap_append, filterMap_cell?_contribution place hp, ih hps]
    cases hcell : p.1.kind.isTableCell with
    | true => simp [hcell]
    | false => simp [hcell]

/-- A table cuts the cells among the blocks inside it into rows. -/
theorem contribution_table (place : Place) (rows columns : List String) (zone : Option Zone)
    (children : List Block) (met : Gathered) :
    contribution place (⟨.table rows columns, zone, children⟩, met) =
      [.table (rowsOf columns.length
        ((cellsReached met children).map fun p => cellInlines p.2 p.1.children))] := by
  obtain ⟨hrun, hkinds⟩ := run_allNodes_allOpened .elsewhere met children
  rw [cellsReached, ← filterMap_cell?_flatMap .elsewhere hkinds, ← hrun]
  rfl

theorem rows_of_table_eq {columns : Nat} {cells : List Block} {rows ids : List String}
    {zone : Option Zone} {children : List Block}
    (h : table columns cells = ⟨.table rows ids, zone, children⟩) :
    ids.length = columns ∧ children = cells ∧ rows.length = rowCount columns cells.length := by
  obtain ⟨hkind, -, rfl⟩ := Block.mk.inj h
  obtain ⟨rfl, rfl⟩ := Kind.table.inj hkind
  simp [numbered]

/-- **A table shows exactly the cells among the blocks inside it, in rows,** and a cell exactly the
paragraphs and the bare media among the blocks inside it.  A table that is laid out from cells has
as many rows as it names. -/
theorem nodes_table (rows columns : List String) (zone : Option Zone) (children : List Block)
    (place : Place) (met : Gathered) :
    (cellsReached met children).length =
        (allOpened children).countP (fun b => b.kind.isTableCell) ∧
      (∀ p ∈ cellsReached met children,
        contribution .elsewhere p = [.tableCell (cellInlines p.2 p.1.children)]) ∧
      ∃ grid, contribution place (⟨.table rows columns, zone, children⟩, met) = [.table grid] ∧
        CutIntoRows columns.length
          ((cellsReached met children).map fun p => cellInlines p.2 p.1.children) grid ∧
        ∀ c cells, table c cells = ⟨.table rows columns, zone, children⟩ →
          (∀ b ∈ cells, b.kind.isTableCell = true) → grid.length = rows.length := by
  refine ⟨length_cellsReached met children, fun p hp => ?_, _,
    contribution_table place rows columns zone children met, cutIntoRows_rowsOf _ _, ?_⟩
  · refine contribution_tableCell .elsewhere ?_
    exact Kind.eq_tableCell (List.mem_filter.1 hp).2
  · intro c cells htable hcells
    obtain ⟨hcolumns, rfl, hrows⟩ := rows_of_table_eq htable
    have hopened : allOpened children = children := allOpened_eq_self fun b hb hsynced => by
      rw [Kind.eq_tableCell (hcells b hb)] at hsynced
      exact absurd hsynced (by simp)
    rw [length_rowsOf, List.length_map, length_cellsReached, hcolumns, hrows, hopened,
      List.countP_eq_length.2 hcells]

end Block

end DocExport
