import DocExport.Block
import DocExport.Markdown.Node
import DocExport.RichText.Phrasing
import DocExport.Text.Decimal
import DocExport.Text.Lowercase

/-!
# What a document may contain

Where a block stands decides which blocks it may hold.  A document holds anything but another
document, quotations and list items hold block content, a table holds cells and a cell holds
inlines.  What does not fit is left out.

* **Main results.** `flatten_rowsOf` says that cutting the cells of a table into rows neither
  loses nor moves one, and `isBlockContent_of_mem` what a quotation or a list item holds.
-/

namespace DocExport

-- powers are the plain ones, whatever else is imported beside this module
attribute [local instance (2000)] instPowNat

/-! ## Blocks inside blocks -/

/-- What may stand in a document, its list items gathered into lists. -/
def rootContent (nodes : List Node) : List Node :=
  (Node.groupItems nodes).filter Node.isRootContent

/-- What may stand in a quotation or a list item, list items gathered into lists. -/
def blockContent (nodes : List Node) : List Node :=
  (Node.groupItems nodes).filter Node.isBlockContent

/-- A quotation or a list item holds block content only. -/
theorem isBlockContent_of_mem {nodes : List Node} {n : Node} (h : n ∈ blockContent nodes) :
    n.isBlockContent = true :=
  (List.mem_filter.1 h).2

/-- Whether media stand in a table cell, where they need no paragraph of their own. -/
inductive Place where
  | cell
  | elsewhere
  deriving DecidableEq, Repr

/-- An image or a link as a block of its own. -/
def Place.alone (place : Place) (inline : Inline) : Node :=
  match place with
  | .cell => .phrasing inline
  | .elsewhere => .paragraph [inline]

/-- The inlines that a block brings into a table cell. -/
def Node.cellContent : Node → List Inline
  | .paragraph content => content
  | .phrasing inline => [inline]
  | _ => []

/-- The inlines of a cell, if the block is one. -/
def Node.cell? : Node → Option (List Inline)
  | .tableCell content => some content
  | _ => none

/-- Cells as rows of the given number of columns; the last row may be shorter. -/
def rowsOf {α : Type} (columns : Nat) (cells : List α) : List (List α) :=
  (List.range (Block.rowCount columns cells.length)).map fun row =>
    (cells.drop (row * columns)).take columns

/-- The first `n` rows hold the cells that fit into `n` rows. -/
theorem flatten_rows {α : Type} (columns n : Nat) (cells : List α) :
    ((List.range n).map fun row => (cells.drop (row * columns)).take columns).flatten =
      cells.take (n * columns) := by
  induction n with
  | zero => simp
  | succ n ih =>
    rw [List.range_succ, List.map_append, List.flatten_append, ih, Nat.succ_mul, List.take_add]
    simp

/-- Cutting cells into rows neither loses nor moves one. -/
theorem flatten_rowsOf {α : Type} {columns : Nat} (h : 0 < columns) (cells : List α) :
    (rowsOf columns cells).flatten = cells := by
  have hfit : cells.length ≤ Block.rowCount columns cells.length * columns := by
    have hdiv := Nat.div_add_mod (cells.length + columns - 1) columns
    have hmod := Nat.mod_lt (cells.length + columns - 1) h
    rw [Block.rowCount, Nat.mul_comm]
    omega
  rw [rowsOf, flatten_rows, List.take_of_length_le hfit]

/-! ## Texts of blocks -/

/-- How an item is numbered whose number was given as a text: by that number, or by position if
it is no number below `2 ^ 32`. -/
def Numbering.ofText (s : String) : Numbering :=
  match Text.decimal? (Text.trim s.toList) with
  | some n => if n < 2 ^ (32 : Nat) then .number n else .auto
  | none => .auto

/-- The language of a code block in its usual spelling, if there is one. -/
def languageOf (s : String) : Option String :=
  let name := Text.lowercase (Text.trim s.toList)
  if name.isEmpty then none else some (String.ofList name)

/-- A text without the line feed that an editor puts at its end. -/
def withoutBreak (s : String) : String := String.ofList (Text.dropFinalBreak s.toList)

/-- The name under which the picture of a whiteboard is kept. -/
def whiteboardName : String := "whiteboard.png"

/-- The runs of a zone, none where there is no zone. -/
def zoneInlines (zone : Option Zone) : List Inline :=
  RichText.inlines ((zone.map Zone.runs).getD [])

end DocExport
