import DocExport.Media.Bitmap
import DocExport.RichText.Run

/-!
# Blocks

A document to be exported is a tree of blocks.  Every block has a kind, which brings along
what only that kind has, perhaps a zone of text, and further blocks inside.

* **Main results.** `Kind.name` names a kind, `Block.table` lays out a table from its cells,
  and `Block.isReady` says whether the top of a document has finished loading.
-/

namespace DocExport

/-- What sort of block a block is. -/
inductive Kind where
  | page
  | divider
  | heading (depth : Nat)
  | code (language : String)
  | quote
  | callout
  | bullet
  /-- An item of an ordered list; `sequence` is its number, or anything else to be numbered by
  position. -/
  | ordered (sequence : String)
  | todo (done : Bool)
  | text
  | image (media : Media) (caption : Option String)
  | file (media : Media)
  /-- A whiteboard; `source` draws it, and draws nothing if there is nothing on it. -/
  | whiteboard (token : String) (source : Fetch (Option Bitmap))
  /-- A table; its cells are the blocks inside, row by row. -/
  | table (rows columns : List String)
  | tableCell
  /-- Blocks kept in step with another place; the block itself does not show. -/
  | synced
  /-- A block that has not been loaded yet. -/
  | pending
  /-- A kind that has no counterpart in Markdown. -/
  | unsupported (name : String)

namespace Kind

/-- The name of a kind. -/
def name : Kind → String
  | .page => "page"
  | .divider => "divider"
  | .heading depth => "heading" ++ toString depth
  | .code _ => "code"
  | .quote => "quote_container"
  | .callout => "callout"
  | .bullet => "bullet"
  | .ordered _ => "ordered"
  | .todo _ => "todo"
  | .text => "text"
  | .image .. => "image"
  | .file _ => "file"
  | .whiteboard .. => "whiteboard"
  | .table .. => "table"
  | .tableCell => "table_cell"
  | .synced => "synced_source"
  | .pending => "pending"
  | .unsupported name => name

/-- Whether a block of this kind is still to be loaded. -/
def isPending : Kind → Bool
  | .pending => true
  | _ => false

/-- Whether a block of this kind is a whole page. -/
def isPage : Kind → Bool
  | .page => true
  | _ => false

end Kind

/-- A block with the blocks inside it. -/
structure Block where
  /-- What sort of block it is. -/
  kind : Kind
  /-- Its text, if it has any. -/
  zone : Option Zone := none
  /-- The blocks inside. -/
  children : List Block := []

namespace Block

/-! ## Making blocks -/

/-- A block that bears text. -/
def ofRuns (kind : Kind) (runs : List Run) (children : List Block) : Block :=
  { kind, zone := some (Zone.ofRuns runs), children }

/-- The names of the first `n` rows or columns. -/
def numbered (what : String) (n : Nat) : List String :=
  (List.range n).map fun i => what ++ toString i

/-- The number of rows that `cells` cells fill when there are `columns` columns; without columns
there are no rows. -/
def rowCount (columns cells : Nat) : Nat := (cells + columns - 1) / columns

/-- A table of the given number of columns, its cells listed row by row. -/
def table (columns : Nat) (cells : List Block) : Block where
  kind := .table (numbered "row" (rowCount columns cells.length)) (numbered "col" columns)
  children := cells

/-! ## Reading blocks -/

/-- The runs of a block, none for a block without text. -/
def runs (b : Block) : List Run := (b.zone.map Zone.runs).getD []

/-- The plain text of a block, empty for a block without text. -/
def text (b : Block) : String := (b.zone.map Zone.text).getD ""

/-- Whether all blocks directly inside a block have been loaded. -/
def isReady (b : Block) : Bool := b.children.all fun child => !child.kind.isPending

end Block

end DocExport
