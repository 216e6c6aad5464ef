import DocExport.Markdown.Inline

/-!
# Flow content

The blocks of a Markdown document: paragraphs and headings with their inlines, quotes and lists
with further blocks, code, tables and rules.  A list item that has not been put into a list yet
may stand among other blocks; *grouping* gathers neighbouring items into lists, so that
none is left outside.

* **Main results.** `ListItem.continues` decides when an item carries on the list of the item
  before it, and `Node.groupItems` gathers them.
-/

namespace DocExport

/-- How an item of an ordered list gets its number. -/
inductive Numbering where
  /-- The item asks for this number. -/
  | number (n : Nat)
  /-- The item is numbered by its position. -/
  | auto
  deriving DecidableEq, Repr

/-- The number asked for, if there is one. -/
def Numbering.number? : Numbering → Option Nat
  | .number n => some n
  | .auto => none

/-- An item of a list, with blocks of type `α` inside. -/
structure ListItem (α : Type) where
  /-- For an item of a task list, whether the task is done. -/
  checked : Option Bool := none
  /-- Whether the blocks inside are set apart by blank lines. -/
  spread : Bool := false
  /-- For an item of an ordered list, how it is numbered. -/
  numbering : Option Numbering := none
  /-- The blocks inside. -/
  children : List α

/-- A block of a Markdown document. -/
inductive Node where
  /-- A whole document. -/
  | root (children : List Node)
  /-- A paragraph. -/
  | paragraph (content : List Inline)
  /-- A heading; depths from one to six can be told apart. -/
  | heading (depth : Nat) (content : List Inline)
  /-- A quotation. -/
  | blockquote (children : List Node)
  /-- A list; an ordered one may ask for the number of its first item. -/
  | list (ordered : Bool) (start : Option Nat) (spread : Bool) (items : List (ListItem Node))
  /-- A list item outside any list. -/
  | listItem (item : ListItem Node)
  /-- A block of code in some language. -/
  | code (language : Option String) (value : String)
  /-- A rule across the page. -/
  | thematicBreak
  /-- A table: its rows, and in each row the contents of its cells. -/
  | table (rows : List (List (List Inline)))
  /-- A single row of a table. -/
  | tableRow (cells : List (List Inline))
  /-- A single cell of a table. -/
  | tableCell (content : List Inline)
  /-- Inline content standing among blocks. -/
  | phrasing (inline : Inline)

/-! ## Where a block may stand -/

namespace Node

/-- Anything but a document may stand at the top of a document. -/
def isRootContent : Node → Bool
  | .root _ => false
  | _ => true

/-- The blocks that may stand in a quotation or a list item. -/
def isBlockContent : Node → Bool
  | .blockquote _ | .code .. | .heading .. | .list .. | .paragraph _ | .table _
  | .thematicBreak => true
  | _ => false

end Node

/-! ## Grouping list items -/

/-- The three kinds of list an item can belong to. -/
inductive ListKind where
  | task
  | ordered
  | bullet
  deriving DecidableEq, Repr

namespace ListItem

/-- The kind of list an item belongs to; a task is a task even if it is numbered. -/
def kind {α : Type} (item : ListItem α) : ListKind :=
  if item.checked.isSome then .task
  else if item.numbering.isSome then .ordered
  else .bullet

/-- An item that asks for a number carries on from one that asked for the number before it;
where either item leaves its number open, they always carry on. -/
def follows : Option Numbering → Option Numbering → Bool
  | some (.number p), some (.number n) => p + 1 == n
  | _, _ => true

/-- Whether an item carries on the list of the item before it. -/
def continues {α : Type} (previous next : ListItem α) : Bool :=
  previous.kind == next.kind &&
    (previous.kind != .ordered || follows previous.numbering next.numbering)

end ListItem

namespace Node

/-- Two list items of one list. -/
def sameList : Node → Node → Bool
  | .listItem a, .listItem b => a.continues b
  | _, _ => false

/-- The item that a block is, if it is one. -/
def item? : Node → Option (ListItem Node)
  | .listItem item => some item
  | _ => none

/-- The list of an item and the items after it: it is ordered and starts where its first item
says. -/
def listOf (first : ListItem Node) (rest : List (ListItem Node)) : Node :=
  .list first.numbering.isSome (first.numbering.bind Numbering.number?) false (first :: rest)

/-- One block for a group: the list of its items if it is made of items. -/
def ofGroup (g : Adjacent.Group Node) : Node :=
  match g.head with
  | .listItem first => listOf first (g.tail.filterMap item?)
  | other => other

/-- Gather neighbouring list items into lists.  Every item ends in a list, also one that has
no neighbour to share it with, and other blocks stay as they are. -/
def groupItems (nodes : List Node) : List Node :=
  (Adjacent.groups sameList nodes).map ofGroup

theorem item?_of_mem_groupItems {nodes : List Node} {n : Node} (h : n ∈ groupItems nodes) :
    n.item? = none := by
  obtain ⟨g, -, rfl⟩ := List.mem_map.1 h
  cases hg : g.head <;> simp [ofGroup, hg, listOf, item?]

end Node

end DocExport
