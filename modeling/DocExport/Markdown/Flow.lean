import DocExport.Markdown.Grid
import DocExport.Markdown.Layout
import DocExport.Markdown.Node
import DocExport.Markdown.Phrasing

/-!
# Writing blocks

Blocks are written one after another with a blank line between them, or, inside a tight list
item, on directly following lines where Markdown keeps them apart by itself.  A block that
comes to nothing is passed over as if it were not there.  A list that directly follows a list
of its own kind gets the other marker, so that the two do not become one.

* **Main results.** `Node.markdown` writes a block and `Node.documentMarkdown` the blocks of a
  whole document; `Node.flow_cons_of_empty` says that a block that comes to nothing is passed
  over.
-/

namespace DocExport

namespace Node

/-! ## Between blocks -/

/-- Whether a block is a stretch of text. -/
def isTextual : Node → Bool
  | .paragraph _ | .phrasing _ => true
  | _ => false

/-- Whether a block is a heading that is written with a line under it. -/
def isUnderlined (style : Style) : Node → Bool
  | .heading depth _ => style.heading == .setext && depth ≤ 2
  | _ => false

/-- Whether a blank line has to keep a block from becoming part of the text before it. -/
def needsBlankLine (style : Style) (previous next : Node) : Bool :=
  previous.isTextual && (next.isTextual || next.isUnderlined style)

/-- What stands between a block and the one written before it, if there is one. -/
def separator (style : Style) (tight : Bool) (previous : Option (Node × Marker))
    (next : Node) : List Char :=
  match previous with
  | none => []
  | some (p, _) => if !tight || needsBlankLine style p next then ['\n', '\n'] else ['\n']

/-- The marker for a block after the one written before it: the other one for a list directly
after a list of its kind that has the primary one. -/
def markerAfter (previous : Option (Node × Marker)) (next : Node) : Marker :=
  match previous, next with
  | some (.list before _ _ _, .primary), .list ordered _ _ _ =>
      if ordered = before then .other else .primary
  | _, _ => .primary

/-! ## Headings and cells -/

/-- A heading; one that does not show comes to nothing. -/
def headingMarkdown (style : Style) (depth : Nat) (text : List Char) : List Char :=
  let depth := Layout.headingDepth depth
  if Text.allBlank text then []
  else if style.heading = .setext ∧ depth ≤ 2 ∧ '\n' ∉ text then
    Layout.underlinedHeading depth (Escape.lineStarts text)
  else Layout.signedHeading depth text

/-- A paragraph; one that does not show comes to nothing. -/
def paragraphMarkdown (text : List Char) : List Char :=
  if Text.allBlank text then [] else Escape.lineStarts text

/-- The cells of a table as they stand in its grid. -/
def gridOf (style : Style) (slots : Slots) (rows : List (List (List Inline))) :
    List (List (List Char)) :=
  rows.map fun cells => cells.map fun content => Grid.cell (Inline.markdown style slots content)

/-! ## Blocks -/

mutual

/-- A block as Markdown; `m` says which marker it uses if it is a list. -/
def write (style : Style) (slots : Slots) (m : Marker) : Node → List Char
  | .root children => flow style slots false none children
  | .paragraph content => paragraphMarkdown (Inline.markdown style slots content)
  | .heading depth content => headingMarkdown style depth (Inline.markdown style slots content)
  | .blockquote children => Layout.quoted (flow style slots false none children)
  | .list ordered start spread items =>
      List.intercalate (if spread then ['\n', '\n'] else ['\n'])
        (writeItems style slots m ordered (start.getD 1) items)
  | .listItem item =>
      let start := (item.numbering.bind Numbering.number?).getD 1
      writeItem style slots (Layout.itemMarker style m item.numbering.isSome start) item
  | .code language value => Layout.codeBlock style language value.toList
  | .thematicBreak => style.rule.toList
  | .table rows => Grid.markdown (gridOf style slots rows)
  | .tableRow cells => Grid.markdown (gridOf style slots [cells])
  | .tableCell content => Escape.lineStarts (Inline.markdown style slots content)
  | .phrasing inline => Escape.lineStarts (inline.write style slots [])

/-- Blocks one after another, after the block written before them. -/
def flow (style : Style) (slots : Slots) (tight : Bool) (previous : Option (Node × Marker)) :
    List Node → List Char
  | [] => []
  | n :: ns =>
      let m := markerAfter previous n
      let written := n.write style slots m
      if written.isEmpty then flow style slots tight previous ns
      else
        separator style tight previous n ++ written ++ flow style slots tight (some (n, m)) ns

/-- A list item under its marker. -/
def writeItem (style : Style) (slots : Slots) (marker : List Char) : ListItem Node → List Char
  | ⟨checked, spread, _, children⟩ =>
      Layout.hung marker (Layout.taskBox checked) (flow style slots (!spread) none children)

/-- The items of a list, the first of them with the given number. -/
def writeItems (style : Style) (slots : Slots) (m : Marker) (ordered : Bool) (number : Nat) :
    List (ListItem Node) → List (List Char)
  | [] => []
  | item :: items =>
      writeItem style slots (Layout.itemMarker style m ordered number) item ::
        writeItems style slots m ordered (number + 1) items

end

/-- A block that comes to nothing is passed over. -/
theorem flow_cons_of_empty {style : Style} {slots : Slots} {tight : Bool}
    {previous : Option (Node × Marker)} {n : Node} {ns : List Node}
    (h : n.write style slots (markerAfter previous n) = []) :
    flow style slots tight previous (n :: ns) = flow style slots tight previous ns := by
  simp [flow, h]

/-- A block by itself as Markdown, ended by a single line feed if there is anything to end. -/
def markdown (style : Style) (slots : Slots) (n : Node) : String :=
  let written := Text.dropFinalBreaks (n.write style slots .primary)
  String.ofList (if written.isEmpty then [] else written ++ ['\n'])

/-- The blocks of a document as Markdown, with a line feed after the last of them. -/
def documentMarkdown (style : Style) (slots : Slots) (children : List Node) : String :=
  let written := flow style slots false none children
  String.ofList (if written.isEmpty then [] else written ++ ['\n'])

end Node

end DocExport
