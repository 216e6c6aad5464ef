import DocExport.Markdown.Flow

/-!
# Targets as they are written

Of the slots of a document nothing is written but what its targets read.  Two records of the slots
may have been filled in another order, or hold slots that nobody points to: as long as every target
reads the same in both, the document is written alike.

* **Main results.** `Inline.write_congr` and `Node.write_congr` say so of every inline and every
  block, and `Node.documentMarkdown_congr` of a whole document.
-/

namespace DocExport

variable {style : Style} {slots slots' : Slots}

namespace Inline

theorem urlOf_congr (h : ∀ t, slots.read t = slots'.read t) (t : Target) :
    urlOf slots t = urlOf slots' t := by
  rw [urlOf, urlOf, h]

mutual

/-- An inline is written by what targets read. -/
theorem write_congr (h : ∀ t, slots.read t = slots'.read t) (before : List Char) :
    ∀ x : Inline, x.write style slots before = x.write style slots' before
  | .text _ | .code _ | .math _ => rfl
  | .emphasis xs | .strong xs | .delete xs => by
    rw [write, write, writeAll_congr h]
  | .link target title media xs => by
    rw [write, write, writeAll_congr h, urlOf_congr h]
  | .image target alt title media => by
    rw [write, write, urlOf_congr h]

theorem writeAll_congr (h : ∀ t, slots.read t = slots'.read t) (before : List Char) :
    ∀ xs : List Inline, writeAll style slots before xs = writeAll style slots' before xs
  | [] => rfl
  | x :: xs => by
    rw [writeAll, writeAll, write_congr h]
    exact writeAll_congr h _ xs

end

theorem markdown_congr (h : ∀ t, slots.read t = slots'.read t) (xs : List Inline) :
    markdown style slots xs = markdown style slots' xs :=
  writeAll_congr h [] xs

end Inline

namespace Node

mutual

/-- A block is written by what targets read. -/
theorem write_congr (h : ∀ t, slots.read t = slots'.read t) (m : Marker) :
    ∀ n : Node, n.write style slots m = n.write style slots' m
  | .root children | .blockquote children => by
    rw [write, write, flow_congr h]
  | .paragraph content | .heading _ content | .tableCell content => by
    rw [write, write, Inline.markdown_congr h]
  | .list ordered start spread items => by
    rw [write, write, writeItems_congr h]
  | .listItem item => by
    rw [write, write, writeItem_congr h]
  | .code .. | .thematicBreak => by
    rw [write, write]
  | .table rows | .tableRow rows => by
    simp only [write, gridOf, Inline.markdown_congr h]
  | .phrasing x => by
    rw [write, write, Inline.write_congr h]

theorem flow_congr (h : ∀ t, slots.read t = slots'.read t) (tight : Bool)
    (previous : Option (Node × Marker)) :
    ∀ ns : List Node, flow style slots tight previous ns = flow style slots' tight previous ns
  | [] => rfl
  | n :: ns => by
    rw [flow, flow, write_congr h, flow_congr h tight previous ns,
      flow_congr h tight (some (n, markerAfter previous n)) ns]

theorem writeItem_congr (h : ∀ t, slots.read t = slots'.read t) (marker : List Char) :
    ∀ item : ListItem Node, writeItem style slots marker item = writeItem style slots' marker item
  | ⟨checked, spread, numbering, children⟩ => by
    rw [writeItem, writeItem, flow_congr h]

theorem writeItems_congr (h : ∀ t, slots.read t = slots'.read t) (m : Marker) (ordered : Bool)
    (number : Nat) : ∀ items : List (ListItem Node),
      writeItems style slots m ordered number items =
        writeItems style slots' m ordered number items
  | [] => rfl
  | item :: items => by
    rw [writeItems, writeItems, writeItem_congr h, writeItems_congr h]

end

/-- A document is written by what targets read. -/
theorem documentMarkdown_congr (h : ∀ t, slots.read t = slots'.read t) (children : List Node) :
    documentMarkdown style slots children = documentMarkdown style slots' children := by
  rw [documentMarkdown, documentMarkdown, flow_congr h]

end Node

end DocExport
