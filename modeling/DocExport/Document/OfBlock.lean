import DocExport.Document
import DocExport.Document.Content

/-!
# From blocks to documents

A tree of blocks becomes a document.  Every block contributes nodes to what it stands in: a
synced block contributes what the blocks inside it contribute, and a block that is pending or
unsupported contributes nothing.  Images and files are met on the way, and their targets are
fresh slots.

* **Main results.** `Block.nodes` says what a block contributes, `Document.ofBlock` builds the
  document of any block, and `Document.convert` accepts whole pages that have finished loading.
-/

namespace DocExport

/-! ## Gathering media -/

/-- What has been met so far while walking a tree of blocks. -/
structure Gathered where
  /-- How many slots have been handed out. -/
  issued : Nat
  images : List Asset := []
  files : List Asset := []

/-- A walk that meets images and files. -/
abbrev Gather := StateM Gathered

namespace Gather

/-- Meet an image. -/
def image (label : String) (media : Media) : Gather Inline :=
  modifyGet fun g =>
    let asset : Asset := ⟨.slot g.issued, label, some media⟩
    (asset.image, { g with issued := g.issued + 1, images := g.images ++ [asset] })

/-- Meet a file. -/
def file (media : Media) : Gather Inline :=
  modifyGet fun g =>
    let asset : Asset := ⟨.slot g.issued, media.name, some media⟩
    (asset.link, { g with issued := g.issued + 1, files := g.files ++ [asset] })

end Gather

/-! ## From blocks to nodes -/

mutual

/-- The nodes that a block contributes to what it stands in. -/
def Block.nodes (place : Place) : Block → Gather (List Node)
  | ⟨kind, zone, children⟩ =>
      match kind with
      | .page => do
          let inner ← Block.allNodes .elsewhere children
          return [.root (rootContent inner)]
      | .quote | .callout => do
          let inner ← Block.allNodes .elsewhere children
          return [.blockquote (blockContent inner)]
      | .divider => return [.thematicBreak]
      | .heading depth =>
          let content := zoneInlines zone
          return [if 1 ≤ depth ∧ depth ≤ 6 then .heading depth content else .paragraph content]
      | .text => return [.paragraph (zoneInlines zone)]
      | .code language =>
          return [.code (languageOf language) (withoutBreak ((zone.map Zone.text).getD ""))]
      | .bullet => do
          let inner ← Block.allNodes .elsewhere children
          return [.listItem { children := .paragraph (zoneInlines zone) :: blockContent inner }]
      | .ordered sequence => do
          let inner ← Block.allNodes .elsewhere children
          return [.listItem
            { numbering := some (Numbering.ofText sequence)
              children := .paragraph (zoneInlines zone) :: blockContent inner }]
      | .todo done => do
          let inner ← Block.allNodes .elsewhere children
          return [.listItem
            { checked := some done
              children := .paragraph (zoneInlines zone) :: blockContent inner }]
      | .image media caption => do
          let image ← Gather.image (withoutBreak (caption.getD "")) media
          return [place.alone image]
      | .file media => do
          let link ← Gather.file media
          return [place.alone link]
      | .whiteboard token source => do
          let media : Media := ⟨whiteboardName, token, source.mapAnswer Bitmap.snapshot⟩
          let image ← Gather.image "" media
          return [place.alone image]
      | .table _ columns => do
          let inner ← Block.allNodes .elsewhere children
          return [.table (rowsOf columns.length (inner.filterMap Node.cell?))]
      | .tableCell => do
          let inner ← Block.allNodes .cell children
          return [.tableCell (inner.flatMap Node.cellContent)]
      | .synced => Block.allNodes place children
      | .pending | .unsupported _ => return []

/-- The nodes that a list of blocks contributes, in order. -/
def Block.allNodes (place : Place) : List Block → Gather (List Node)
  | [] => return []
  | b :: bs => do
      let first ← b.nodes place
      let rest ← Block.allNodes place bs
      return first ++ rest

end

/-! ## From blocks to documents -/

namespace Document

/-- The blocks of a document made of a block's contribution: those of the page if it is one, and
otherwise what may stand at the top of a document. -/
def childrenOf : List Node → List Node
  | [.root children] => children
  | nodes => rootContent nodes

/-- The document of a block.  A synced block shows only where it stands in another block, so by
itself it is an empty document. -/
def ofBlock (b : Block) (slots : Slots) : Document × Slots :=
  match b.kind with
  | .synced => ({}, slots)
  | _ =>
      let (nodes, met) := (b.nodes .elsewhere).run { issued := slots.issued }
      ({ children := childrenOf nodes, images := met.images, files := met.files },
        { slots with issued := met.issued })

end Document

/-- Why a block cannot be converted. -/
inductive ConvertFault where
  /-- It is not a page, but a block of the kind with this name. -/
  | notPage (kind : String)
  /-- Some block directly inside it has not been loaded yet. -/
  | stillLoading
  deriving DecidableEq, Repr

/-- The wording of the refusal. -/
def ConvertFault.message : ConvertFault → String
  | .notPage kind => "Not supported: " ++ kind ++ " is not a docx page"
  | .stillLoading => "Content is still loading"

/-- The document of a page whose blocks have been loaded.  Its slots are the only ones. -/
def Document.convert (b : Block) : Except ConvertFault (Document × Slots) :=
  if !b.kind.isPage then .error (.notPage b.kind.name)
  else if !b.isReady then .error .stillLoading
  else .ok (Document.ofBlock b {})

end DocExport
