import DocExport.Document.OfBlock

/-!
# Walking a tree of blocks

Whatever its kind, a block does one of four things when a tree is walked: it contributes nodes
of its own, it is an image, it is a file, or it builds its contribution from what the blocks
inside it contribute.

* **Main results.** `Block.nodes_eq` (what a block does, by its part), `Block.induction` (from
  the blocks inside a block to the block) and `Block.exists_of_mem_allNodes` (every contribution
  comes from some block).
-/

namespace DocExport

/-- What a block does when a tree is walked. -/
inductive Part where
  /-- It contributes these nodes. -/
  | leaf (nodes : List Node)
  /-- It is an image with a label. -/
  | image (label : String) (media : Media)
  /-- It is a file. -/
  | file (media : Media)
  /-- It builds its contribution from that of the blocks inside, which stand at another place. -/
  | holder (inside : Place → Place) (build : List Node → List Node)

/-- A list item with a text at its head and blocks inside. -/
def itemOf (checked : Option Bool) (numbering : Option Numbering) (zone : Option Zone)
    (inner : List Node) : ListItem Node where
  checked := checked
  numbering := numbering
  children := .paragraph (zoneInlines zone) :: blockContent inner

namespace Block

/-- What a block does, by its kind. -/
def part (b : Block) : Part :=
  match b.kind with
  | .page => .holder (fun _ => .elsewhere) fun inner => [.root (rootContent inner)]
  | .quote | .callout =>
      .holder (fun _ => .elsewhere) fun inner => [.blockquote (blockContent inner)]
  | .divider => .leaf [.thematicBreak]
  | .heading depth =>
      .leaf [if 1 ≤ depth ∧ depth ≤ 6 then .heading depth (zoneInlines b.zone)
        else .paragraph (zoneInlines b.zone)]
  | .text => .leaf [.paragraph (zoneInlines b.zone)]
  | .code language => .leaf [.code (languageOf language) (withoutBreak b.text)]
  | .bullet =>
      .holder (fun _ => .elsewhere) fun inner => [.listItem (itemOf none none b.zone inner)]
  | .ordered sequence =>
      .holder (fun _ => .elsewhere) fun inner =>
        [.listItem (itemOf none (some (Numbering.ofText sequence)) b.zone inner)]
  | .todo done =>
      .holder (fun _ => .elsewhere) fun inner => [.listItem (itemOf (some done) none b.zone inner)]
  | .image media caption => .image (withoutBreak (caption.getD "")) media
  | .file media => .file media
  | .whiteboard token source =>
      .image "" ⟨whiteboardName, token, source.mapAnswer Bitmap.snapshot⟩
  | .table _ columns =>
      .holder (fun _ => .elsewhere) fun inner =>
        [.table (rowsOf columns.length (inner.filterMap Node.cell?))]
  | .tableCell =>
      .holder (fun _ => .cell) fun inner => [.tableCell (inner.flatMap Node.cellContent)]
  | .synced => .holder id id
  | .pending | .unsupported _ => .leaf []

/-- The walk through a block, by what it does. -/
theorem nodes_eq (place : Place) (b : Block) :
    b.nodes place =
      match b.part with
      | .leaf nodes => pure nodes
      | .image label media => (fun image => [place.alone image]) <$> Gather.image label media
      | .file media => (fun link => [place.alone link]) <$> Gather.file media
      | .holder inside build => build <$> allNodes (inside place) b.children := by
  obtain ⟨kind, zone, children⟩ := b
  cases kind <;> rfl

/-- What holds of a block whenever it holds of the blocks directly inside holds of all. -/
theorem induction {motive : Block → Prop}
    (h : ∀ b, (∀ inner ∈ b.children, motive inner) → motive b) (b : Block) : motive b := by
  refine Block.rec (motive_1 := motive) (motive_2 := fun bs => ∀ inner ∈ bs, motive inner)
    ?block ?nil ?cons b
  case block =>
    intro kind zone children ih
    exact h ⟨kind, zone, children⟩ ih
  case nil => simp
  case cons =>
    intro first rest hfirst hrest
    exact List.forall_mem_cons.2 ⟨hfirst, hrest⟩

/-- What a list of blocks contributes comes from one of them. -/
theorem exists_of_mem_allNodes {place : Place} {bs : List Block} {met : Gathered} {n : Node}
    (h : n ∈ ((allNodes place bs).run met).1) :
    ∃ b ∈ bs, ∃ met', n ∈ ((b.nodes place).run met').1 := by
  induction bs generalizing met with
  | nil => exact absurd h List.not_mem_nil
  | cons b bs ih =>
    rcases List.mem_append.1 h with hfirst | hrest
    · exact ⟨b, List.mem_cons_self .., met, hfirst⟩
    · obtain ⟨c, hc, met', hn⟩ := ih hrest
      exact ⟨c, List.mem_cons_of_mem _ hc, met', hn⟩

end Block

end DocExport
