import DocExport.Proofs.References

/-!
# Renumbering slots

Images and files take slots in the order in which they are met, and which numbers their slots have
depends on how many were handed out before.  Nothing else does: a document that is built later has
the same blocks, and in the place of every slot the one that is as much further on.

* **Main results.** `Inline.rename_eq_self` (content that points to no slot has none to rename),
  `Node.groupItems_rename` (items are gathered by what they are and not by their slots),
  `Block.run_nodes_rename` (what a block contributes later) and `Document.ofBlock_rename` (a whole
  document built later).
-/

namespace DocExport

/-! ## Slots under other numbers -/

/-- A target with its slot under another number. -/
def Target.rename (f : Nat → Nat) : Target → Target
  | .known url => .known url
  | .slot id => .slot (f id)

namespace Inline

mutual

/-- An inline with every slot under another number. -/
def rename (f : Nat → Nat) : Inline → Inline
  | .text value => .text value
  | .code value => .code value
  | .math value => .math value
  | .emphasis xs => .emphasis (renameAll f xs)
  | .strong xs => .strong (renameAll f xs)
  | .delete xs => .delete (renameAll f xs)
  | .link target title media xs => .link (target.rename f) title media (renameAll f xs)
  | .image target alt title media => .image (target.rename f) alt title media

/-- A list of inlines with every slot under another number. -/
def renameAll (f : Nat → Nat) : List Inline → List Inline
  | [] => []
  | x :: xs => rename f x :: renameAll f xs

end

end Inline

namespace Node

mutual

/-- A block with every slot under another number. -/
def rename (f : Nat → Nat) : Node → Node
  | .root children => .root (renameAll f children)
  | .paragraph content => .paragraph (Inline.renameAll f content)
  | .heading depth content => .heading depth (Inline.renameAll f content)
  | .blockquote children => .blockquote (renameAll f children)
  | .list ordered start spread items => .list ordered start spread (renameItems f items)
  | .listItem item => .listItem (renameItem f item)
  | .code language value => .code language value
  | .thematicBreak => .thematicBreak
  | .table rows => .table (rows.map fun cells => cells.map (Inline.renameAll f))
  | .tableRow cells => .tableRow (cells.map (Inline.renameAll f))
  | .tableCell content => .tableCell (Inline.renameAll f content)
  | .phrasing inline => .phrasing (inline.rename f)

/-- A list of blocks with every slot under another number. -/
def renameAll (f : Nat → Nat) : List Node → List Node
  | [] => []
  | n :: ns => rename f n :: renameAll f ns

/-- A list item with every slot under another number. -/
def renameItem (f : Nat → Nat) : ListItem Node → ListItem Node
  | ⟨checked, spread, numbering, children⟩ => ⟨checked, spread, numbering, renameAll f children⟩

/-- The items of a list with every slot under another number. -/
def renameItems (f : Nat → Nat) : List (ListItem Node) → List (ListItem Node)
  | [] => []
  | item :: items => renameItem f item :: renameItems f items

end

end Node

/-- An image or a file with its slot under another number. -/
def Asset.rename (f : Nat → Nat) (a : Asset) : Asset := { a with target := a.target.rename f }

/-- A document with every slot under another number. -/
def Document.rename (f : Nat → Nat) (d : Document) : Document where
  children := Node.renameAll f d.children
  images := d.images.map (Asset.rename f)
  files := d.files.map (Asset.rename f)

variable {f : Nat → Nat}

/-! ## Inlines -/

theorem Ref.rename_target {r : Ref} (h : r.slot? = none) : r.target.rename f = r.target := by
  unfold slot? at h
  cases htarget : r.target with
  | known url => rfl
  | slot id => simp [htarget] at h

namespace Inline

theorem renameAll_eq_map (xs : List Inline) : renameAll f xs = xs.map (rename f) := by
  induction xs with
  | nil => rfl
  | cons x xs ih => rw [renameAll, ih, List.map_cons]

mutual

/-- An inline that points to no slot stays as it is. -/
theorem rename_eq_self : ∀ x : Inline, (∀ r ∈ x.refs, r.slot? = none) → x.rename f = x
  | .text _, _ | .code _, _ | .math _, _ => rfl
  | .emphasis xs, h => congrArg emphasis (renameAll_eq_self xs h)
  | .strong xs, h => congrArg strong (renameAll_eq_self xs h)
  | .delete xs, h => congrArg delete (renameAll_eq_self xs h)
  | .link target title media xs, h => by
    obtain ⟨htarget, hxs⟩ := List.forall_mem_cons.1 h
    rw [rename, renameAll_eq_self xs hxs]
    exact congrArg (link · title media xs) (Ref.rename_target htarget)
  | .image target alt title media, h =>
    congrArg (image · alt title media)
      (Ref.rename_target (h (.image target) (List.mem_singleton_self _)))

/-- Inlines that point to no slot stay as they are. -/
theorem renameAll_eq_self :
    ∀ xs : List Inline, (∀ r ∈ refsAll xs, r.slot? = none) → renameAll f xs = xs
  | [], _ => rfl
  | x :: xs, h => by
    have hx : x.rename f = x :=
      rename_eq_self x fun r hr => h r (List.mem_append_left _ hr)
    have hxs : renameAll f xs = xs :=
      renameAll_eq_self xs fun r hr => h r (List.mem_append_right _ hr)
    rw [renameAll, hx, hxs]

end

end Inline

theorem renameAll_zoneInlines (zone : Option Zone) :
    Inline.renameAll f (zoneInlines zone) = zoneInlines zone :=
  Inline.renameAll_eq_self _ fun _ hr => RichText.slot?_of_mem_refsAll hr

/-! ## Gathering and placing -/

namespace Node

theorem renameAll_eq_map (ns : List Node) : renameAll f ns = ns.map (rename f) := by
  induction ns with
  | nil => rfl
  | cons n ns ih => rw [renameAll, ih, List.map_cons]

theorem renameItems_eq_map (items : List (ListItem Node)) :
    renameItems f items = items.map (renameItem f) := by
  induction items with
  | nil => rfl
  | cons item items ih => rw [renameItems, ih, List.map_cons]

theorem renameItem_eq (item : ListItem Node) :
    renameItem f item = { item with children := renameAll f item.children } := by
  obtain ⟨checked, spread, numbering, children⟩ := item
  rfl

theorem sameList_rename (a b : Node) : sameList (a.rename f) (b.rename f) = sameList a b := by
  cases a <;> cases b <;> first | rfl | skip
  case listItem.listItem a b =>
    rw [rename, rename, renameItem_eq, renameItem_eq]
    rfl

theorem item?_rename (n : Node) : (n.rename f).item? = n.item?.map (renameItem f) := by
  cases n <;> rfl

/-- What takes the place of a renamed group. -/
theorem ofGroup_rename (g : Adjacent.Group Node) :
    ofGroup (g.map (rename f)) = (ofGroup g).rename f := by
  obtain ⟨head, tail⟩ := g
  cases head with
  | listItem first =>
    have htail : (tail.map (rename f)).filterMap item? =
        (tail.filterMap item?).map (renameItem f) := by
      rw [List.filterMap_map, List.map_filterMap]
      exact List.filterMap_congr fun n _ => item?_rename n
    show listOf (renameItem f first) ((tail.map (rename f)).filterMap item?) =
      (listOf first (tail.filterMap item?)).rename f
    rw [htail, listOf, listOf, rename, renameItems_eq_map, List.map_cons, renameItem_eq]
  | _ => rfl

/-- List items are gathered whatever their slots are. -/
theorem groupItems_rename (ns : List Node) :
    groupItems (ns.map (rename f)) = (groupItems ns).map (rename f) := by
  have hsame : (fun a b => sameList (rename f a) (rename f b)) = sameList :=
    funext fun a => funext fun b => sameList_rename a b
  rw [groupItems, groupItems, Adjacent.groups_map, hsame, List.map_map, List.map_map]
  exact List.map_congr_left fun g _ => ofGroup_rename g

theorem filter_groupItems_rename {stays : Node → Bool} (h : ∀ n, stays (rename f n) = stays n)
    (ns : List Node) :
    (groupItems (ns.map (rename f))).filter stays =
      renameAll f ((groupItems ns).filter stays) := by
  have hstays : stays ∘ rename f = stays := funext h
  rw [groupItems_rename, List.filter_map, hstays, renameAll_eq_map]

theorem rootContent_rename (ns : List Node) :
    rootContent (ns.map (rename f)) = renameAll f (rootContent ns) :=
  filter_groupItems_rename (fun n => by cases n <;> rfl) ns

theorem blockContent_rename (ns : List Node) :
    blockContent (ns.map (rename f)) = renameAll f (blockContent ns) :=
  filter_groupItems_rename (fun n => by cases n <;> rfl) ns

theorem filterMap_cell?_rename (ns : List Node) :
    (ns.map (rename f)).filterMap cell? = (ns.filterMap cell?).map (Inline.renameAll f) := by
  rw [List.filterMap_map, List.map_filterMap]
  exact List.filterMap_congr fun n _ => by cases n <;> rfl

theorem flatMap_cellContent_rename (ns : List Node) :
    (ns.map (rename f)).flatMap cellContent = Inline.renameAll f (ns.flatMap cellContent) := by
  rw [Inline.renameAll_eq_map, List.map_flatMap, List.flatMap_map]
  refine List.flatMap_congr fun n _ => ?_
  cases n with
  | paragraph content => exact Inline.renameAll_eq_map content
  | _ => rfl

theorem rename_alone (place : Place) (x : Inline) :
    (place.alone x).rename f = place.alone (x.rename f) := by
  cases place <;> rfl

end Node

theorem rowsOf_map {α β : Type} (g : α → β) (columns : Nat) (cells : List α) :
    rowsOf columns (cells.map g) = (rowsOf columns cells).map (List.map g) := by
  simp [rowsOf, Function.comp_def, List.map_take, List.map_drop]

/-! ## Building documents later -/

namespace Block

/-- What a block contributes that holds nothing points to no slot. -/
theorem rename_of_leaf {b : Block} {nodes : List Node} (h : b.part = .leaf nodes) :
    nodes.map (Node.rename f) = nodes := by
  obtain ⟨kind, zone, children⟩ := b
  cases kind <;> simp only [part, Part.leaf.injEq, reduceCtorEq] at h <;> subst h
  case heading depth =>
    split <;> simp only [List.map_cons, List.map_nil, Node.rename, renameAll_zoneInlines]
  case text => simp only [List.map_cons, List.map_nil, Node.rename, renameAll_zoneInlines]
  case divider | code | pending | unsupported => rfl

/-- A block that holds others builds the same of them under other slots. -/
theorem rename_of_holder {b : Block} {inside : Place → Place} {build : List Node → List Node}
    (h : b.part = .holder inside build) (inner : List Node) :
    build (inner.map (Node.rename f)) = (build inner).map (Node.rename f) := by
  obtain ⟨kind, zone, children⟩ := b
  cases kind <;> simp only [part, Part.holder.injEq, reduceCtorEq] at h <;>
    obtain ⟨rfl, rfl⟩ := h
  case page =>
    simp only [List.map_cons, List.map_nil, Node.rename, Node.rootContent_rename]
  case quote | callout =>
    simp only [List.map_cons, List.map_nil, Node.rename, Node.blockContent_rename]
  case bullet | ordered | todo =>
    simp only [List.map_cons, List.map_nil, Node.rename, itemOf, Node.blockContent_rename,
      Node.renameItem, Node.renameAll, renameAll_zoneInlines]
  case table =>
    simp only [List.map_cons, List.map_nil, Node.rename, Node.filterMap_cell?_rename, rowsOf_map]
  case tableCell =>
    simp only [List.map_cons, List.map_nil, Node.rename, Node.flatMap_cellContent_rename]
  case synced => rfl

theorem issued_run_nodes (b : Block) (place : Place) (met : Gathered) :
    ((b.nodes place).run met).2.issued = met.issued + slotCount (b.visitsIn []) := by
  rw [b.run_nodes place [], Gathered.meetAll_eq]

/-- Blocks contribute the same under later slots if each of them does. -/
theorem run_allNodes_rename {place : Place} {bs : List Block} {k : Nat}
    (h : ∀ b ∈ bs, ∀ met met' : Gathered, met'.issued = met.issued + k →
      ((b.nodes place).run met').1 = ((b.nodes place).run met).1.map (Node.rename (· + k)))
    {met met' : Gathered} (hmet : met'.issued = met.issued + k) :
    ((allNodes place bs).run met').1 =
      ((allNodes place bs).run met).1.map (Node.rename (· + k)) := by
  induction bs generalizing met met' with
  | nil => rfl
  | cons b bs ih =>
    obtain ⟨hb, hbs⟩ := List.forall_mem_cons.1 h
    have hrest : ((b.nodes place).run met').2.issued =
        ((b.nodes place).run met).2.issued + k := by
      rw [issued_run_nodes, issued_run_nodes, hmet]
      omega
    rw [run_allNodes_cons, run_allNodes_cons, List.map_append, hb met met' hmet, ih hbs hrest]

/-- A block that is walked when more slots have been handed out contributes the same under later
slots. -/
theorem run_nodes_rename (b : Block) (place : Place) {k : Nat} {met met' : Gathered}
    (hmet : met'.issued = met.issued + k) :
    ((b.nodes place).run met').1 = ((b.nodes place).run met).1.map (Node.rename (· + k)) := by
  induction b using Block.induction generalizing place met met' with
  | h b ih =>
    have hinner : ∀ place, ((allNodes place b.children).run met').1 =
        ((allNodes place b.children).run met).1.map (Node.rename (· + k)) :=
      fun place => run_allNodes_rename (fun c hc _ _ hmet => ih c hc place hmet) hmet
    rw [nodes_eq]
    cases hpart : b.part with
    | leaf nodes => exact (rename_of_leaf hpart).symm
    | image label media =>
      show [place.alone (.image (.slot met'.issued) label none (some media))] =
        [(place.alone (.image (.slot met.issued) label none (some media))).rename (· + k)]
      rw [hmet, Node.rename_alone]
      rfl
    | file media =>
      show [place.alone (.link (.slot met'.issued) none (some media) [.text media.name])] =
        [(place.alone (.link (.slot met.issued) none (some media) [.text media.name])).rename
          (· + k)]
      rw [hmet, Node.rename_alone]
      rfl
    | holder inside build =>
      show build ((allNodes (inside place) b.children).run met').1 = _
      rw [hinner, rename_of_holder hpart]
      rfl

end Block

theorem Content.image?_rename (slot : Nat) (c : Content) :
    c.image? (f slot) = (c.image? slot).map (Asset.rename f) := by
  cases c <;> rfl

theorem Content.file?_rename (slot : Nat) (c : Content) :
    c.file? (f slot) = (c.file? slot).map (Asset.rename f) := by
  cases c <;> rfl

theorem withSlots_add (free k : Nat) (vs : List Visit) :
    withSlots (free + k) vs = (withSlots free vs).map (Prod.map id (· + k)) := by
  induction vs generalizing free with
  | nil => rfl
  | cons v vs ih =>
    rw [withSlots, withSlots, List.map_cons, Nat.add_right_comm, ih]
    rfl

theorem images_withSlots_add (free k : Nat) (vs : List Visit) :
    (withSlots (free + k) vs).filterMap (fun p => p.1.content.image? p.2) =
      ((withSlots free vs).filterMap fun p => p.1.content.image? p.2).map
        (Asset.rename (· + k)) := by
  rw [withSlots_add, List.filterMap_map, List.map_filterMap]
  exact List.filterMap_congr fun p _ => Content.image?_rename (f := (· + k)) p.2 p.1.content

theorem files_withSlots_add (free k : Nat) (vs : List Visit) :
    (withSlots (free + k) vs).filterMap (fun p => p.1.content.file? p.2) =
      ((withSlots free vs).filterMap fun p => p.1.content.file? p.2).map
        (Asset.rename (· + k)) := by
  rw [withSlots_add, List.filterMap_map, List.map_filterMap]
  exact List.filterMap_congr fun p _ => Content.file?_rename (f := (· + k)) p.2 p.1.content

namespace Document

/-- What makes a document makes it under other slots. -/
theorem childrenOf_rename (ns : List Node) :
    childrenOf (ns.map (Node.rename f)) = Node.renameAll f (childrenOf ns) := by
  unfold childrenOf
  split
  · rename_i children h
    obtain ⟨n, rfl, hn⟩ := List.map_eq_singleton_iff.1 h
    cases n <;> simp only [Node.rename, Node.root.injEq, reduceCtorEq] at hn
    exact hn.symm
  · rename_i hother
    split
    · rename_i children
      exact absurd rfl (hother (Node.renameAll f children))
    · exact Node.rootContent_rename ns

/-- If more slots have been handed out before, the document of a block is the same but for its
slots, which are as much further on. -/
theorem ofBlock_rename (b : Block) (slots : Slots) (k : Nat) :
    (ofBlock b { slots with issued := slots.issued + k }).1 =
      (ofBlock b slots).1.rename (· + k) := by
  by_cases h : b.kind = .synced
  · rw [ofBlock_of_synced h, ofBlock_of_synced h]
    rfl
  · have hchildren : ((b.nodes .elsewhere).run { issued := slots.issued + k }).1 =
        ((b.nodes .elsewhere).run { issued := slots.issued }).1.map (Node.rename (· + k)) :=
      b.run_nodes_rename .elsewhere rfl
    rw [ofBlock_eq h, ofBlock_eq h, hchildren, childrenOf_rename, images_withSlots_add,
      files_withSlots_add]
    rfl

end Document

end DocExport
