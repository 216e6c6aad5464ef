import DocExport.Proofs.Containers
import DocExport.Proofs.Renumbering

/-!
# Pages put together of two halves

What the blocks of a page become depends on the blocks before them in two ways only.  Their images
and files take the slots after those of the blocks before, and their first list items go on with a
list at the end of the blocks before if they carry it on.  So the document of a page can be put
together of the documents of its two halves.

* **Main results.** `Node.groupItems_append_of_meet` (two lists become one),
  `Document.slotCount_visits` (a document takes a slot for each of its images and files) and
  `Document.follows_ofBlock` (the document of a page and the documents of its halves).
-/

namespace DocExport

/-! ## Nodes put together -/

namespace Node

/-- The last of some nodes and the first of others are items of one list. -/
def Meet (xs ys : List Node) : Prop := ∃ x ∈ xs.getLast?, ∃ y ∈ ys.head?, sameList x y = true

/-- Some blocks are made of two lists of blocks that lie end to end, but for the list at the end of
the first, which takes up the items of the list at the beginning of the second. -/
def TakesUp (first second whole : List Node) : Prop :=
  ∃ front ordered start spread items ordered' start' spread' items' back,
    first = front ++ [.list ordered start spread items] ∧
    second = .list ordered' start' spread' items' :: back ∧
    whole = front ++ .list ordered start spread (items ++ items') :: back

/-- Renaming slots changes no border between lists. -/
theorem meet_map_rename {f : Nat → Nat} {xs ys : List Node} :
    Meet xs (ys.map (rename f)) ↔ Meet xs ys := by
  have hsame : ∀ x y : Node, sameList x (y.rename f) = sameList x y := by
    intro x y
    cases x <;> cases y <;> first | rfl | skip
    case listItem.listItem a b =>
      rw [rename, renameItem_eq]
      rfl
  simp only [Meet, List.head?_map, Option.mem_def, Option.map_eq_some_iff]
  constructor
  · rintro ⟨x, hx, -, ⟨y, hy, rfl⟩, h⟩
    exact ⟨x, hx, y, hy, hsame x y ▸ h⟩
  · rintro ⟨x, hx, y, hy, h⟩
    exact ⟨x, hx, y.rename f, ⟨y, hy, rfl⟩, (hsame x y).trans h⟩

theorem exists_items_of_sameList {x y : Node} (h : sameList x y = true) :
    (∃ a, x = listItem a) ∧ ∃ b, y = listItem b := by
  cases x <;> cases y <;> first | exact ⟨⟨_, rfl⟩, _, rfl⟩ | exact nomatch h

/-- A group that ends with an item begins with one. -/
theorem exists_head_of_last {g : Adjacent.Group Node} {last : ListItem Node}
    (hlast : g.last = listItem last)
    (hchain : g.toList.IsChain fun a b => sameList a b = true) :
    ∃ first, g.head = listItem first := by
  obtain ⟨head, tail⟩ := g
  cases tail with
  | nil => exact ⟨last, hlast⟩
  | cons next rest =>
    exact (exists_items_of_sameList (List.isChain_cons_cons.1 hchain).1).1

/-- Where the last of some nodes and the first of others are items of one list, the two lists that
end and begin there become one. -/
theorem groupItems_append_of_meet {xs ys : List Node} (h : Meet xs ys) :
    TakesUp (groupItems xs) (groupItems ys) (groupItems (xs ++ ys)) := by
  obtain ⟨x, hx, y, hy, hxy⟩ := h
  obtain ⟨⟨last, rfl⟩, next, rfl⟩ := exists_items_of_sameList hxy
  obtain ⟨gs, g, k, ks, hxs, hys, hboth, hlast, hnext⟩ :=
    Adjacent.groups_append_of_same hx hy hxy
  have hchain : g.toList.IsChain fun a b => sameList a b = true :=
    Adjacent.isChain_of_mem_groups (hxs ▸ List.mem_append_right _ (List.mem_singleton_self g))
  have hchain' : k.toList.IsChain fun a b => sameList a b = true :=
    Adjacent.isChain_of_mem_groups (hys ▸ List.mem_cons_self)
  obtain ⟨first, hfirst⟩ := exists_head_of_last hlast hchain
  obtain ⟨rest, hitems, hlist⟩ := exists_listOf hfirst hchain
  obtain ⟨rest', hitems', hlist'⟩ := exists_listOf hnext hchain'
  have hjoined : ofGroup ⟨g.head, g.tail ++ k.toList⟩ = listOf first (rest ++ next :: rest') := by
    have htail : g.tail = rest.map listItem := by
      rw [Adjacent.Group.toList, List.map_cons, List.cons.injEq] at hitems
      exact hitems.2
    rw [hfirst, htail, hitems', ← List.map_append, ofGroup_items]
  refine ⟨gs.map ofGroup, first.numbering.isSome, first.numbering.bind Numbering.number?, false,
    first :: rest, next.numbering.isSome, next.numbering.bind Numbering.number?, false,
    next :: rest', ks.map ofGroup, ?_, ?_, ?_⟩
  · rw [groupItems, hxs, List.map_append, List.map_singleton, hlist, listOf]
  · rw [groupItems, hys, List.map_cons, hlist', listOf]
  · rw [groupItems, hboth, List.map_append, List.map_cons, hjoined, listOf, List.cons_append]

/-- Lists that become one still do when blocks are left out, but no lists. -/
theorem TakesUp.filter {first second whole : List Node} (h : TakesUp first second whole)
    {stays : Node → Bool}
    (hlist : ∀ ordered start spread items, stays (.list ordered start spread items) = true) :
    TakesUp (first.filter stays) (second.filter stays) (whole.filter stays) := by
  obtain ⟨front, ordered, start, spread, items, ordered', start', spread', items', back,
    rfl, rfl, rfl⟩ := h
  refine ⟨front.filter stays, ordered, start, spread, items, ordered', start', spread', items',
    back.filter stays, ?_, ?_, ?_⟩
  · rw [List.filter_append, List.filter_cons_of_pos (hlist ..), List.filter_nil]
  · rw [List.filter_cons_of_pos (hlist ..)]
  · rw [List.filter_append, List.filter_cons_of_pos (hlist ..)]

end Node

/-! ## Blocks of a page -/

namespace Block

theorem allVisitsIn_append (around : List Kind) (xs ys : List Block) :
    allVisitsIn around (xs ++ ys) = allVisitsIn around xs ++ allVisitsIn around ys := by
  induction xs with
  | nil => rfl
  | cons x xs ih => rw [List.cons_append, allVisitsIn, allVisitsIn, ih, List.append_assoc]

/-- The nodes that the blocks of a page contribute to it, synced blocks spliced and blocks that do
not show left out. -/
def pageNodes (bs : List Block) (slots : Slots) : List Node :=
  ((allNodes .elsewhere (splicedAll bs)).run { issued := slots.issued }).1

theorem pageNodes_eq (bs : List Block) (slots : Slots) :
    pageNodes bs slots = ((allNodes .elsewhere bs).run { issued := slots.issued }).1 := by
  rw [pageNodes, allNodes_splicedAll fun b _ => allNodes_inPlace b .elsewhere]

theorem pageNodes_rename (bs : List Block) (slots : Slots) (k : Nat) :
    pageNodes bs { slots with issued := slots.issued + k } =
      (pageNodes bs slots).map (Node.rename (· + k)) := by
  rw [pageNodes_eq, pageNodes_eq]
  exact run_allNodes_rename (fun b _ _ _ h => b.run_nodes_rename .elsewhere h) rfl

/-- The slots as they are once those of some blocks of a page have been handed out. -/
def slotsAfter (bs : List Block) (slots : Slots) : Slots :=
  { slots with issued := slots.issued + slotCount (allVisitsIn [.page] bs) }

/-- The blocks of a page contribute what its first half contributes, and then what its second half
contributes under the slots after those of the first half. -/
theorem pageNodes_append (xs ys : List Block) (slots : Slots) :
    pageNodes (xs ++ ys) slots = pageNodes xs slots ++ pageNodes ys (slotsAfter xs slots) := by
  have hmet : ((allNodes .elsewhere xs).run { issued := slots.issued }).2.issued =
      Gathered.issued { issued := slots.issued } + slotCount (allVisitsIn [.page] xs) := by
    rw [run_allNodes _ fun b _ met => b.run_nodes .elsewhere [.page] met, Gathered.meetAll_eq]
  rw [slotsAfter, pageNodes_rename, pageNodes_eq, pageNodes_eq, pageNodes_eq, run_allNodes_append]
  exact congrArg (_ ++ ·)
    (run_allNodes_rename (fun b _ _ _ h => b.run_nodes_rename .elsewhere h) hmet)

end Block

/-! ## Documents put together -/

namespace Document

/-- As many slots are taken as images and files are met. -/
theorem slotCount_eq (free : Nat) (vs : List Visit) :
    slotCount vs =
      ((withSlots free vs).filterMap fun p => p.1.content.image? p.2).length +
        ((withSlots free vs).filterMap fun p => p.1.content.file? p.2).length := by
  induction vs generalizing free with
  | nil => rfl
  | cons v vs ih =>
    rw [slotCount, withSlots, ih (free + v.content.slots)]
    cases hv : v.content <;>
      simp [hv, Content.slots, Content.isMedia, Content.image?, Content.file?] <;> omega

/-- A document takes as many slots as it has images and files. -/
theorem slotCount_visits (b : Block) (slots : Slots) :
    slotCount b.visits =
      (ofBlock b slots).1.images.length + (ofBlock b slots).1.files.length := by
  rw [images_ofBlock, files_ofBlock, slotCount_eq slots.issued]

theorem children_ofBlock_page (zone : Option Zone) (bs : List Block) (slots : Slots) :
    (ofBlock ⟨.page, zone, bs⟩ slots).1.children = rootContent (Block.pageNodes bs slots) := by
  rw [Block.pageNodes_eq]
  rfl

/-- A document made of two others, one after the other. -/
structure Follows (first second whole : Document) (meet : Prop) : Prop where
  /-- The images are those of the first and then those of the second. -/
  images : whole.images = first.images ++ second.images
  /-- So are the files. -/
  files : whole.files = first.files ++ second.files
  /-- So are the blocks, unless list items meet where the two are put together. -/
  apart : ¬ meet → whole.children = first.children ++ second.children
  /-- If they do, the list at the end of the first goes on with that at the beginning of the
  second. -/
  together : meet → Node.TakesUp first.children second.children whole.children

/-- The document of a page is made of the documents of its two halves, the slots of the second
numbered after those of the images and files of the first.  Only if the last node of the first half
and the first node of the second are items of one list, the two lists become one. -/
theorem follows_ofBlock (zone : Option Zone) (xs ys : List Block) (slots : Slots) :
    let first := (ofBlock ⟨.page, zone, xs⟩ slots).1
    let second := (ofBlock ⟨.page, zone, ys⟩ slots).1
    let whole := (ofBlock ⟨.page, zone, xs ++ ys⟩ slots).1
    Follows first (second.rename (· + (first.images.length + first.files.length))) whole
      (Node.Meet (Block.pageNodes xs slots) (Block.pageNodes ys slots)) := by
  intro first second whole
  have hcount : first.images.length + first.files.length =
      slotCount (Block.allVisitsIn [.page] xs) :=
    (slotCount_visits ⟨.page, zone, xs⟩ slots).symm
  have hsecond : second.rename (· + (first.images.length + first.files.length)) =
      (ofBlock ⟨.page, zone, ys⟩ (Block.slotsAfter xs slots)).1 := by
    rw [hcount]
    exact (ofBlock_rename ⟨.page, zone, ys⟩ slots _).symm
  have hslots : withSlots slots.issued (Block.visits ⟨.page, zone, xs ++ ys⟩) =
      withSlots slots.issued (Block.visits ⟨.page, zone, xs⟩) ++
        withSlots (Block.slotsAfter xs slots).issued (Block.visits ⟨.page, zone, ys⟩) := by
    show withSlots slots.issued (Block.allVisitsIn [.page] (xs ++ ys)) = _
    rw [Block.allVisitsIn_append, withSlots_append]
    rfl
  have hmeet : Node.Meet (Block.pageNodes xs slots) (Block.pageNodes ys slots) ↔
      Node.Meet (Block.pageNodes xs slots) (Block.pageNodes ys (Block.slotsAfter xs slots)) := by
    rw [Block.slotsAfter, Block.pageNodes_rename, Node.meet_map_rename]
  rw [hsecond]
  refine ⟨?_, ?_, fun hapart => ?_, fun htogether => ?_⟩
  · rw [images_ofBlock, images_ofBlock, images_ofBlock, hslots, List.filterMap_append]
  · rw [files_ofBlock, files_ofBlock, files_ofBlock, hslots, List.filterMap_append]
  · rw [children_ofBlock_page, children_ofBlock_page, children_ofBlock_page,
      Block.pageNodes_append, rootContent, Node.groupItems_append, List.filter_append]
    · rfl
    · intro x hx y hy
      exact Bool.eq_false_iff.2 fun hxy => hapart (hmeet.2 ⟨x, hx, y, hy, hxy⟩)
  · rw [children_ofBlock_page, children_ofBlock_page, children_ofBlock_page,
      Block.pageNodes_append]
    exact (Node.groupItems_append_of_meet (hmeet.1 htogether)).filter fun _ _ _ _ => rfl

end Document

end DocExport
