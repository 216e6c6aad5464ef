import DocExport.Markdown.Flow
import DocExport.Proofs.ContentRules
import DocExport.Proofs.Outline

/-!
# Reading a document from its beginning to its end

A document is read block by block, a table row by row and cell by cell.  Gathering items into
lists leaves the order of what is read as it is, but some blocks do not fit where they stand and
are left out with all they hold.  What is read is then what the fitting blocks say, in the order
in which they are visited.

* **Main results.** `Node.piecesAll_filter_groupItems` (gathering items keeps the order),
  `Block.read_nodes` (what is read of a block's contribution), `Document.read_ofBlock` (what is
  read of a document) and `Document.pieces_ofBlock_of_plain` (without tables and pages inside
  the page, nothing is left out).
-/

namespace DocExport

/-! ## What is read -/

namespace Node

mutual

/-- What is read of a block, in order. -/
def pieces : Node → List Piece
  | .root children => piecesAll children
  | .paragraph content => [.text content]
  | .heading depth content => [.heading depth content]
  | .blockquote children => piecesAll children
  | .list _ _ _ items => itemsPieces items
  | .listItem item => itemPieces item
  | .code language value => [.code language value]
  | .thematicBreak => [.rule]
  | .table rows => rows.flatten.map .text
  | .tableRow cells => cells.map .text
  | .tableCell content => [.text content]
  | .phrasing inline => [.text [inline]]

/-- What is read of a list of blocks. -/
def piecesAll : List Node → List Piece
  | [] => []
  | n :: ns => pieces n ++ piecesAll ns

/-- What is read of a list item. -/
def itemPieces : ListItem Node → List Piece
  | ⟨_, _, _, children⟩ => piecesAll children

/-- What is read of the items of a list. -/
def itemsPieces : List (ListItem Node) → List Piece
  | [] => []
  | item :: items => itemPieces item ++ itemsPieces items

end

theorem piecesAll_eq_flatMap (ns : List Node) : piecesAll ns = ns.flatMap pieces := by
  induction ns with
  | nil => rfl
  | cons n ns ih => rw [piecesAll, ih, List.flatMap_cons]

theorem piecesAll_append (ms ns : List Node) :
    piecesAll (ms ++ ns) = piecesAll ms ++ piecesAll ns := by
  simp only [piecesAll_eq_flatMap, List.flatMap_append]

theorem itemsPieces_eq_flatMap (items : List (ListItem Node)) :
    itemsPieces items = (items.map listItem).flatMap pieces := by
  induction items with
  | nil => rfl
  | cons item items ih => rw [itemsPieces, ih, List.map_cons, List.flatMap_cons, pieces]

/-- Only an item can be followed by another block of its list. -/
theorem tail_eq_nil_of_item?_eq_none {g : Adjacent.Group Node} (h : g.head.item? = none)
    (hchain : g.toList.IsChain fun a b => sameList a b = true) : g.tail = [] := by
  obtain ⟨head, tail⟩ := g
  cases tail with
  | nil => rfl
  | cons next rest =>
    have hnext : sameList head next = true := (List.isChain_cons_cons.1 hchain).1
    cases head <;> simp_all [sameList, item?]

theorem exists_listOf {g : Adjacent.Group Node} {first : ListItem Node}
    (h : g.head = listItem first) (hchain : g.toList.IsChain fun a b => sameList a b = true) :
    ∃ rest, g.toList = (first :: rest).map listItem ∧ ofGroup g = listOf first rest := by
  obtain ⟨head, tail⟩ := g
  obtain rfl : head = listItem first := h
  obtain ⟨items, rfl, -⟩ := exists_items_of_isChain hchain
  exact ⟨items, rfl, ofGroup_items first items⟩

/-- What takes the place of a group is read like those blocks of the group that stay. -/
theorem pieces_ofGroup {g : Adjacent.Group Node} {stays : Node → Bool}
    (hlist : ∀ ordered start spread items, stays (.list ordered start spread items) = true)
    (hchain : g.toList.IsChain fun a b => sameList a b = true) :
    piecesAll ([ofGroup g].filter stays) =
      piecesAll (g.toList.filter fun n => stays n || n.item?.isSome) := by
  cases hitem : g.head.item? with
  | none =>
    have hsingle : g.toList = [g.head] := by
      rw [Adjacent.Group.toList, tail_eq_nil_of_item?_eq_none hitem hchain]
    rw [ofGroup_of_item?_eq_none hitem, hsingle]
    simp [List.filter_cons, hitem]
  | some first =>
    have hhead : g.head = listItem first := by
      cases hg : g.head <;> simp_all [item?]
    obtain ⟨rest, htoList, hofGroup⟩ := exists_listOf hhead hchain
    have hall : ((first :: rest).map listItem).filter (fun n => stays n || n.item?.isSome) =
        (first :: rest).map listItem := by
      refine List.filter_eq_self.2 fun n hn => ?_
      obtain ⟨item, -, rfl⟩ := List.mem_map.1 hn
      simp [item?]
    rw [hofGroup, listOf, List.filter_cons_of_pos (hlist ..), List.filter_nil, htoList, hall,
      piecesAll, piecesAll, pieces, List.append_nil, itemsPieces_eq_flatMap, piecesAll_eq_flatMap]

/-- Gathering items into lists and then leaving blocks out, but no lists, is read like leaving
those blocks out, but no items. -/
theorem piecesAll_filter_groupItems {stays : Node → Bool}
    (hlist : ∀ ordered start spread items, stays (.list ordered start spread items) = true)
    (ns : List Node) :
    piecesAll ((groupItems ns).filter stays) =
      piecesAll (ns.filter fun n => stays n || n.item?.isSome) := by
  have hgroups : ∀ gs : List (Adjacent.Group Node),
      (∀ g ∈ gs, g.toList.IsChain fun a b => sameList a b = true) →
      piecesAll ((gs.map ofGroup).filter stays) =
        piecesAll ((gs.flatMap Adjacent.Group.toList).filter fun n =>
          stays n || n.item?.isSome) := by
    intro gs hgs
    induction gs with
    | nil => rfl
    | cons g gs ih =>
      obtain ⟨hg, hgs⟩ := List.forall_mem_cons.1 hgs
      rw [List.map_cons, List.flatMap_cons, ← List.singleton_append, List.filter_append,
        List.filter_append, piecesAll_append, piecesAll_append, pieces_ofGroup hlist hg, ih hgs]
  have h := hgroups (Adjacent.groups sameList ns) fun g hg => Adjacent.isChain_of_mem_groups hg
  rwa [Adjacent.flatMap_toList_groups] at h

theorem piecesAll_blockContent (ns : List Node) :
    piecesAll (blockContent ns) =
      piecesAll (ns.filter fun n => n.isBlockContent || n.item?.isSome) :=
  piecesAll_filter_groupItems (fun _ _ _ _ => rfl) ns

theorem piecesAll_rootContent (ns : List Node) :
    piecesAll (rootContent ns) = piecesAll (ns.filter isRootContent) := by
  rw [rootContent, piecesAll_filter_groupItems fun _ _ _ _ => rfl]
  congr 1
  refine List.filter_congr fun n _ => ?_
  cases n <;> rfl

theorem pieces_alone (place : Place) (x : Inline) : (place.alone x).pieces = [.text [x]] := by
  cases place <;> rfl

end Node

/-! ## What fits where -/

/-- Whether a block of this kind stands as a paragraph. -/
def Kind.isParagraph : Kind → Bool
  | .heading depth => !(1 ≤ depth ∧ depth ≤ 6)
  | .text | .image .. | .file _ | .whiteboard .. => true
  | _ => false

/-- Whether a block of this kind is a cell of a table. -/
def Kind.isTableCell : Kind → Bool
  | .tableCell => true
  | _ => false

/-- Whether a block fits directly inside another.  A page has room for anything but another page;
a quotation and a list item for anything but a page and a cell; a table that has columns for
cells; a cell for paragraphs; and other blocks have no room for blocks. -/
def Kind.admits (outer inner : Kind) : Bool :=
  match outer with
  | .page => !inner.isPage
  | .quote | .callout | .bullet | .ordered _ | .todo _ => !inner.isPage && !inner.isTableCell
  | .table _ columns => !columns.isEmpty && inner.isTableCell
  | .tableCell => inner.isParagraph
  | _ => false

/-- A block that has room in the block around it. -/
def Kind.FitsIn (inner outer : Kind) : Prop := outer.admits inner = true

instance : DecidableRel Kind.FitsIn :=
  fun inner outer => inferInstanceAs (Decidable (outer.admits inner = true))

/-- A visited block fits when it and every block around it, but the outermost, fit in the block
directly around them. -/
def Visit.Fits (v : Visit) : Prop := v.trail.IsChain Kind.FitsIn

instance (v : Visit) : Decidable v.Fits :=
  inferInstanceAs (Decidable (v.trail.IsChain Kind.FitsIn))

/-- Where the blocks inside a block stand. -/
def Kind.inside : Kind → Place
  | .tableCell => .cell
  | _ => .elsewhere

/-- Whether a block contributed inside a block of this kind stays there. -/
def Kind.keeps (outer : Kind) (n : Node) : Bool :=
  match outer with
  | .page => n.isRootContent
  | .quote | .callout | .bullet | .ordered _ | .todo _ => n.isBlockContent || n.item?.isSome
  | .table _ columns => !columns.isEmpty && n.cell?.isSome
  | .tableCell => n.isTextual
  | _ => false

namespace Block

variable {place : Place} {around : List Kind}

/-- The kind of a block shows in what it contributes. -/
theorem shape_of_mem_nodes {b : Block} (hb : b.kind ≠ .synced) {met : Gathered} {n : Node}
    (hn : n ∈ ((b.nodes place).run met).1) :
    n.isRootContent = !b.kind.isPage ∧ n.cell?.isSome = b.kind.isTableCell ∧
      n.isTextual = b.kind.isParagraph ∧
      (place = .elsewhere →
        (n.isBlockContent || n.item?.isSome) = (!b.kind.isPage && !b.kind.isTableCell)) := by
  obtain ⟨kind, zone, children⟩ := b
  cases kind
  case synced => exact absurd rfl hb
  case pending | unsupported => exact absurd hn List.not_mem_nil
  case heading depth =>
    obtain rfl := List.mem_singleton.1 hn
    by_cases hdepth : 1 ≤ depth ∧ depth ≤ 6 <;>
      simp [hdepth, Node.isRootContent, Node.cell?, Node.isTextual, Node.isBlockContent,
        Kind.isPage, Kind.isTableCell, Kind.isParagraph]
  case image | file | whiteboard =>
    obtain rfl := List.mem_singleton.1 hn
    cases place <;>
      simp [Place.alone, Node.isRootContent, Node.cell?, Node.isTextual, Node.isBlockContent,
        Kind.isPage, Kind.isTableCell, Kind.isParagraph]
  all_goals
    obtain rfl := List.mem_singleton.1 hn
    exact ⟨rfl, rfl, rfl, fun _ => rfl⟩

/-- A block's contribution stays inside another block exactly if the block fits there. -/
theorem keeps_of_mem_nodes {b : Block} (hb : b.kind ≠ .synced) {outer : Kind} {met : Gathered}
    {n : Node} (hn : n ∈ ((b.nodes outer.inside).run met).1) :
    outer.keeps n = outer.admits b.kind := by
  obtain ⟨hroot, hcell, htext, hblock⟩ := shape_of_mem_nodes hb hn
  cases outer
  case page => exact hroot
  case quote | callout | bullet | ordered | todo => exact hblock rfl
  case table => rw [Kind.keeps, Kind.admits, hcell]
  case tableCell => exact htext
  all_goals rfl

/-- Of a block inside another, everything stays or nothing. -/
theorem filter_keeps_nodes {b : Block} (hb : b.kind ≠ .synced) (outer : Kind) (met : Gathered) :
    ((b.nodes outer.inside).run met).1.filter outer.keeps =
      if outer.admits b.kind then ((b.nodes outer.inside).run met).1 else [] := by
  split
  · rename_i hadmits
    exact List.filter_eq_self.2 fun n hn => (keeps_of_mem_nodes hb hn).trans hadmits
  · rename_i hadmits
    refine List.filter_eq_nil_iff.2 fun n hn => ?_
    rwa [keeps_of_mem_nodes hb hn]

end Block

/-! ## Ways of reading -/

variable {β : Type}

/-- A way of reading to which it does not matter where a text is cut. -/
structure Additive (read : Piece → List β) : Prop where
  nil : read (.text []) = []
  append : ∀ xs ys, read (.text (xs ++ ys)) = read (.text xs) ++ read (.text ys)

/-- What is read of visits that fit, numbered from the slot that is free at first. -/
def readShown (read : Piece → List β) (free : Nat) (vs : List Visit) : List β :=
  ((withSlots free vs).filter fun p => p.1.Fits).flatMap fun p => read (p.1.content.piece p.2)

section

variable {read : Piece → List β}

theorem readShown_append (free : Nat) (us vs : List Visit) :
    readShown read free (us ++ vs) =
      readShown read free us ++ readShown read (free + slotCount us) vs := by
  rw [readShown, withSlots_append, List.filter_append, List.flatMap_append]
  rfl

theorem readShown_singleton {v : Visit} (h : v.Fits) (free : Nat) :
    readShown read free [v] = read (v.content.piece free) := by
  simp [readShown, withSlots, h]

theorem readShown_eq_nil {vs : List Visit} (h : ∀ v ∈ vs, ¬ v.Fits) (free : Nat) :
    readShown read free vs = [] := by
  have hnone : (withSlots free vs).filter (fun p => p.1.Fits) = [] := by
    refine List.filter_eq_nil_iff.2 fun p hp => ?_
    simpa using h p.1 (mem_of_mem_withSlots hp)
  rw [readShown, hnone, List.flatMap_nil]

namespace Node

/-- The cells that stay in a table are read row by row. -/
theorem pieces_table (rows columns : List String) (ns : List Node) :
    pieces (.table (rowsOf columns.length (ns.filterMap cell?))) =
      piecesAll (ns.filter (Kind.table rows columns).keeps) := by
  rw [pieces]
  cases columns with
  | nil =>
    have hnone : ns.filter (Kind.table rows []).keeps = [] := by
      refine List.filter_eq_nil_iff.2 fun n _ => ?_
      simp [Kind.keeps]
    simp [hnone, rowsOf, Block.rowCount, piecesAll]
  | cons column columns =>
    have hcolumns : 0 < (column :: columns).length := Nat.succ_pos _
    rw [flatten_rowsOf hcolumns]
    induction ns with
    | nil => rfl
    | cons n ns ih =>
      cases n <;> simp [Kind.keeps, cell?, piecesAll, pieces, List.filterMap_cons, ih]

/-- The texts that stay in a cell are read as one text. -/
theorem read_cellContent (h : Additive read) (ns : List Node) :
    read (.text (ns.flatMap cellContent)) =
      (piecesAll (ns.filter Kind.tableCell.keeps)).flatMap read := by
  induction ns with
  | nil => exact h.nil
  | cons n ns ih =>
    rw [List.flatMap_cons, h.append, ih]
    cases n <;>
      simp [Kind.keeps, isTextual, cellContent, piecesAll, pieces, h.nil, List.filter_cons]

end Node

/-! ## Reading what blocks contribute -/

namespace Block

mutual

/-- The blocks inside a block, at every depth. -/
def nested : Block → List Block
  | ⟨_, _, children⟩ => allNested children

/-- The blocks of a list and the blocks inside them, at every depth. -/
def allNested : List Block → List Block
  | [] => []
  | b :: bs => b :: (nested b ++ allNested bs)

end

theorem mem_allNested {bs : List Block} {d : Block} :
    d ∈ allNested bs ↔ ∃ b ∈ bs, d = b ∨ d ∈ b.nested := by
  induction bs with
  | nil => simp [allNested]
  | cons b bs ih =>
    rw [allNested, List.mem_cons, List.mem_append, ih, List.exists_mem_cons_iff, or_assoc]

theorem cons_nested_subset {b c : Block} (h : c ∈ b.children) : c :: c.nested ⊆ b.nested := by
  obtain ⟨kind, zone, children⟩ := b
  intro d hd
  rw [nested]
  exact mem_allNested.2 ⟨c, h, List.mem_cons.1 hd⟩

/-- If what stays of every block in a list is read as its visits that fit, so is what stays of
all of them. -/
theorem read_keeps_allNodes {outer : Kind} {around : List Kind} {place : Place} {bs : List Block}
    (h : ∀ b ∈ bs, ∀ met : Gathered,
      (Node.piecesAll (((b.nodes place).run met).1.filter outer.keeps)).flatMap read =
        readShown read met.issued (b.visitsIn around)) (met : Gathered) :
    (Node.piecesAll (((allNodes place bs).run met).1.filter outer.keeps)).flatMap read =
      readShown read met.issued (allVisitsIn around bs) := by
  induction bs generalizing met with
  | nil => rfl
  | cons b bs ih =>
    obtain ⟨hb, hbs⟩ := List.forall_mem_cons.1 h
    rw [run_allNodes_cons, allVisitsIn, readShown_append, List.filter_append, Node.piecesAll_append,
      List.flatMap_append, hb, ih hbs, b.run_nodes place around, Gathered.meetAll_eq]

/-- What is read of a block's contribution: what the block says itself, and what stays of the
blocks inside it. -/
theorem read_nodes_eq {b : Block} (hb : b.kind ≠ .synced)
    (hcell : b.kind.isTableCell = true → Additive read) (place : Place) (met : Gathered) :
    (Node.piecesAll ((b.nodes place).run met).1).flatMap read =
      b.own.flatMap (fun c => read (c.piece met.issued)) ++
        if b.kind.isVisited then
          (Node.piecesAll (((allNodes b.kind.inside b.children).run met).1.filter
            b.kind.keeps)).flatMap read
        else [] := by
  obtain ⟨kind, zone, children⟩ := b
  cases kind
  case synced => exact absurd rfl hb
  case pending | unsupported => rfl
  case divider | text | code => exact (List.append_nil _).symm
  case heading depth =>
    refine Eq.trans ?_ (List.append_nil _).symm
    show (Node.pieces (if 1 ≤ depth ∧ depth ≤ 6 then _ else _) ++ []).flatMap read =
      read (if 1 ≤ depth ∧ depth ≤ 6 then _ else _) ++ []
    split <;> rfl
  case image | file | whiteboard =>
    refine Eq.trans ?_ (List.append_nil _).symm
    show (Node.pieces (place.alone _) ++ []).flatMap read = _
    rw [Node.pieces_alone]
    rfl
  case page =>
    show (Node.piecesAll (rootContent _) ++ []).flatMap read = _
    rw [List.append_nil, Node.piecesAll_rootContent]
    rfl
  case quote | callout =>
    show (Node.piecesAll (blockContent _) ++ []).flatMap read = _
    rw [List.append_nil, Node.piecesAll_blockContent]
    rfl
  case bullet | ordered | todo =>
    show (Piece.text (zoneInlines zone) :: Node.piecesAll (blockContent _) ++ []).flatMap read =
      read (.text (zoneInlines zone)) ++ [] ++ _
    rw [List.append_nil, List.append_nil, List.flatMap_cons, Node.piecesAll_blockContent]
    rfl
  case table rows columns =>
    show (Node.pieces (.table (rowsOf columns.length _)) ++ []).flatMap read = _
    rw [List.append_nil, Node.pieces_table rows]
    rfl
  case tableCell =>
    refine Eq.trans ?_ (Node.read_cellContent (hcell rfl) _)
    exact List.append_nil _

/-- What is read of the visits to a block that fits: what the block says itself, and what is read
of the visits inside it. -/
theorem readShown_visitsIn {b : Block} (hb : b.kind ≠ .synced) {around : List Kind}
    (haround : (b.kind :: around).IsChain Kind.FitsIn) (free : Nat) :
    readShown read free (b.visitsIn around) =
      b.own.flatMap (fun c => read (c.piece free)) ++
        if b.kind.isVisited then readShown read free (allVisitsIn (b.kind :: around) b.children)
        else [] := by
  have hfits : ∀ content, Visit.Fits ⟨b.kind :: around, content⟩ := fun _ => haround
  have hown : ∀ content, readShown read free [⟨b.kind :: around, content⟩] =
      read (content.piece free) := fun content => readShown_singleton (hfits content) free
  obtain ⟨kind, zone, children⟩ := b
  rw [visitsIn_eq, readShown_append]
  cases kind
  case synced => exact absurd rfl hb
  case pending | unsupported => rfl
  case page | quote | callout | table | tableCell => rfl
  all_goals
    refine congrArg₂ (· ++ ·) ?_ rfl
    exact (hown _).trans (List.append_nil _).symm

/-- What stays of a block inside another is read as its visits that fit. -/
theorem read_keeps_nodes {b : Block}
    (hcell : ∀ d ∈ b :: b.nested, d.kind.isTableCell = true → Additive read) (outer : Kind)
    {around : List Kind} (haround : (outer :: around).IsChain Kind.FitsIn) (met : Gathered) :
    (Node.piecesAll (((b.nodes outer.inside).run met).1.filter outer.keeps)).flatMap read =
      readShown read met.issued (b.visitsIn (outer :: around)) := by
  induction b using Block.induction generalizing outer around met with
  | h b ih =>
    have hinside : ∀ outer around, (outer :: around).IsChain Kind.FitsIn → ∀ met : Gathered,
        (Node.piecesAll (((allNodes outer.inside b.children).run met).1.filter
          outer.keeps)).flatMap read =
        readShown read met.issued (allVisitsIn (outer :: around) b.children) := by
      intro outer around haround met
      refine read_keeps_allNodes (fun c hc met => ih c hc ?_ outer haround met) met
      exact fun d hd => hcell d (List.mem_cons_of_mem _ (cons_nested_subset hc hd))
    by_cases hb : b.kind = .synced
    · obtain ⟨kind, zone, children⟩ := b
      obtain rfl : kind = .synced := hb
      exact hinside outer around haround met
    · rw [filter_keeps_nodes hb]
      split
      · rename_i hadmits
        have hchain : (b.kind :: outer :: around).IsChain Kind.FitsIn :=
          List.isChain_cons_cons.2 ⟨hadmits, haround⟩
        rw [read_nodes_eq hb (hcell b (List.mem_cons_self ..)), readShown_visitsIn hb hchain,
          hinside b.kind (outer :: around) hchain]
      · rename_i hadmits
        -- the trails of all visits in the block go through the two kinds that do not fit
        have hnone : ∀ v ∈ b.visitsIn (outer :: around), ¬ v.Fits := by
          intro v hv hfits
          have htrail := suffix_of_mem_visitsIn hv
          rw [Kind.trail_eq hb] at htrail
          exact hadmits (List.isChain_cons_cons.1 (hfits.suffix htrail)).1
        rw [readShown_eq_nil hnone]
        rfl

/-- What a block contributes is read as its visits that fit. -/
theorem read_nodes {b : Block} (hb : b.kind ≠ .synced)
    (hcell : ∀ d ∈ b :: b.nested, d.kind.isTableCell = true → Additive read) {around : List Kind}
    (haround : (b.kind :: around).IsChain Kind.FitsIn) (place : Place) (met : Gathered) :
    (Node.piecesAll ((b.nodes place).run met).1).flatMap read =
      readShown read met.issued (b.visitsIn around) := by
  have hinside : (Node.piecesAll (((allNodes b.kind.inside b.children).run met).1.filter
      b.kind.keeps)).flatMap read =
      readShown read met.issued (allVisitsIn (b.kind :: around) b.children) := by
    refine read_keeps_allNodes (fun c hc met => read_keeps_nodes ?_ b.kind haround met) met
    exact fun d hd => hcell d (List.mem_cons_of_mem _ (cons_nested_subset hc hd))
  rw [read_nodes_eq hb (hcell b (List.mem_cons_self ..)), readShown_visitsIn hb haround, hinside]

end Block

/-! ## Reading documents -/

namespace Document

theorem childrenOf_eq_rootContent {nodes : List Node} (h : ∀ n ∈ nodes, n.isRootContent = true) :
    childrenOf nodes = rootContent nodes := by
  unfold childrenOf
  split
  · rename_i children
    simpa [Node.isRootContent] using h (.root children) (List.mem_cons_self ..)
  · rfl

theorem piecesAll_childrenOf_of_isRootContent {nodes : List Node}
    (h : ∀ n ∈ nodes, n.isRootContent = true) :
    Node.piecesAll (childrenOf nodes) = Node.piecesAll nodes := by
  rw [childrenOf_eq_rootContent h, Node.piecesAll_rootContent, List.filter_eq_self.2 h]

/-- A document is read like the contribution it is made of. -/
theorem piecesAll_childrenOf_nodes {b : Block} (hb : b.kind ≠ .synced) (met : Gathered) :
    Node.piecesAll (childrenOf ((b.nodes .elsewhere).run met).1) =
      Node.piecesAll ((b.nodes .elsewhere).run met).1 := by
  cases hpage : b.kind.isPage with
  | true =>
    obtain ⟨kind, zone, children⟩ := b
    cases kind <;> first | exact (List.append_nil _).symm | simp [Kind.isPage] at hpage
  | false =>
    refine piecesAll_childrenOf_of_isRootContent fun n hn => ?_
    rw [(Block.shape_of_mem_nodes hb hn).1, hpage]
    rfl

/-- What is read of a document: what its fitting blocks say, in the order in which they are
visited. -/
theorem read_ofBlock (b : Block) (slots : Slots)
    (hcell : ∀ d ∈ b :: b.nested, d.kind.isTableCell = true → Additive read) :
    (Node.piecesAll (ofBlock b slots).1.children).flatMap read =
      readShown read slots.issued b.visits := by
  by_cases hb : b.kind = .synced
  · rw [ofBlock_of_synced hb, Block.visits, hb]
    rfl
  · rw [ofBlock_eq hb, Block.visits_eq hb, piecesAll_childrenOf_nodes hb]
    exact Block.read_nodes hb hcell (List.isChain_singleton _) .elsewhere _

end Document

end

/-! ## Pages without tables -/

/-- Whether a block of this kind is no page, no table and no cell of one. -/
def Kind.isPlain : Kind → Bool
  | .page | .table .. | .tableCell => false
  | _ => true

/-- Pages and visited plain blocks have room for every plain block. -/
theorem Kind.fitsIn_of_isPlain {outer inner : Kind} (hsynced : outer ≠ .synced)
    (hvisited : outer.isVisited = true) (houter : outer.isPage = true ∨ outer.isPlain = true)
    (hinner : inner.isPlain = true) : inner.FitsIn outer := by
  have hpage : inner.isPage = false := by cases inner <;> first | rfl | exact nomatch hinner
  have hcell : inner.isTableCell = false := by cases inner <;> first | rfl | exact nomatch hinner
  unfold FitsIn
  cases outer
  case page => rw [admits, hpage]; rfl
  case quote | callout | bullet | ordered | todo => rw [admits, hpage, hcell]; rfl
  case synced => exact absurd rfl hsynced
  case table | tableCell => exact houter.elim nofun nofun
  all_goals exact nomatch hvisited

namespace Block

/-- Among blocks with room for every plain block, all visits to plain blocks that hold nothing but
plain blocks fit. -/
theorem fits_of_mem_visitsIn {b : Block} (hplain : ∀ d ∈ b :: b.nested, d.kind.isPlain = true)
    {outer : Kind} (hroom : ∀ inner : Kind, inner.isPlain = true → inner.FitsIn outer)
    {around : List Kind} (haround : (outer :: around).IsChain Kind.FitsIn) :
    ∀ v ∈ b.visitsIn (outer :: around), v.Fits := by
  induction b using Block.induction generalizing outer around with
  | h b ih =>
    have hb : b.kind.isPlain = true := hplain b (List.mem_cons_self ..)
    have hinner : ∀ c ∈ b.children, ∀ d ∈ c :: c.nested, d.kind.isPlain = true :=
      fun c hc d hd => hplain d (List.mem_cons_of_mem _ (cons_nested_subset hc hd))
    intro v hv
    by_cases hsynced : b.kind = .synced
    · obtain ⟨kind, zone, children⟩ := b
      obtain rfl : kind = .synced := hsynced
      obtain ⟨c, hc, hvc⟩ := mem_allVisitsIn.1 hv
      exact ih c hc (hinner c hc) hroom haround v hvc
    · have hchain : (b.kind :: outer :: around).IsChain Kind.FitsIn :=
        List.isChain_cons_cons.2 ⟨hroom b.kind hb, haround⟩
      rw [visitsIn_eq, Kind.trail_eq hsynced] at hv
      rcases List.mem_append.1 hv with hv | hv
      · obtain ⟨content, -, rfl⟩ := List.mem_map.1 hv
        exact hchain
      · split at hv
        · rename_i hvisited
          obtain ⟨c, hc, hvc⟩ := mem_allVisitsIn.1 hv
          refine ih c hc (hinner c hc) (fun inner hin => ?_) hchain v hvc
          exact Kind.fitsIn_of_isPlain hsynced hvisited (Or.inr hb) hin
        · exact absurd hv List.not_mem_nil

/-- Every visit to a page without tables and further pages fits. -/
theorem fits_of_mem_visits {b : Block} (hpage : b.kind = .page)
    (hplain : ∀ d ∈ b.nested, d.kind.isPlain = true) : ∀ v ∈ b.visits, v.Fits := by
  intro v hv
  obtain ⟨kind, zone, children⟩ := b
  obtain rfl : kind = .page := hpage
  obtain ⟨c, hc, hvc⟩ := mem_allVisitsIn.1 hv
  refine fits_of_mem_visitsIn (fun d hd => hplain d (cons_nested_subset hc hd))
    (fun inner hin => ?_) (List.isChain_singleton _) v hvc
  exact Kind.fitsIn_of_isPlain nofun rfl (Or.inl rfl) hin

end Block

/-- A page that holds neither tables nor cells nor further pages is read block by block as it is
visited: nothing is lost, repeated or moved. -/
theorem Document.pieces_ofBlock_of_plain {b : Block} (hpage : b.kind = .page)
    (hplain : ∀ d ∈ b.nested, d.kind.isPlain = true) (slots : Slots) :
    Node.piecesAll (ofBlock b slots).1.children =
      (withSlots slots.issued b.visits).map fun p => p.1.content.piece p.2 := by
  have hcell : ∀ d ∈ b :: b.nested, d.kind.isTableCell = true →
      Additive fun piece : Piece => [piece] := by
    intro d hd htable
    rcases List.mem_cons.1 hd with rfl | hd
    · rw [hpage] at htable
      exact nomatch htable
    · have hkind := hplain d hd
      cases hk : d.kind <;> simp_all [Kind.isPlain, Kind.isTableCell]
  have hfits : (withSlots slots.issued b.visits).filter (fun p => p.1.Fits) =
      withSlots slots.issued b.visits := by
    refine List.filter_eq_self.2 fun p hp => decide_eq_true ?_
    exact Block.fits_of_mem_visits hpage hplain p.1 (mem_of_mem_withSlots hp)
  have hread := read_ofBlock b slots hcell
  rwa [List.flatMap_singleton', readShown, hfits, ← List.map_eq_flatMap] at hread

/-- A page with a quotation, in which a bullet holds an image and code is kept in step with another
place, and with a rule below it. -/
def Document.quotingPage : Block where
  kind := .page
  children := [
    { kind := .quote
      children := [
        Block.ofRuns .bullet [{ text := "a" }]
          [{ kind := .image ⟨"a.png", "a", .answer (.ok .empty)⟩ none }],
        { kind := .synced
          children := [Block.ofRuns (.code "") [{ text := "x" }] []] }] },
    { kind := .pending },
    { kind := .divider }]

/-- The quoting page is read from its bullet to its rule. -/
theorem Document.pieces_quotingPage :
    quotingPage.kind = .page ∧ (∀ d ∈ quotingPage.nested, d.kind.isPlain = true) ∧
      Node.piecesAll (ofBlock quotingPage {}).1.children =
        [.text [.text "a"],
          .text [.image (.slot 0) "" none (some ⟨"a.png", "a", .answer (.ok .empty)⟩)],
          .code none "x", .rule] := by
  have hplain : ∀ d ∈ quotingPage.nested, d.kind.isPlain = true := by decide
  refine ⟨rfl, hplain, (pieces_ofBlock_of_plain rfl hplain {}).trans ?_⟩
  with_unfolding_all rfl

end DocExport
