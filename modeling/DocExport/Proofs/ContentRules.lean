import DocExport.Proofs.Groups
import DocExport.Proofs.Walk

/-!
# What documents are made of

However blocks are nested in one another, the document made of them keeps the content rules of
Markdown at every depth: only block content stands inside a block, list items stand in lists of
their own kind and begin with a paragraph, headings have one of six depths, and no row of a table
and no list is empty.

* **Main results.** `Node.offered_of_mem_groupItems` (gathering items makes lawful lists),
  `Block.offered_of_mem_nodes` (what a block contributes) and `Document.contentRules_ofBlock` (the
  document of any block keeps the rules).
-/

namespace DocExport

/-! ## The rules -/

namespace Node

mutual

/-- The blocks inside a block, at every depth. -/
def nested : Node → List Node
  | .root children => allNested children
  | .blockquote children => allNested children
  | .list _ _ _ items => itemsNested items
  | .listItem item => itemNested item
  | _ => []

/-- The blocks of a list and the blocks inside them, at every depth. -/
def allNested : List Node → List Node
  | [] => []
  | n :: ns => n :: (nested n ++ allNested ns)

/-- The blocks of a list item, at every depth. -/
def itemNested : ListItem Node → List Node
  | ⟨_, _, _, children⟩ => allNested children

/-- The blocks of the items of a list, at every depth. -/
def itemsNested : List (ListItem Node) → List Node
  | [] => []
  | item :: items => itemNested item ++ itemsNested items

end

end Node

namespace ListItem

/-- The second of two items asks for the number after the first, if both ask for one. -/
def Successive (a b : ListItem Node) : Prop :=
  ∀ p n, a.numbering = some (.number p) → b.numbering = some (.number n) → n = p + 1

/-- A list item begins with a paragraph and holds block content only. -/
structure Lawful (item : ListItem Node) : Prop where
  lead : ∃ content rest, item.children = .paragraph content :: rest
  holds : ∀ n ∈ item.children, n.isBlockContent = true

/-- Items of one kind, in a list that is ordered and starts as they say. -/
inductive Uniform : Bool → Option Nat → List (ListItem Node) → Prop where
  /-- Tasks are not numbered. -/
  | task {items : List (ListItem Node)}
      (each : ∀ item ∈ items, item.checked.isSome = true ∧ item.numbering = none) :
      Uniform false none items
  /-- Numbered items are no tasks, and their numbers go up one by one. -/
  | ordered {items : List (ListItem Node)}
      (each : ∀ item ∈ items, item.numbering.isSome = true ∧ item.checked = none)
      (steps : items.IsChain Successive) :
      Uniform true ((items.head?.bind ListItem.numbering).bind Numbering.number?) items
  /-- Other items are neither. -/
  | bullet {items : List (ListItem Node)}
      (each : ∀ item ∈ items, item.checked = none ∧ item.numbering = none) :
      Uniform false none items

end ListItem

namespace Node

/-- The rule that a single block keeps. -/
def Lawful : Node → Prop
  | .heading depth _ => 1 ≤ depth ∧ depth ≤ 6
  | .blockquote children => ∀ n ∈ children, n.isBlockContent = true
  | .list ordered start _ items =>
      items ≠ [] ∧ ListItem.Uniform ordered start items ∧ ∀ item ∈ items, item.Lawful
  | .table rows => ∀ row ∈ rows, row ≠ []
  | _ => True

end Node

/-- The content rules of a document: directly in it stands block content, or a cell of a table;
further inside stands block content only; and every block keeps its own rule. -/
structure ContentRules (children : List Node) : Prop where
  top : ∀ n ∈ children, n.isBlockContent = true ∨ n.cell?.isSome = true
  inside : ∀ n ∈ children, ∀ inner ∈ n.nested, inner.isBlockContent = true
  lawful : ∀ n ∈ Node.allNested children, n.Lawful

/-! ## Blocks that keep the rules -/

namespace Node

/-- Block content that keeps the rules at every depth. -/
structure Clean (n : Node) : Prop where
  content : n.isBlockContent = true
  lawful : n.Lawful
  inside : ∀ inner ∈ n.nested, inner.isBlockContent = true ∧ inner.Lawful

theorem mem_allNested {ns : List Node} {n : Node} :
    n ∈ allNested ns ↔ ∃ m ∈ ns, n = m ∨ n ∈ m.nested := by
  induction ns with
  | nil => simp [allNested]
  | cons m ns ih =>
    rw [allNested, List.mem_cons, List.mem_append, ih, List.exists_mem_cons_iff, or_assoc]

theorem mem_itemsNested {items : List (ListItem Node)} {n : Node} :
    n ∈ itemsNested items ↔ ∃ item ∈ items, n ∈ allNested item.children := by
  induction items with
  | nil => simp [itemsNested]
  | cons item items ih =>
    rw [itemsNested, List.mem_append, ih, List.exists_mem_cons_iff, itemNested]

theorem clean_allNested {ns : List Node} (h : ∀ n ∈ ns, n.Clean) :
    ∀ n ∈ allNested ns, n.isBlockContent = true ∧ n.Lawful := by
  intro n hn
  obtain ⟨m, hm, rfl | hn⟩ := mem_allNested.1 hn
  · exact ⟨(h n hm).content, (h n hm).lawful⟩
  · exact (h m hm).inside n hn

theorem clean_of_nested_eq_nil {n : Node} (hcontent : n.isBlockContent = true) (hlawful : n.Lawful)
    (hnested : n.nested = []) : n.Clean :=
  ⟨hcontent, hlawful, by simp [hnested]⟩

theorem clean_blockquote {ns : List Node} (h : ∀ n ∈ ns, n.Clean) : (blockquote ns).Clean where
  content := rfl
  lawful n hn := (h n hn).content
  inside := clean_allNested h

/-- A list of clean blocks is clean if it keeps its own rule. -/
theorem clean_list {ordered spread : Bool} {start : Option Nat} {items : List (ListItem Node)}
    (hlawful : (list ordered start spread items).Lawful)
    (h : ∀ item ∈ items, ∀ n ∈ item.children, n.Clean) :
    (list ordered start spread items).Clean where
  content := rfl
  lawful := hlawful
  inside := by
    intro n hn
    obtain ⟨item, hitem, hn⟩ := mem_itemsNested.1 hn
    exact clean_allNested (h item hitem) n hn

/-- Clean blocks and loose cells keep the rules of a document. -/
theorem contentRules_of_clean {ns : List Node}
    (h : ∀ n ∈ ns, n.Clean ∨ n.cell?.isSome = true) : ContentRules ns where
  top n hn := (h n hn).imp_left Clean.content
  inside := by
    intro n hn inner hinner
    rcases h n hn with hclean | hcell
    · exact (hclean.inside inner hinner).1
    · cases n <;> simp_all [cell?, nested]
  lawful := by
    intro n hn
    obtain ⟨m, hm, hnm⟩ := mem_allNested.1 hn
    rcases h m hm with hclean | hcell
    · rcases hnm with rfl | hnm
      · exact hclean.lawful
      · exact (hclean.inside n hnm).2
    · cases m <;> simp_all [cell?, nested, Lawful]

/-! ## What blocks offer -/

/-- What a block may offer to what it stands in: clean blocks, list items that can be gathered
into lists, cells, whole documents, and inlines where they are asked for. -/
def Offered (place : Place) : Node → Prop
  | .root children => ContentRules children
  | .listItem item =>
      item.Lawful ∧ (item.checked = none ∨ item.numbering = none) ∧ ∀ n ∈ item.children, n.Clean
  | .tableCell _ => True
  | .tableRow _ => False
  | .phrasing _ => place = .cell
  | n => n.Clean

theorem Offered.clean {place : Place} {n : Node} (h : n.Offered place)
    (hcontent : n.isBlockContent = true) : n.Clean := by
  cases n <;> first | exact h | simp [isBlockContent] at hcontent

end Node

/-! ## Gathering items -/

namespace ListItem

theorem kind_eq_task_iff {item : ListItem Node} :
    item.kind = .task ↔ item.checked.isSome = true := by
  rw [kind]
  cases item.checked <;> cases item.numbering <;> simp

theorem kind_eq_ordered_iff {item : ListItem Node} :
    item.kind = .ordered ↔ item.numbering.isSome = true ∧ item.checked = none := by
  rw [kind]
  cases item.checked <;> cases item.numbering <;> simp

theorem kind_eq_bullet_iff {item : ListItem Node} :
    item.kind = .bullet ↔ item.checked = none ∧ item.numbering = none := by
  rw [kind]
  cases item.checked <;> cases item.numbering <;> simp

theorem successive_of_continues {a b : ListItem Node} (ha : a.kind = .ordered)
    (hab : a.continues b = true) : Successive a b := by
  intro p n hp hn
  rw [continues, Bool.and_eq_true, ha, hp, hn] at hab
  have hstep : p + 1 = n := by simpa [follows] using hab.2
  exact hstep.symm

/-- Every item of one list is of the kind of the first, and numbers go up one by one. -/
theorem uniform_of_isChain {first : ListItem Node} {items : List (ListItem Node)}
    (hchain : (first :: items).IsChain fun a b => a.continues b = true)
    (honce : ∀ item ∈ first :: items, item.checked = none ∨ item.numbering = none) :
    Uniform first.numbering.isSome (first.numbering.bind Numbering.number?) (first :: items) := by
  have hkind : ∀ item ∈ first :: items, item.kind = first.kind := by
    refine Adjacent.eq_head_of_isChain (hchain.imp fun a b hab => ?_)
    rw [continues, Bool.and_eq_true, beq_iff_eq] at hab
    exact hab.1
  have hfirst : first ∈ first :: items := List.mem_cons_self ..
  cases hlist : first.kind with
  | task =>
    have each : ∀ item ∈ first :: items, item.checked.isSome = true ∧ item.numbering = none := by
      intro item hitem
      have hchecked := kind_eq_task_iff.1 ((hkind item hitem).trans hlist)
      refine ⟨hchecked, (honce item hitem).resolve_left fun hnone => ?_⟩
      simp [hnone] at hchecked
    rw [(each first hfirst).2]
    exact Uniform.task each
  | ordered =>
    have each : ∀ item ∈ first :: items, item.numbering.isSome = true ∧ item.checked = none :=
      fun item hitem => kind_eq_ordered_iff.1 ((hkind item hitem).trans hlist)
    rw [(each first hfirst).1]
    exact Uniform.ordered each <| hchain.imp_of_mem_imp fun a b ha _ hab =>
      successive_of_continues ((hkind a ha).trans hlist) hab
  | bullet =>
    have each : ∀ item ∈ first :: items, item.checked = none ∧ item.numbering = none :=
      fun item hitem => kind_eq_bullet_iff.1 ((hkind item hitem).trans hlist)
    rw [(each first hfirst).2]
    exact Uniform.bullet each

end ListItem

namespace Node

/-- Neighbours of one list are all items. -/
theorem exists_items_of_isChain {first : ListItem Node} {rest : List Node}
    (h : (listItem first :: rest).IsChain fun a b => sameList a b = true) :
    ∃ items, rest = items.map listItem ∧
      (first :: items).IsChain fun a b => a.continues b = true := by
  induction rest generalizing first with
  | nil => exact ⟨[], rfl, List.isChain_singleton _⟩
  | cons next rest ih =>
    obtain ⟨hnext, hrest⟩ := List.isChain_cons_cons.1 h
    cases next with
    | listItem item =>
      obtain ⟨items, rfl, hchain⟩ := ih hrest
      exact ⟨item :: items, rfl, List.isChain_cons_cons.2 ⟨hnext, hchain⟩⟩
    | _ => exact absurd hnext (by simp [sameList])

theorem ofGroup_items (first : ListItem Node) (items : List (ListItem Node)) :
    ofGroup ⟨listItem first, items.map listItem⟩ = listOf first items := by
  have hgather : (items.map listItem).filterMap item? = items := by
    rw [List.filterMap_map]
    exact List.filterMap_some
  rw [ofGroup, hgather]

/-- What stands in the place of a group that does not begin with an item is its first block. -/
theorem ofGroup_of_item?_eq_none {g : Adjacent.Group Node} (h : g.head.item? = none) :
    ofGroup g = g.head := by
  rw [ofGroup]
  split
  · rename_i first hfirst
    rw [hfirst] at h
    simp [item?] at h
  · rfl

/-- Gathering items into lists leaves everything on offer. -/
theorem offered_of_mem_groupItems {place : Place} {nodes : List Node} {n : Node}
    (h : ∀ m ∈ nodes, m.Offered place) (hn : n ∈ groupItems nodes) : n.Offered place := by
  obtain ⟨g, hg, rfl⟩ := List.mem_map.1 hn
  have hall : ∀ m ∈ g.toList, m.Offered place := by
    intro m hm
    refine h m ?_
    rw [← Adjacent.flatMap_toList_groups sameList nodes]
    exact List.mem_flatMap.2 ⟨g, hg, hm⟩
  have hchain := Adjacent.isChain_of_mem_groups hg
  obtain ⟨head, tail⟩ := g
  cases hitem : head.item? with
  | none =>
    rw [ofGroup_of_item?_eq_none hitem]
    exact hall head (List.mem_cons_self ..)
  | some first =>
    obtain rfl : head = listItem first := by
      cases head <;> simp_all [item?]
    obtain ⟨items, rfl, hitems⟩ := exists_items_of_isChain hchain
    have hoffer : ∀ item ∈ first :: items, (listItem item).Offered place := by
      intro item hitem
      have hmem : listItem item ∈ (first :: items).map listItem := List.mem_map_of_mem hitem
      exact hall _ hmem
    rw [ofGroup_items]
    refine clean_list ⟨List.cons_ne_nil _ _, ?_, fun item hitem => (hoffer item hitem).1⟩
      fun item hitem => (hoffer item hitem).2.2
    exact ListItem.uniform_of_isChain hitems fun item hitem => (hoffer item hitem).2.1

theorem clean_of_mem_blockContent {place : Place} {nodes : List Node}
    (h : ∀ n ∈ nodes, n.Offered place) : ∀ n ∈ blockContent nodes, n.Clean := by
  intro n hn
  exact (offered_of_mem_groupItems h (List.mem_filter.1 hn).1).clean (isBlockContent_of_mem hn)

/-- What a document takes from blocks on offer keeps its rules. -/
theorem contentRules_rootContent {nodes : List Node} (h : ∀ n ∈ nodes, n.Offered .elsewhere) :
    ContentRules (rootContent nodes) := by
  refine contentRules_of_clean fun n hn => ?_
  obtain ⟨hgroup, hroot⟩ := List.mem_filter.1 hn
  have hoffer := offered_of_mem_groupItems h hgroup
  have hitem := item?_of_mem_groupItems hgroup
  cases n with
  | root => simp [isRootContent] at hroot
  | listItem => simp [item?] at hitem
  | tableCell => exact Or.inr rfl
  | tableRow => exact hoffer.elim
  | phrasing => cases hoffer
  | _ => exact Or.inl hoffer

/-- An item with a paragraph at its head takes what it holds from blocks on offer. -/
theorem offered_listItem {place : Place} {checked : Option Bool} {numbering : Option Numbering}
    {zone : Option Zone} {nodes : List Node} (honce : checked = none ∨ numbering = none)
    (h : ∀ n ∈ nodes, n.Offered .elsewhere) :
    (listItem (itemOf checked numbering zone nodes)).Offered place := by
  have hclean : ∀ n ∈ (itemOf checked numbering zone nodes).children, n.Clean := by
    refine List.forall_mem_cons.2 ⟨?_, clean_of_mem_blockContent h⟩
    exact clean_of_nested_eq_nil rfl trivial rfl
  exact ⟨⟨⟨_, _, rfl⟩, fun n hn => (hclean n hn).content⟩, honce, hclean⟩

end Node

/-! ## Blocks -/

theorem columns_pos_of_lt_rowCount {i columns cells : Nat} (h : i < Block.rowCount columns cells) :
    0 < columns := by
  rw [Block.rowCount] at h
  rcases Nat.eq_zero_or_pos columns with rfl | hpos
  · rw [Nat.div_zero] at h
    omega
  · exact hpos

/-- No row of a table is empty. -/
theorem ne_nil_of_mem_rowsOf {α : Type} {columns : Nat} {cells row : List α}
    (h : row ∈ rowsOf columns cells) : row ≠ [] := by
  obtain ⟨i, hi, rfl⟩ := List.mem_map.1 h
  rw [List.mem_range] at hi
  have hcolumns : 0 < columns := columns_pos_of_lt_rowCount hi
  -- the cells before this row do not fill the table
  have hfit : (i + 1) * columns ≤ cells.length + columns - 1 :=
    (Nat.le_div_iff_mul_le hcolumns).1 hi
  rw [Nat.succ_mul] at hfit
  rw [← List.length_pos_iff, List.length_take, List.length_drop]
  omega

namespace Block

/-- Blocks that hold nothing offer what they contribute. -/
theorem offered_of_leaf {b : Block} {place : Place} {nodes : List Node}
    (h : b.part = .leaf nodes) : ∀ n ∈ nodes, n.Offered place := by
  obtain ⟨kind, zone, children⟩ := b
  cases kind <;> simp only [part, Part.leaf.injEq, reduceCtorEq] at h <;> subst h
  case heading depth =>
    rw [List.forall_mem_singleton]
    split
    · rename_i hdepth
      exact Node.clean_of_nested_eq_nil rfl hdepth rfl
    · exact Node.clean_of_nested_eq_nil rfl trivial rfl
  case divider | text | code =>
    rw [List.forall_mem_singleton]
    exact Node.clean_of_nested_eq_nil rfl trivial rfl
  case pending | unsupported => exact List.forall_mem_nil _

/-- Blocks that hold others offer what they build of them. -/
theorem offered_of_holder {b : Block} {place : Place} {inside : Place → Place}
    {build : List Node → List Node} (h : b.part = .holder inside build) {inner : List Node}
    (hinner : ∀ n ∈ inner, n.Offered (inside place)) : ∀ n ∈ build inner, n.Offered place := by
  obtain ⟨kind, zone, children⟩ := b
  cases kind <;> simp only [part, Part.holder.injEq, reduceCtorEq] at h <;>
    obtain ⟨rfl, rfl⟩ := h
  case page =>
    rw [List.forall_mem_singleton]
    exact Node.contentRules_rootContent hinner
  case quote | callout =>
    rw [List.forall_mem_singleton]
    exact Node.clean_blockquote (Node.clean_of_mem_blockContent hinner)
  case bullet | ordered | todo =>
    rw [List.forall_mem_singleton]
    exact Node.offered_listItem (by simp) hinner
  case table =>
    rw [List.forall_mem_singleton]
    exact Node.clean_of_nested_eq_nil rfl (fun _ hrow => ne_nil_of_mem_rowsOf hrow) rfl
  case tableCell =>
    rw [List.forall_mem_singleton]
    exact trivial
  case synced => exact hinner

theorem offered_alone (place : Place) (x : Inline) : (place.alone x).Offered place := by
  cases place with
  | cell => rfl
  | elsewhere => exact Node.clean_of_nested_eq_nil rfl trivial rfl

/-- Whatever a block holds, it offers only what may be offered. -/
theorem offered_of_mem_nodes (b : Block) (place : Place) (met : Gathered) :
    ∀ n ∈ ((b.nodes place).run met).1, n.Offered place := by
  induction b using Block.induction generalizing place met with
  | h b ih =>
    have hinner : ∀ inside n, n ∈ ((allNodes inside b.children).run met).1 → n.Offered inside := by
      intro inside n hn
      obtain ⟨c, hc, met', hn'⟩ := exists_of_mem_allNodes hn
      exact ih c hc inside met' n hn'
    rw [nodes_eq]
    cases hpart : b.part with
    | leaf nodes => exact offered_of_leaf hpart
    | image label media => exact List.forall_mem_singleton.2 (offered_alone place _)
    | file media => exact List.forall_mem_singleton.2 (offered_alone place _)
    | holder inside build => exact offered_of_holder hpart (hinner _)

end Block

/-! ## Documents -/

namespace Document

theorem contentRules_childrenOf {nodes : List Node} (h : ∀ n ∈ nodes, n.Offered .elsewhere) :
    ContentRules (childrenOf nodes) := by
  unfold childrenOf
  split
  · rename_i children
    exact h (.root children) (List.mem_cons_self ..)
  · exact Node.contentRules_rootContent h

/-- The document of any block keeps the content rules at every depth. -/
theorem contentRules_ofBlock (b : Block) (slots : Slots) :
    ContentRules (ofBlock b slots).1.children := by
  rw [ofBlock]
  split
  · exact Node.contentRules_of_clean (List.forall_mem_nil _)
  · exact contentRules_childrenOf (b.offered_of_mem_nodes .elsewhere { issued := slots.issued })

end Document

end DocExport
