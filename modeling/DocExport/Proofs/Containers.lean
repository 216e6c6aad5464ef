import DocExport.Proofs.Splicing

/-!
# What containers hold

Pages, quotations and list items are *containers*: what they contribute is one node that holds
what the blocks inside them contribute, list items gathered into lists.  Every block that shows
contributes exactly one node, so the nodes offered to a container can be told apart by the
blocks they come from.

* **Main results.** `Block.exists_held` (what a container holds), `Block.map_isNumbered_allNodes`
  (one node for each block that shows) and `Node.groupItems_append` (where two lists of nodes do
  not share a list of items, each is gathered on its own).
-/

namespace DocExport

/-! ## Gathering nodes -/

namespace Node

/-- Where the last of some nodes and the first of others are not items of one list, the nodes are
gathered each on their own. -/
theorem groupItems_append {xs ys : List Node}
    (h : ∀ x ∈ xs.getLast?, ∀ y ∈ ys.head?, sameList x y = false) :
    groupItems (xs ++ ys) = groupItems xs ++ groupItems ys := by
  rw [groupItems, Adjacent.groups_append h, List.map_append, groupItems, groupItems]

/-- Nodes that are all items are gathered into one list for each group of items that carry each
other on. -/
theorem groupItems_map {β : Type} (item : β → ListItem Node) (xs : List β) :
    groupItems (xs.map fun x => listItem (item x)) =
      (Adjacent.groups (fun a b => (item a).continues (item b)) xs).map fun g =>
        listOf (item g.head) (g.tail.map item) := by
  rw [groupItems, Adjacent.groups_map, List.map_map]
  refine List.map_congr_left fun g _ => ?_
  rw [← ofGroup_items, List.map_map]
  rfl

/-- The nodes directly inside a page, a quotation or a list item. -/
def held : Node → List Node
  | .root children | .blockquote children => children
  | .listItem item => item.children
  | _ => []

/-- Whether a node is an item of an ordered list. -/
def isNumbered : Node → Bool
  | .listItem item => item.kind == .ordered
  | _ => false

/-- A node that is not an item of an ordered list shares no list with one that is. -/
theorem sameList_eq_false {x y : Node} (h : x.isNumbered ≠ y.isNumbered) :
    sameList x y = false := by
  cases x <;> cases y <;> first | rfl | skip
  case listItem.listItem a b =>
    simp only [isNumbered, ne_eq] at h
    rw [sameList, ListItem.continues, Bool.and_eq_false_iff]
    left
    rw [beq_eq_false_iff_ne]
    intro hkind
    exact h (by rw [hkind])

end Node

/-! ## Containers -/

namespace Kind

/-- Whether a block of this kind is an item of an ordered list. -/
def isOrdered : Kind → Bool
  | .ordered _ => true
  | _ => false

/-- Whether a block of this kind holds other blocks as a document does. -/
def isContainer : Kind → Bool
  | .page | .quote | .callout | .bullet | .ordered _ | .todo _ => true
  | _ => false

end Kind

namespace Block

variable {place : Place}

/-- A container contributes one node.  That holds what the blocks inside are gathered into, less
what may not stand there, but with all lists; an item holds its own text before it. -/
theorem exists_held {c : Block} (hc : c.kind.isContainer = true) (place : Place) (met : Gathered) :
    ∃ n own stays, ((c.nodes place).run met).1 = [n] ∧
      n.held = own ++
        (Node.groupItems ((allNodes .elsewhere c.children).run met).1).filter stays ∧
      ∀ ordered start spread items, stays (.list ordered start spread items) = true := by
  obtain ⟨kind, zone, children⟩ := c
  cases kind
  case page => exact ⟨_, [], Node.isRootContent, rfl, rfl, fun _ _ _ _ => rfl⟩
  case quote | callout => exact ⟨_, [], Node.isBlockContent, rfl, rfl, fun _ _ _ _ => rfl⟩
  case bullet | ordered | todo =>
    exact ⟨_, [.paragraph (zoneInlines zone)], Node.isBlockContent, rfl, rfl, fun _ _ _ _ => rfl⟩
  all_goals exact absurd hc Bool.false_ne_true

/-! ## One node for each block -/

/-- A block that shows contributes one node, which is an item of an ordered list exactly if the
block is. -/
theorem exists_node_of_shows {b : Block} (h : b.kind.shows = true) (place : Place)
    (met : Gathered) :
    ∃ n, ((b.nodes place).run met).1 = [n] ∧ n.isNumbered = b.kind.isOrdered := by
  obtain ⟨kind, zone, children⟩ := b
  cases kind
  case synced | pending | unsupported => exact absurd h Bool.false_ne_true
  case heading depth =>
    refine ⟨_, rfl, ?_⟩
    split <;> rfl
  case image | file | whiteboard =>
    refine ⟨_, rfl, ?_⟩
    cases place <;> rfl
  all_goals exact ⟨_, rfl, rfl⟩

theorem run_allNodes_append (bs cs : List Block) (met : Gathered) :
    (allNodes place (bs ++ cs)).run met =
      (((allNodes place bs).run met).1 ++
          ((allNodes place cs).run ((allNodes place bs).run met).2).1,
        ((allNodes place cs).run ((allNodes place bs).run met).2).2) := by
  rw [allNodes_append]
  rfl

/-- Blocks that show contribute one node each, and which of them are items of an ordered list can
be seen from the blocks. -/
theorem map_isNumbered_allNodes {bs : List Block} (h : ∀ b ∈ bs, b.kind.shows = true)
    (place : Place) (met : Gathered) :
    ((allNodes place bs).run met).1.map Node.isNumbered = bs.map fun b => b.kind.isOrdered := by
  induction bs generalizing met with
  | nil => rfl
  | cons b bs ih =>
    obtain ⟨hb, hbs⟩ := List.forall_mem_cons.1 h
    obtain ⟨n, hn, hnumbered⟩ := exists_node_of_shows hb place met
    rw [run_allNodes_cons, hn, List.singleton_append, List.map_cons, List.map_cons, hnumbered,
      ih hbs]

theorem eq_of_map_eq {α β γ : Type} {f : α → γ} {g : β → γ} {a? : Option α} {b? : Option β} {c : γ}
    (h : a?.map f = b?.map g) (hb : ∀ b ∈ b?, g b = c) : ∀ a ∈ a?, f a = c := by
  intro a ha
  rw [Option.mem_def.1 ha, Option.map_some] at h
  obtain ⟨b, hmem, hread⟩ := Option.map_eq_some_iff.1 h.symm
  rw [← hread]
  exact hb b hmem

theorem isNumbered_of_mem_getLast? {bs : List Block} (h : ∀ b ∈ bs, b.kind.shows = true)
    (hlast : ∀ b ∈ bs.getLast?, b.kind.isOrdered = false) (met : Gathered) :
    ∀ n ∈ ((allNodes place bs).run met).1.getLast?, n.isNumbered = false := by
  refine eq_of_map_eq ?_ hlast
  rw [← List.getLast?_map, ← List.getLast?_map, map_isNumbered_allNodes h]

theorem isNumbered_of_mem_head? {bs : List Block} (h : ∀ b ∈ bs, b.kind.shows = true)
    (hfirst : ∀ b ∈ bs.head?, b.kind.isOrdered = false) (met : Gathered) :
    ∀ n ∈ ((allNodes place bs).run met).1.head?, n.isNumbered = false := by
  refine eq_of_map_eq ?_ hfirst
  rw [← List.head?_map, ← List.head?_map, map_isNumbered_allNodes h]

end Block

end DocExport
