import DocExport.Proofs.PageHalves

/-!
# Walking with the parent at hand

A tree can be walked with the parent of what is being built in the state, next to the images and
files that have been met.  Whoever walks into a block sets the parent for the blocks inside it and
puts back the one that was there before.  That is the walk which is told at every block where its
nodes will stand.  So no block leaves a trace behind but the images and files met in it, and nothing
of what was there before matters to it but whether media need a paragraph of their own.

* **Main results.** `Block.walk_eq` (the two walks are one), `Block.adds_walk` (what a walk through
  a block adds), `Document.ofBlock_page_singleton` (a block by itself and on a page of its own) and
  `Block.framed_walk` (what a walk leaves alone, and what its result depends on).
-/

namespace DocExport

/-! ## Parents -/

/-- What the nodes that are being built will stand in. -/
inductive Parent where
  | root
  | blockquote
  | listItem
  | table
  | tableCell
  deriving DecidableEq, Repr

/-- What the blocks inside a block of this kind are built for. -/
def Kind.parent? : Kind → Option Parent
  | .page => some .root
  | .quote | .callout => some .blockquote
  | .bullet | .ordered _ | .todo _ => some .listItem
  | .table .. => some .table
  | .tableCell => some .tableCell
  | _ => none

/-- Whether a block of this kind is an image or a file. -/
def Kind.isMedia : Kind → Bool
  | .image .. | .file _ | .whiteboard .. => true
  | _ => false

/-- Where media stand with this parent. -/
def Parent.place (parent : Option Parent) : Place :=
  if parent = some .tableCell then .cell else .elsewhere

/-- The state of a walk that keeps its parent at hand. -/
structure Walker extends Gathered where
  parent : Option Parent := none

/-- Where media stand with the parent at hand. -/
def Walker.place (w : Walker) : Place := Parent.place w.parent

theorem Walker.place_congr {v w : Walker}
    (h : v.parent = some .tableCell ↔ w.parent = some .tableCell) : v.place = w.place := by
  simp only [place, Parent.place, h]

/-- A walk that keeps its parent at hand. -/
abbrev Walk := StateM Walker

namespace Walk

variable {α : Type}

/-- Meet what is met where media stand with the parent at hand. -/
def placed (act : Place → Gather α) : Walk α := fun w =>
  let (a, met) := (act w.place).run w.toGathered
  (a, { w with toGathered := met })

/-- Meet something. -/
def gather (act : Gather α) : Walk α := placed fun _ => act

/-- Walk with another parent, and put back the one before. -/
def within (parent : Parent) (act : Walk α) : Walk α := do
  let before := (← get).parent
  modify fun w => { w with parent := some parent }
  let result ← act
  modify fun w => { w with parent := before }
  return result

theorem within_placed (parent : Parent) (act : Place → Gather α) :
    within parent (placed act) = placed fun _ => act (Parent.place (some parent)) := rfl

end Walk

/-! ## The walk -/

namespace Block

mutual

/-- Walk through a block.  A synced block by itself shows nothing. -/
def walk : Block → Walk (List Node)
  | ⟨kind, zone, children⟩ =>
      match part ⟨kind, zone, []⟩, kind.parent? with
      | .leaf nodes, _ => return nodes
      | .image label media, _ => do
          let image ← Walk.gather (Gather.image label media)
          return [(← get).place.alone image]
      | .file media, _ => do
          let link ← Walk.gather (Gather.file media)
          return [(← get).place.alone link]
      | .holder _ build, some parent => build <$> Walk.within parent (walkAll children)
      | .holder .., none => return []

/-- Walk through a list of blocks, and through what is inside of those that are synced. -/
def walkAll : List Block → Walk (List Node)
  | [] => return []
  | b :: bs => do
      let first ←
        match b with
        | ⟨.synced, _, children⟩ => walkAll children
        | b => walk b
      let rest ← walkAll bs
      return first ++ rest

end

theorem walk_of_synced {b : Block} (h : b.kind = .synced) : b.walk = pure [] := by
  obtain ⟨kind, zone, children⟩ := b
  obtain rfl : kind = .synced := h
  rfl

theorem walkAll_cons_of_synced {b : Block} (h : b.kind = .synced) (bs : List Block) :
    walkAll (b :: bs) = do return (← walkAll b.children) ++ (← walkAll bs) := by
  obtain ⟨kind, zone, children⟩ := b
  obtain rfl : kind = .synced := h
  rfl

theorem walkAll_cons {b : Block} (h : b.kind ≠ .synced) (bs : List Block) :
    walkAll (b :: bs) = do return (← b.walk) ++ (← walkAll bs) := by
  obtain ⟨kind, zone, children⟩ := b
  cases kind <;> first | rfl | exact absurd rfl h

/-- The walk through a block, by what it does. -/
theorem walk_eq_part (b : Block) :
    b.walk =
      match b.part, b.kind.parent? with
      | .leaf nodes, _ => pure nodes
      | .image label media, _ => Walk.placed fun place =>
          (fun image => [place.alone image]) <$> Gather.image label media
      | .file media, _ => Walk.placed fun place =>
          (fun link => [place.alone link]) <$> Gather.file media
      | .holder _ build, some parent => build <$> Walk.within parent (walkAll b.children)
      | .holder .., none => pure [] := by
  obtain ⟨kind, zone, children⟩ := b
  cases kind <;> rfl

/-- Media inside a block stand where its parent says. -/
theorem exists_parent {b : Block} {inside : Place → Place} {build : List Node → List Node}
    (hpart : b.part = .holder inside build) (hb : b.kind ≠ .synced) :
    ∃ parent, b.kind.parent? = some parent ∧
      inside = fun _ => Parent.place (some parent) := by
  obtain ⟨kind, zone, children⟩ := b
  cases kind <;> simp only [part, Part.holder.injEq, reduceCtorEq] at hpart
  case synced => exact absurd rfl hb
  all_goals
    obtain ⟨rfl, -⟩ := hpart
    exact ⟨_, rfl, rfl⟩

/-- A block is walked through as it is met where it stands, if what is inside it is. -/
theorem walk_eq_of_children {b : Block} (hb : b.kind ≠ .synced)
    (h : walkAll b.children = Walk.placed fun place => allNodes place b.children) :
    b.walk = Walk.placed fun place => b.nodes place := by
  rw [walk_eq_part]
  simp only [nodes_eq]
  cases hpart : b.part with
  | leaf nodes | image label media | file media => rfl
  | holder inside build =>
    obtain ⟨parent, hparent, rfl⟩ := exists_parent hpart hb
    rw [hparent, h]
    exact congrArg (build <$> ·) (Walk.within_placed parent _)

/-- Walking through blocks with the parent at hand is walking through them where they stand. -/
theorem walkAll_children_eq (b : Block) :
    walkAll b.children = Walk.placed fun place => allNodes place b.children := by
  induction b using Block.induction with
  | h b ih =>
    generalize b.children = bs at ih ⊢
    induction bs with
    | nil => rfl
    | cons c bs ihbs =>
      obtain ⟨hc, hbs⟩ := List.forall_mem_cons.1 ih
      by_cases hsynced : c.kind = .synced
      · rw [walkAll_cons_of_synced hsynced, hc, ihbs hbs]
        obtain ⟨kind, zone, children⟩ := c
        obtain rfl : kind = .synced := hsynced
        rfl
      · rw [walkAll_cons hsynced, walk_eq_of_children hsynced hc, ihbs hbs]
        rfl

/-- Walking through a block with the parent at hand is walking through it where it stands. -/
theorem walk_eq {b : Block} (hb : b.kind ≠ .synced) :
    b.walk = Walk.placed fun place => b.nodes place :=
  walk_eq_of_children hb b.walkAll_children_eq

theorem run_walk {b : Block} (hb : b.kind ≠ .synced) (w : Walker) :
    b.walk.run w =
      (((b.nodes w.place).run w.toGathered).1,
        { w with toGathered := ((b.nodes w.place).run w.toGathered).2 }) := by
  rw [walk_eq hb]
  rfl

theorem length_walk_le_one (b : Block) (w : Walker) : (b.walk.run w).1.length ≤ 1 := by
  obtain ⟨kind, zone, children⟩ := b
  cases kind <;> first | exact Nat.le_refl 1 | exact Nat.zero_le 1

end Block

/-! ## What a walk adds -/

/-- What a walk adds to what a walker has met: its nodes, and the images and files behind those that
were there.  The slots in `d` are counted from the first one that was free. -/
structure Walker.Adds (w : Walker) (result : List Node × Walker) (d : Document) : Prop where
  nodes : result.1 = Node.renameAll (· + w.issued) d.children
  images : result.2.images = w.images ++ d.images.map (Asset.rename (· + w.issued))
  files : result.2.files = w.files ++ d.files.map (Asset.rename (· + w.issued))
  /-- One slot is taken for each. -/
  issued : result.2.issued = w.issued + d.images.length + d.files.length
  /-- The parent at hand is the one it was. -/
  parent : result.2.parent = w.parent

namespace Block

/-- What a walk through a block gives that begins with nothing but a parent. -/
def contributed (b : Block) (parent : Option Parent) : Document where
  children := (b.walk.run ⟨{ issued := 0 }, parent⟩).1
  images := (b.walk.run ⟨{ issued := 0 }, parent⟩).2.images
  files := (b.walk.run ⟨{ issued := 0 }, parent⟩).2.files

theorem contributed_of_synced {b : Block} (h : b.kind = .synced) (parent : Option Parent) :
    b.contributed parent = {} := by
  rw [contributed, walk_of_synced h]
  rfl

theorem contributed_eq {b : Block} (hb : b.kind ≠ .synced) (parent : Option Parent) :
    b.contributed parent =
      { children := ((b.nodes (Parent.place parent)).run { issued := 0 }).1
        images := (withSlots 0 b.visits).filterMap fun p => p.1.content.image? p.2
        files := (withSlots 0 b.visits).filterMap fun p => p.1.content.file? p.2 } := by
  rw [contributed, run_walk hb, b.run_nodes _ [], Gathered.meetAll_eq, ← visits_eq hb]
  rfl

theorem contributed_congr {b : Block} {parent parent' : Option Parent}
    (h : b.kind ≠ .synced → b.nodes (Parent.place parent) = b.nodes (Parent.place parent')) :
    b.contributed parent = b.contributed parent' := by
  by_cases hb : b.kind = .synced
  · rw [contributed_of_synced hb, contributed_of_synced hb]
  · rw [contributed_eq hb, contributed_eq hb, h hb]

theorem nodes_congr_place {b : Block} (hb : b.kind ≠ .synced) (h : b.kind.isMedia = false)
    (place place' : Place) : b.nodes place = b.nodes place' := by
  obtain ⟨kind, zone, children⟩ := b
  cases kind
  case synced => exact absurd rfl hb
  case image | file | whiteboard => exact Bool.noConfusion h
  all_goals rfl

/-- A walk through a block adds to what was there what it gives when it begins with nothing. -/
theorem adds_walk (b : Block) (w : Walker) : w.Adds (b.walk.run w) (b.contributed w.parent) := by
  by_cases hb : b.kind = .synced
  · rw [contributed_of_synced hb, walk_of_synced hb]
    exact ⟨rfl, (List.append_nil _).symm, (List.append_nil _).symm, rfl, rfl⟩
  · have hnodes : ((b.nodes w.place).run w.toGathered).1 =
        ((b.nodes w.place).run { issued := 0 }).1.map (Node.rename (· + w.issued)) :=
      b.run_nodes_rename w.place (Nat.zero_add _).symm
    have himages := images_withSlots_add 0 w.issued b.visits
    have hfiles := files_withSlots_add 0 w.issued b.visits
    rw [Nat.zero_add] at himages hfiles
    rw [run_walk hb, contributed_eq hb, b.run_nodes _ [], Gathered.meetAll_eq, ← visits_eq hb]
    refine ⟨?_, congrArg (w.images ++ ·) himages, congrArg (w.files ++ ·) hfiles, ?_, rfl⟩
    · rw [Node.renameAll_eq_map]
      exact hnodes
    · rw [Nat.add_assoc]
      exact congrArg (w.issued + ·) (Document.slotCount_eq 0 b.visits)

end Block

/-! ## Blocks by themselves -/

namespace Document

/-- What a whole walk gives is made into a document. -/
def ofWalk (result : List Node × Walker) : Document where
  children := childrenOf result.1
  images := result.2.images
  files := result.2.files

/-- The document of a block that is not synced, by the walk through it. -/
theorem ofBlock_eq_run {b : Block} (hb : b.kind ≠ .synced) (slots : Slots) :
    ofBlock b slots =
      ({ children := childrenOf ((b.nodes .elsewhere).run { issued := slots.issued }).1
         images := ((b.nodes .elsewhere).run { issued := slots.issued }).2.images
         files := ((b.nodes .elsewhere).run { issued := slots.issued }).2.files },
        { slots with
          issued := ((b.nodes .elsewhere).run { issued := slots.issued }).2.issued }) := by
  rw [ofBlock]
  split
  · rename_i hsynced
    exact absurd hsynced hb
  · rfl

/-- The document of a block is made by a walk that begins with nothing, not even a parent. -/
theorem ofBlock_eq_ofWalk (b : Block) (slots : Slots) :
    ofBlock b slots =
      (ofWalk (b.walk.run { issued := slots.issued }),
        { slots with issued := (b.walk.run { issued := slots.issued }).2.issued }) := by
  by_cases hb : b.kind = .synced
  · rw [ofBlock_of_synced hb, Block.walk_of_synced hb]
    rfl
  · rw [ofBlock_eq_run hb, Block.run_walk hb]
    rfl

/-- A block that is neither a page nor synced makes the same document by itself and on a page of its
own. -/
theorem ofBlock_page_singleton {b : Block} (hpage : b.kind ≠ .page) (hb : b.kind ≠ .synced)
    (zone : Option Zone) (slots : Slots) :
    ofBlock ⟨.page, zone, [b]⟩ slots = ofBlock b slots := by
  have hroot : ∀ n ∈ ((b.nodes .elsewhere).run { issued := slots.issued }).1,
      n.isRootContent = true := by
    intro n hn
    obtain ⟨hshape, -⟩ := Block.shape_of_mem_nodes hb hn
    rw [hshape, Bool.not_eq_true']
    cases hkind : b.kind <;> first | rfl | exact absurd hkind hpage
  have hrun : (Block.nodes .elsewhere ⟨.page, zone, [b]⟩).run { issued := slots.issued } =
      ([.root (rootContent (((b.nodes .elsewhere).run { issued := slots.issued }).1 ++ []))],
        ((b.nodes .elsewhere).run { issued := slots.issued }).2) := rfl
  rw [ofBlock_eq_run (by simp), ofBlock_eq_run hb, hrun, List.append_nil,
    childrenOf_eq_rootContent hroot]
  rfl

end Document

/-! ## What a walk leaves alone -/

namespace Block

/-- Two walks through a block give the same: the same nodes, and the same images and files behind
those that were there, with slots that are counted from the first one that was free. -/
def WalkedAlike (b : Block) (v w : Walker) : Prop :=
  ∃ d, v.Adds (b.walk.run v) d ∧ w.Adds (b.walk.run w) d

/-- What a walk through a block leaves alone, and what its result depends on. -/
structure Framed (b : Block) : Prop where
  /-- The parent at hand is the one it was. -/
  parent : ∀ w : Walker, (b.walk.run w).2.parent = w.parent
  /-- Images and files are only added at the end. -/
  appended : ∀ w : Walker,
    w.images <+: (b.walk.run w).2.images ∧ w.files <+: (b.walk.run w).2.files
  /-- One node is built at most. -/
  single : ∀ w : Walker, (b.walk.run w).1.length ≤ 1
  /-- Nothing else of what was there matters but whether the parent is a table cell. -/
  alike : ∀ v w : Walker, (v.parent = some .tableCell ↔ w.parent = some .tableCell) →
    b.WalkedAlike v w
  /-- That only matters to images and files. -/
  always : b.kind.isMedia = false → ∀ v w : Walker, b.WalkedAlike v w
  /-- The document of the block is made by a walk that begins with nothing. -/
  document : ∀ slots, Document.ofBlock b slots =
    (Document.ofWalk (b.walk.run { issued := slots.issued }),
      { slots with issued := (b.walk.run { issued := slots.issued }).2.issued })
  /-- It is that of a page with the block alone, unless the block is a page or synced. -/
  alone : b.kind ≠ .page → b.kind ≠ .synced → ∀ zone slots,
    Document.ofBlock ⟨.page, zone, [b]⟩ slots = Document.ofBlock b slots

theorem walkedAlike_of_contributed {b : Block} {v w : Walker}
    (h : b.contributed v.parent = b.contributed w.parent) : b.WalkedAlike v w :=
  ⟨b.contributed v.parent, b.adds_walk v, h ▸ b.adds_walk w⟩

/-- **A walk through a block leaves nothing behind but the images and files met in it**, and what
was there before matters only in so far as media stand without a paragraph in a table cell. -/
theorem framed_walk (b : Block) : b.Framed where
  parent w := (b.adds_walk w).parent
  appended w :=
    ⟨⟨_, (b.adds_walk w).images.symm⟩, ⟨_, (b.adds_walk w).files.symm⟩⟩
  single := b.length_walk_le_one
  alike v w h := by
    have hplace : Parent.place v.parent = Parent.place w.parent := Walker.place_congr h
    exact walkedAlike_of_contributed (contributed_congr fun _ => by rw [hplace])
  always h v w :=
    walkedAlike_of_contributed (contributed_congr fun hb => nodes_congr_place hb h _ _)
  document := Document.ofBlock_eq_ofWalk b
  alone hpage hb zone slots := Document.ofBlock_page_singleton hpage hb zone slots

end Block

end DocExport
