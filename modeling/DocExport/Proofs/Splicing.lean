import DocExport.Proofs.DocumentOrder

/-!
# Blocks that do not show

A synced block stands for the blocks inside it, and a block that is pending or unsupported stands
for nothing.  Splicing a tree puts the former in the place of their wrappers and leaves the latter
out, at every depth.  No document shows the difference.

* **Main results.** `Block.shows_of_mem_nested_spliced` (a spliced tree holds only blocks that
  show), `Block.allNodes_inPlace` (what a block becomes is walked like the block) and
  `Document.ofBlock_spliced` (the document of a tree is that of the spliced tree).
-/

namespace DocExport

/-- Whether a block of this kind shows by itself where it stands in another block. -/
def Kind.shows : Kind → Bool
  | .synced | .pending | .unsupported _ => false
  | _ => true

namespace Block

mutual

/-- The blocks that a block becomes where it stands in another: the blocks inside it if it is
synced, none if it is pending or unsupported, and otherwise the block itself, with the blocks
inside it spliced. -/
def inPlace : Block → List Block
  | ⟨kind, zone, children⟩ =>
      match kind with
      | .synced => splicedAll children
      | .pending | .unsupported _ => []
      | kind => [⟨kind, zone, splicedAll children⟩]

/-- The blocks that a list of blocks becomes, in order. -/
def splicedAll : List Block → List Block
  | [] => []
  | b :: bs => b.inPlace ++ splicedAll bs

end

/-- A block with the blocks inside it spliced.  The block itself stays as it is. -/
def spliced (b : Block) : Block := { b with children := splicedAll b.children }

theorem splicedAll_eq_flatMap (bs : List Block) : splicedAll bs = bs.flatMap inPlace := by
  induction bs with
  | nil => rfl
  | cons b bs ih => rw [splicedAll, ih, List.flatMap_cons]

theorem inPlace_eq {b : Block} (h : b.kind.shows = true) : b.inPlace = [b.spliced] := by
  obtain ⟨kind, zone, children⟩ := b
  cases kind <;> first | rfl | exact nomatch h

/-! ## What is left in a spliced tree -/

/-- Only blocks that show are left among spliced blocks, at every depth. -/
theorem shows_of_mem_allNested_splicedAll {bs : List Block}
    (h : ∀ b ∈ bs, ∀ d ∈ allNested b.inPlace, d.kind.shows = true) :
    ∀ d ∈ allNested (splicedAll bs), d.kind.shows = true := by
  intro d hd
  rw [splicedAll_eq_flatMap] at hd
  obtain ⟨c, hc, hd⟩ := mem_allNested.1 hd
  obtain ⟨b, hb, hc⟩ := List.mem_flatMap.1 hc
  exact h b hb d (mem_allNested.2 ⟨c, hc, hd⟩)

/-- Only blocks that show are left of a block, at every depth. -/
theorem shows_of_mem_allNested_inPlace (b : Block) :
    ∀ d ∈ allNested b.inPlace, d.kind.shows = true := by
  induction b using Block.induction with
  | h b ih =>
    have hinside := shows_of_mem_allNested_splicedAll ih
    by_cases hb : b.kind.shows = true
    · intro d hd
      rw [inPlace_eq hb] at hd
      obtain ⟨c, hc, hd⟩ := mem_allNested.1 hd
      obtain rfl := List.mem_singleton.1 hc
      rcases hd with rfl | hd
      · exact hb
      · exact hinside d hd
    · obtain ⟨kind, zone, children⟩ := b
      cases kind
      case synced => exact hinside
      case pending | unsupported => exact List.forall_mem_nil _
      all_goals exact absurd rfl hb

/-- Inside a spliced block are only blocks that show, at every depth. -/
theorem shows_of_mem_nested_spliced (b : Block) :
    ∀ d ∈ b.spliced.nested, d.kind.shows = true :=
  shows_of_mem_allNested_splicedAll fun c _ => shows_of_mem_allNested_inPlace c

/-! ## Walking a spliced tree -/

variable {place : Place}

theorem allNodes_singleton (b : Block) : allNodes place [b] = b.nodes place := by
  simp [allNodes]

/-- Blocks after others are walked after them. -/
theorem allNodes_append (bs cs : List Block) :
    allNodes place (bs ++ cs) = do
      let first ← allNodes place bs
      let rest ← allNodes place cs
      return first ++ rest := by
  induction bs with
  | nil => simp [allNodes]
  | cons b bs ih =>
    simp only [List.cons_append, allNodes, ih, bind_assoc, pure_bind, List.append_assoc]

/-- Blocks in whose place others stand are walked alike if each is walked like those in its
place. -/
theorem allNodes_flatMap {f : Block → List Block} {bs : List Block}
    (h : ∀ b ∈ bs, allNodes place (f b) = b.nodes place) :
    allNodes place (bs.flatMap f) = allNodes place bs := by
  induction bs with
  | nil => rfl
  | cons b bs ih =>
    obtain ⟨hb, hbs⟩ := List.forall_mem_cons.1 h
    rw [List.flatMap_cons, allNodes_append, hb, ih hbs, allNodes]

theorem allNodes_splicedAll {bs : List Block}
    (h : ∀ b ∈ bs, allNodes place b.inPlace = b.nodes place) :
    allNodes place (splicedAll bs) = allNodes place bs := by
  rw [splicedAll_eq_flatMap, allNodes_flatMap h]

/-- A block in which others stand is walked like the block if those are walked like the ones in
whose place they stand. -/
theorem nodes_withChildren {b : Block} {children : List Block}
    (h : ∀ place, allNodes place children = allNodes place b.children) :
    Block.nodes place { b with children := children } = b.nodes place := by
  have hpart : part { b with children := children } = b.part := rfl
  rw [nodes_eq, nodes_eq, hpart]
  cases b.part with
  | holder inside build => exact congrArg (build <$> ·) (h (inside place))
  | leaf nodes | image label media | file media => rfl

theorem nodes_spliced {b : Block}
    (h : ∀ place, allNodes place (splicedAll b.children) = allNodes place b.children) :
    b.spliced.nodes place = b.nodes place :=
  nodes_withChildren h

/-- What a block becomes is walked like the block. -/
theorem allNodes_inPlace (b : Block) (place : Place) :
    allNodes place b.inPlace = b.nodes place := by
  induction b using Block.induction generalizing place with
  | h b ih =>
    have hinside : ∀ place, allNodes place (splicedAll b.children) = allNodes place b.children :=
      fun place => allNodes_splicedAll fun c hc => ih c hc place
    by_cases hb : b.kind.shows = true
    · rw [inPlace_eq hb, allNodes_singleton, nodes_spliced hinside]
    · obtain ⟨kind, zone, children⟩ := b
      cases kind
      case synced => exact hinside place
      case pending | unsupported => rfl
      all_goals exact absurd rfl hb

end Block

/-- Blocks that do not show make no difference: splicing a tree leaves only blocks that show inside
its root, and its document and the slots handed out stay the same. -/
theorem Document.ofBlock_spliced (b : Block) (slots : Slots) :
    (b.spliced.nested.all fun d => d.kind.shows) = true ∧
      ofBlock b.spliced slots = ofBlock b slots := by
  refine ⟨List.all_eq_true.2 b.shows_of_mem_nested_spliced, ?_⟩
  have hnodes : b.spliced.nodes .elsewhere = b.nodes .elsewhere :=
    Block.nodes_spliced fun place => Block.allNodes_splicedAll fun c _ => c.allNodes_inPlace place
  have hkind : b.spliced.kind = b.kind := rfl
  rw [ofBlock, ofBlock, hkind, hnodes]

end DocExport
