import DocExport.Proofs.Walk

/-!
# The outline of a tree of blocks

Blocks are visited in the order in which they are written, a block before the blocks inside it.
A visit notes what the block says of its own and the blocks it stands in.  Images and files are
numbered as they are met, and their numbers are the slots that they point to.

* **Main results.** `Block.visits` lists the visits, `Block.run_nodes` says that walking a block
  meets exactly the images and files of its visits, and `Document.images_ofBlock` and
  `Document.files_ofBlock` read them off the document.
-/

namespace DocExport

/-! ## What blocks say -/

/-- What is read in one place of a document: a text with its inlines, a heading, code or a
rule. -/
inductive Piece where
  | text (content : List Inline)
  | heading (depth : Nat) (content : List Inline)
  | code (language : Option String) (value : String)
  | rule

/-- What a block says of its own. -/
inductive Content where
  | said (piece : Piece)
  | image (label : String) (media : Media)
  | file (media : Media)

namespace Content

/-- Whether the content is an image or a file. -/
def isMedia : Content → Bool
  | .said _ => false
  | .image .. | .file _ => true

/-- How many slots the content takes up: one if it is an image or a file. -/
def slots (c : Content) : Nat := if c.isMedia then 1 else 0

/-- The image that points to a slot, if the content is one. -/
def image? (slot : Nat) : Content → Option Asset
  | .image label media => some ⟨.slot slot, label, some media⟩
  | _ => none

/-- The file that points to a slot, if the content is one. -/
def file? (slot : Nat) : Content → Option Asset
  | .file media => some ⟨.slot slot, media.name, some media⟩
  | _ => none

/-- What is read where the content stands, if it points to a slot. -/
def piece (slot : Nat) : Content → Piece
  | .said piece => piece
  | .image label media => .text [Asset.image ⟨.slot slot, label, some media⟩]
  | .file media => .text [Asset.link ⟨.slot slot, media.name, some media⟩]

end Content

/-- What a block says of its own: its text, its code, a rule, an image or a file. -/
def Block.own (b : Block) : List Content :=
  match b.kind with
  | .text | .bullet | .ordered _ | .todo _ => [.said (.text (zoneInlines b.zone))]
  | .heading depth =>
      [.said (if 1 ≤ depth ∧ depth ≤ 6 then .heading depth (zoneInlines b.zone)
        else .text (zoneInlines b.zone))]
  | .code language => [.said (.code (languageOf language) (withoutBreak b.text))]
  | .divider => [.said .rule]
  | .image media caption => [.image (withoutBreak (caption.getD "")) media]
  | .file media => [.file media]
  | .whiteboard token source =>
      [.image "" ⟨whiteboardName, token, source.mapAnswer Bitmap.snapshot⟩]
  | .page | .quote | .callout | .table .. | .tableCell | .synced | .pending | .unsupported _ => []

/-! ## Visits -/

/-- A block that says something, with the blocks it stands in. -/
structure Visit where
  /-- The kinds of the block and of the blocks around it, from the inside out. -/
  trail : List Kind
  /-- What the block says. -/
  content : Content

/-- Whether the blocks inside a block of this kind are visited. -/
def Kind.isVisited : Kind → Bool
  | .page | .quote | .callout | .bullet | .ordered _ | .todo _ | .table .. | .tableCell
  | .synced => true
  | _ => false

/-- The kinds around the blocks inside a block; a synced block does not count. -/
def Kind.trail (around : List Kind) : Kind → List Kind
  | .synced => around
  | kind => kind :: around

theorem Kind.trail_eq {kind : Kind} (h : kind ≠ .synced) (around : List Kind) :
    kind.trail around = kind :: around := by
  cases kind <;> first | rfl | exact absurd rfl h

mutual

/-- The visits to a block and to the blocks inside it, among blocks of the given kinds. -/
def Block.visitsIn (around : List Kind) : Block → List Visit
  | ⟨kind, zone, children⟩ =>
      (Block.own ⟨kind, zone, []⟩).map (⟨kind.trail around, ·⟩) ++
        if kind.isVisited then Block.allVisitsIn (kind.trail around) children else []

/-- The visits to a list of blocks. -/
def Block.allVisitsIn (around : List Kind) : List Block → List Visit
  | [] => []
  | b :: bs => b.visitsIn around ++ Block.allVisitsIn around bs

end

/-- The visits to a whole tree of blocks.  A synced block by itself is not visited. -/
def Block.visits (b : Block) : List Visit :=
  match b.kind with
  | .synced => []
  | _ => b.visitsIn []

/-- Number visits: each goes with the number of the slot that is free when it is made. -/
def withSlots (free : Nat) : List Visit → List (Visit × Nat)
  | [] => []
  | v :: vs => (v, free) :: withSlots (free + v.content.slots) vs

/-- How many slots visits take up. -/
def slotCount : List Visit → Nat
  | [] => 0
  | v :: vs => v.content.slots + slotCount vs

theorem withSlots_append (free : Nat) (us vs : List Visit) :
    withSlots free (us ++ vs) = withSlots free us ++ withSlots (free + slotCount us) vs := by
  induction us generalizing free with
  | nil => rfl
  | cons u us ih => simp [withSlots, slotCount, ih, Nat.add_assoc]

theorem map_fst_withSlots (free : Nat) (vs : List Visit) :
    (withSlots free vs).map Prod.fst = vs := by
  induction vs generalizing free with
  | nil => rfl
  | cons v vs ih => rw [withSlots, List.map_cons, ih]

theorem mem_of_mem_withSlots {p : Visit × Nat} {free : Nat} {vs : List Visit}
    (h : p ∈ withSlots free vs) : p.1 ∈ vs := by
  have hmem : p.1 ∈ (withSlots free vs).map Prod.fst := List.mem_map_of_mem h
  rwa [map_fst_withSlots] at hmem

theorem filter_isMedia_withSlots (free : Nat) (vs : List Visit) :
    (withSlots free vs).filter (·.1.content.isMedia) =
      (vs.filter (·.content.isMedia)).zipIdx free := by
  induction vs generalizing free with
  | nil => rfl
  | cons v vs ih =>
    cases hv : v.content.isMedia <;> simp [withSlots, hv, Content.slots, ih]

namespace Block

variable {place : Place} {around : List Kind} {met : Gathered}

theorem visitsIn_eq (b : Block) :
    b.visitsIn around =
      b.own.map (⟨b.kind.trail around, ·⟩) ++
        if b.kind.isVisited then allVisitsIn (b.kind.trail around) b.children else [] := by
  obtain ⟨kind, zone, children⟩ := b
  rw [visitsIn]
  cases kind <;> rfl

theorem mem_allVisitsIn {bs : List Block} {v : Visit} :
    v ∈ allVisitsIn around bs ↔ ∃ b ∈ bs, v ∈ b.visitsIn around := by
  induction bs with
  | nil => simp [allVisitsIn]
  | cons b bs ih => simp only [allVisitsIn, List.mem_append, ih, List.mem_cons, exists_eq_or_imp]

/-- Whatever is visited in a block stands in that block. -/
theorem suffix_of_mem_visitsIn {b : Block} {v : Visit} (h : v ∈ b.visitsIn around) :
    b.kind.trail around <:+ v.trail := by
  induction b using Block.induction generalizing around with
  | h b ih =>
    rw [visitsIn_eq] at h
    rcases List.mem_append.1 h with h | h
    · obtain ⟨content, -, rfl⟩ := List.mem_map.1 h
      exact List.suffix_refl _
    · split at h
      · obtain ⟨c, hc, hv⟩ := mem_allVisitsIn.1 h
        refine List.IsSuffix.trans ?_ (ih c hc hv)
        cases c.kind <;> simp [Kind.trail]
      · exact absurd h List.not_mem_nil

/-- Whatever is visited is said by some block. -/
theorem exists_own_of_mem_visitsIn {b : Block} {v : Visit} (h : v ∈ b.visitsIn around) :
    ∃ d : Block, v.content ∈ d.own := by
  induction b using Block.induction generalizing around with
  | h b ih =>
    rw [visitsIn_eq] at h
    rcases List.mem_append.1 h with h | h
    · obtain ⟨content, hcontent, rfl⟩ := List.mem_map.1 h
      exact ⟨b, hcontent⟩
    · split at h
      · obtain ⟨c, hc, hv⟩ := mem_allVisitsIn.1 h
        exact ih c hc hv
      · exact absurd h List.not_mem_nil

end Block

/-! ## Walking a tree -/

namespace Gathered

/-- What has been met after one more thing: an image or a file takes the free slot. -/
def meet (met : Gathered) (c : Content) : Gathered where
  issued := met.issued + c.slots
  images := met.images ++ (c.image? met.issued).toList
  files := met.files ++ (c.file? met.issued).toList

/-- What has been met after visits. -/
def meetAll (met : Gathered) (vs : List Visit) : Gathered :=
  vs.foldl (fun met v => met.meet v.content) met

theorem meet_said (met : Gathered) (piece : Piece) : met.meet (.said piece) = met := by
  simp [meet, Content.slots, Content.isMedia, Content.image?, Content.file?]

theorem meet_image (met : Gathered) (label : String) (media : Media) :
    met.meet (.image label media) =
      { met with
        issued := met.issued + 1
        images := met.images ++ [⟨.slot met.issued, label, some media⟩] } := by
  simp [meet, Content.slots, Content.isMedia, Content.image?, Content.file?]

theorem meet_file (met : Gathered) (media : Media) :
    met.meet (.file media) =
      { met with
        issued := met.issued + 1
        files := met.files ++ [⟨.slot met.issued, media.name, some media⟩] } := by
  simp [meet, Content.slots, Content.isMedia, Content.image?, Content.file?]

theorem meetAll_cons (met : Gathered) (v : Visit) (vs : List Visit) :
    met.meetAll (v :: vs) = (met.meet v.content).meetAll vs := rfl

theorem meetAll_append (met : Gathered) (us vs : List Visit) :
    met.meetAll (us ++ vs) = (met.meetAll us).meetAll vs :=
  List.foldl_append

/-- Visits add their images and files to what has been met, in order. -/
theorem meetAll_eq (met : Gathered) (vs : List Visit) :
    met.meetAll vs =
      { issued := met.issued + slotCount vs
        images := met.images ++
          (withSlots met.issued vs).filterMap fun p => p.1.content.image? p.2
        files := met.files ++
          (withSlots met.issued vs).filterMap fun p => p.1.content.file? p.2 } := by
  induction vs generalizing met with
  | nil => simp [meetAll, slotCount, withSlots]
  | cons v vs ih =>
    rw [meetAll_cons, ih]
    cases hv : v.content <;>
      simp [meet, withSlots, slotCount, hv, Content.slots, Content.isMedia, Content.image?,
        Content.file?, Nat.add_assoc]

end Gathered

namespace Block

variable {place : Place} {around : List Kind}

theorem run_allNodes_cons (b : Block) (bs : List Block) (met : Gathered) :
    (allNodes place (b :: bs)).run met =
      (((b.nodes place).run met).1 ++
          ((allNodes place bs).run ((b.nodes place).run met).2).1,
        ((allNodes place bs).run ((b.nodes place).run met).2).2) := rfl

/-- Walking a list of blocks meets what is visited in them, if this holds of each of them. -/
theorem run_allNodes {bs : List Block} (met : Gathered)
    (h : ∀ b ∈ bs, ∀ met, ((b.nodes place).run met).2 = met.meetAll (b.visitsIn around)) :
    ((allNodes place bs).run met).2 = met.meetAll (allVisitsIn around bs) := by
  induction bs generalizing met with
  | nil => rfl
  | cons b bs ih =>
    obtain ⟨hb, hbs⟩ := List.forall_mem_cons.1 h
    rw [run_allNodes_cons, allVisitsIn, Gathered.meetAll_append, ← hb]
    exact ih _ hbs

/-- Walking a block meets exactly what is visited in it. -/
theorem run_nodes (b : Block) (place : Place) (around : List Kind) (met : Gathered) :
    ((b.nodes place).run met).2 = met.meetAll (b.visitsIn around) := by
  induction b using Block.induction generalizing place around met with
  | h b ih =>
    have hinner : ∀ place around met, ((allNodes place b.children).run met).2 =
        met.meetAll (allVisitsIn around b.children) :=
      fun place around met => run_allNodes met fun c hc met => ih c hc place around met
    obtain ⟨kind, zone, children⟩ := b
    rw [visitsIn_eq]
    cases kind
    case divider | heading | code | text => exact (Gathered.meet_said met _).symm
    case image | whiteboard => exact (Gathered.meet_image met _ _).symm
    case file => exact (Gathered.meet_file met _).symm
    case pending | unsupported => rfl
    case page | quote | callout | table | tableCell | synced => exact hinner _ _ met
    case bullet | ordered | todo =>
      show ((allNodes .elsewhere children).run met).2 =
        (met.meet (.said (.text (zoneInlines zone)))).meetAll (allVisitsIn (_ :: around) children)
      rw [Gathered.meet_said]
      exact hinner _ _ met

end Block

/-! ## The media of a document -/

theorem Block.visits_eq {b : Block} (h : b.kind ≠ .synced) : b.visits = b.visitsIn [] := by
  rw [visits]
  split
  · rename_i hsynced
    exact absurd hsynced h
  · rfl

theorem Block.exists_own_of_mem_visits {b : Block} {v : Visit} (h : v ∈ b.visits) :
    ∃ d : Block, v.content ∈ d.own := by
  by_cases hb : b.kind = .synced
  · rw [visits, hb] at h
    exact absurd h List.not_mem_nil
  · rw [visits_eq hb] at h
    exact exists_own_of_mem_visitsIn h

namespace Document

/-- The document of a block that is not synced holds what the block contributes, and lists the
images and files met in it. -/
theorem ofBlock_eq {b : Block} (h : b.kind ≠ .synced) (slots : Slots) :
    ofBlock b slots =
      ({ children := childrenOf ((b.nodes .elsewhere).run { issued := slots.issued }).1
         images := (withSlots slots.issued b.visits).filterMap fun p => p.1.content.image? p.2
         files := (withSlots slots.issued b.visits).filterMap fun p => p.1.content.file? p.2 },
        { slots with issued := slots.issued + slotCount b.visits }) := by
  have hmet := b.run_nodes .elsewhere [] { issued := slots.issued }
  rw [Gathered.meetAll_eq, ← Block.visits_eq h] at hmet
  rw [ofBlock]
  split
  · rename_i hsynced
    exact absurd hsynced h
  · generalize (b.nodes .elsewhere).run { issued := slots.issued } = result at hmet ⊢
    obtain ⟨nodes, met⟩ := result
    subst hmet
    rfl

theorem ofBlock_of_synced {b : Block} (h : b.kind = .synced) (slots : Slots) :
    ofBlock b slots = ({}, slots) := by
  rw [ofBlock, h]

/-- The images of a document are those visited in its blocks, in order. -/
theorem images_ofBlock (b : Block) (slots : Slots) :
    (ofBlock b slots).1.images =
      (withSlots slots.issued b.visits).filterMap fun p => p.1.content.image? p.2 := by
  by_cases h : b.kind = .synced
  · rw [ofBlock_of_synced h, Block.visits, h]
    rfl
  · rw [ofBlock_eq h]

/-- The files of a document are those visited in its blocks, in order. -/
theorem files_ofBlock (b : Block) (slots : Slots) :
    (ofBlock b slots).1.files =
      (withSlots slots.issued b.visits).filterMap fun p => p.1.content.file? p.2 := by
  by_cases h : b.kind = .synced
  · rw [ofBlock_of_synced h, Block.visits, h]
    rfl
  · rw [ofBlock_eq h]

end Document

end DocExport
