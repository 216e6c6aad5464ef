import DocExport.Proofs.References
import Mathlib.Data.List.Induction

/-!
# The media of a document

The images and files listed beside a document are those of its blocks, however deep they stand and
whether or not the document shows them.  To find them it takes no more than a walk through the tree,
a block before the blocks inside it.  Their targets are slots of their own: no other image or file
has them, neither in this document nor in any that was made before.

* **Main results.** `Block.map_content_visits` says that the visits to a tree are what its blocks
  say in the order of that walk, `Document.perm_targets` that a document takes each slot that is
  handed out for it once, and `Session.IsTidy.run` that nothing that has been made points to a slot
  still to be handed out.  `Session.collects` puts together what is listed beside a document, after
  any number of others.
-/

namespace DocExport

/-! ## The walk -/

namespace Block

mutual

/-- A block and the blocks inside it that are walked, each before those inside it. -/
def preorder : Block → List Block
  | ⟨kind, zone, children⟩ =>
      ⟨kind, zone, children⟩ :: if kind.isVisited then preorderAll children else []

/-- The blocks of a list and inside them, in order. -/
def preorderAll : List Block → List Block
  | [] => []
  | b :: bs => b.preorder ++ preorderAll bs

end

/-- The blocks of a whole tree that are walked.  A synced block is not walked by itself. -/
def walked (b : Block) : List Block :=
  match b.kind with
  | .synced => []
  | _ => b.preorder

/-- The image that a block is, by its label and its media. -/
def picture? (b : Block) : Option (String × Media) :=
  match b.kind with
  | .image media caption => some (withoutBreak (caption.getD ""), media)
  | .whiteboard token source => some ("", ⟨whiteboardName, token, source.mapAnswer Bitmap.snapshot⟩)
  | _ => none

/-- The file that a block is, by its label and its media. -/
def attachment? (b : Block) : Option (String × Media) :=
  match b.kind with
  | .file media => some (media.name, media)
  | _ => none

theorem preorderAll_eq_flatMap (bs : List Block) : preorderAll bs = bs.flatMap preorder := by
  induction bs with
  | nil => rfl
  | cons b bs ih => rw [preorderAll, ih, List.flatMap_cons]

theorem allVisitsIn_eq_flatMap (around : List Kind) (bs : List Block) :
    allVisitsIn around bs = bs.flatMap (visitsIn around) := by
  induction bs with
  | nil => rfl
  | cons b bs ih => rw [allVisitsIn, ih, List.flatMap_cons]

/-- The visits to a block are what the blocks of the walk say. -/
theorem map_content_visitsIn (b : Block) (around : List Kind) :
    (b.visitsIn around).map Visit.content = b.preorder.flatMap own := by
  induction b using Block.induction generalizing around with
  | h b ih =>
    have hinner : ∀ around, (allVisitsIn around b.children).map Visit.content =
        (preorderAll b.children).flatMap own := by
      intro around
      rw [allVisitsIn_eq_flatMap, preorderAll_eq_flatMap, List.map_flatMap, List.flatMap_assoc]
      exact List.flatMap_congr fun c hc => ih c hc around
    obtain ⟨kind, zone, children⟩ := b
    rw [visitsIn_eq, preorder, List.flatMap_cons, List.map_append, List.map_map]
    congr 1
    · exact List.map_id' _
    · split
      · exact hinner _
      · rfl

/-- The visits to a whole tree are what the blocks of the walk say. -/
theorem map_content_visits (b : Block) :
    b.visits.map Visit.content = b.walked.flatMap own := by
  by_cases h : b.kind = .synced
  · rw [visits, walked, h]
    rfl
  · have hwalked : b.walked = b.preorder := by
      rw [walked]
      split
      · rename_i hsynced
        exact absurd hsynced h
      · rfl
    rw [visits_eq h, hwalked, map_content_visitsIn]

end Block

/-! ## What is listed -/

/-- What an image or a file is, wherever it points. -/
def Asset.shown (a : Asset) : String × Option Media := (a.label, a.media)

/-- What is listed of visits does not hang on the slots. -/
theorem map_shown_withSlots (listed : Nat → Content → Option Asset)
    (h : ∀ slot c, (listed slot c).map Asset.shown = (listed 0 c).map Asset.shown) (free : Nat)
    (vs : List Visit) :
    ((withSlots free vs).filterMap fun p => listed p.2 p.1.content).map Asset.shown =
      (vs.map Visit.content).filterMap fun c => (listed 0 c).map Asset.shown := by
  conv_rhs => rw [← map_fst_withSlots free vs]
  rw [List.map_filterMap, List.map_map, List.filterMap_map]
  exact List.filterMap_congr fun p _ => h p.2 p.1.content

namespace Document

/-- The images of a document are those of the blocks of the walk. -/
theorem shown_images_ofBlock (b : Block) (slots : Slots) :
    (ofBlock b slots).1.images.map Asset.shown =
      (b.walked.filterMap Block.picture?).map fun x => (x.1, some x.2) := by
  rw [images_ofBlock, map_shown_withSlots Content.image? (fun slot c => by cases c <;> rfl),
    Block.map_content_visits, List.filterMap_flatMap, List.map_filterMap,
    List.filterMap_eq_flatMap_toList]
  refine List.flatMap_congr fun c _ => ?_
  obtain ⟨kind, zone, children⟩ := c
  cases kind <;> rfl

/-- The files of a document are those of the blocks of the walk. -/
theorem shown_files_ofBlock (b : Block) (slots : Slots) :
    (ofBlock b slots).1.files.map Asset.shown =
      (b.walked.filterMap Block.attachment?).map fun x => (x.1, some x.2) := by
  rw [files_ofBlock, map_shown_withSlots Content.file? (fun slot c => by cases c <;> rfl),
    Block.map_content_visits, List.filterMap_flatMap, List.map_filterMap,
    List.filterMap_eq_flatMap_toList]
  refine List.flatMap_congr fun c _ => ?_
  obtain ⟨kind, zone, children⟩ := c
  cases kind <;> rfl

/-! ## Slots of their own -/

/-- What is listed beside a document. -/
def listed (d : Document) : List Asset := d.images ++ d.files

/-- Images and files among numbered visits point to their numbers. -/
theorem perm_targets_withSlots (ps : List (Visit × Nat)) :
    ((ps.filterMap fun p => p.1.content.image? p.2) ++
        ps.filterMap fun p => p.1.content.file? p.2).map Asset.target |>.Perm
      ((ps.filter (·.1.content.isMedia)).map fun p => .slot p.2) := by
  induction ps with
  | nil => exact .nil
  | cons p ps ih =>
    rw [List.map_append] at ih ⊢
    cases hp : p.1.content with
    | said piece => simpa [hp, Content.image?, Content.file?, Content.isMedia] using ih
    | image label media =>
      simpa [hp, Content.image?, Content.file?, Content.isMedia] using ih
    | file media =>
      simp only [List.filterMap_cons, List.filter_cons, hp, Content.image?, Content.file?,
        Content.isMedia, List.map_cons, if_true]
      exact List.perm_middle.trans (ih.cons _)

theorem length_filter_isMedia (vs : List Visit) :
    (vs.filter (·.content.isMedia)).length = slotCount vs := by
  induction vs with
  | nil => rfl
  | cons v vs ih =>
    rw [slotCount, ← ih]
    cases hv : v.content <;> simp [hv, Content.slots, Content.isMedia, Nat.add_comm]

/-- **A document takes the slots that are handed out for it, each of them once.** -/
theorem perm_targets (b : Block) (slots : Slots) :
    ((ofBlock b slots).1.listed.map Asset.target).Perm
      ((List.range' slots.issued (slotCount b.visits)).map .slot) := by
  have hslots : ((withSlots slots.issued b.visits).filter (·.1.content.isMedia)).map Prod.snd =
      List.range' slots.issued (slotCount b.visits) := by
    rw [filter_isMedia_withSlots, List.zipIdx_map_snd, length_filter_isMedia]
  rw [listed, images_ofBlock, files_ofBlock, ← hslots, List.map_map]
  exact perm_targets_withSlots _

/-- What is listed points to a slot that was handed out for the document. -/
theorem mem_targets_iff (b : Block) (slots : Slots) (t : Target) :
    t ∈ (ofBlock b slots).1.listed.map Asset.target ↔
      ∃ id, t = .slot id ∧ slots.issued ≤ id ∧ id < slots.issued + slotCount b.visits := by
  rw [(perm_targets b slots).mem_iff, List.mem_map]
  simp only [List.mem_range'_1]
  constructor
  · rintro ⟨id, hid, rfl⟩
    exact ⟨id, rfl, hid⟩
  · rintro ⟨id, rfl, hid⟩
    exact ⟨id, hid, rfl⟩

/-- Where a document points: the targets of what is listed and of all nodes. -/
def targets (d : Document) : List Target :=
  d.listed.map Asset.target ++ (Node.refsAll d.children).map Ref.target

/-- The slots to which a document points are those that were handed out for it. -/
theorem lt_of_slot_mem_targets {b : Block} {slots : Slots} {id : Nat}
    (h : .slot id ∈ (ofBlock b slots).1.targets) : id < slots.issued + slotCount b.visits := by
  have hlisted : .slot id ∈ (ofBlock b slots).1.listed.map Asset.target := by
    rcases List.mem_append.1 h with h | h
    · exact h
    · obtain ⟨r, hr, htarget⟩ := List.mem_map.1 h
      -- a node with a slot is pending as long as nothing has been filled
      have hpending : r ∈ Node.pending {} (ofBlock b slots).1.children := by
        refine List.mem_filter.2 ⟨hr, ?_⟩
        rw [htarget]
        rfl
      obtain ⟨a, ha, hsame⟩ := exists_asset_of_mem_pending hpending
      exact List.mem_map.2 ⟨a, ha, hsame.trans htarget⟩
  obtain ⟨k, hk, -, hlt⟩ := (mem_targets_iff b slots _).1 hlisted
  obtain rfl := Target.slot.inj hk
  exact hlt

theorem slots_ofBlock (b : Block) (slots : Slots) :
    (ofBlock b slots).2 = { slots with issued := slots.issued + slotCount b.visits } := by
  by_cases h : b.kind = .synced
  · rw [ofBlock_of_synced h, Block.visits, h]
    rfl
  · rw [ofBlock_eq h]

end Document

/-! ## One document after the other -/

/-- One thing done by someone who has documents made. -/
inductive Deed where
  /-- Have a document made of a block. -/
  | make (b : Block)
  /-- Resolve the target of something that is listed beside a document made before. -/
  | settle (document place : Nat) (url : String)

/-- Documents made one after the other, and the slots of all of them. -/
structure Session where
  slots : Slots := {}
  documents : List Document := []

namespace Session

/-- The documents after one more deed.  A target that is already resolved stays as it is. -/
def after (s : Session) : Deed → Session
  | .make b =>
      let (document, slots) := Document.ofBlock b s.slots
      { slots, documents := s.documents ++ [document] }
  | .settle document place url =>
      match s.documents[document]?.bind fun d => d.listed[place]? with
      | none => s
      | some a =>
          match s.slots.resolve a.target url with
          | .ok slots => { s with slots }
          | .error _ => s

/-- The documents after a whole history of deeds. -/
def run (history : List Deed) : Session := history.foldl after {}

/-- The slots that are still to be handed out have nothing to do with what has been made. -/
structure IsTidy (s : Session) : Prop where
  /-- They have not been filled. -/
  unfilled : ∀ id, s.slots.issued ≤ id → s.slots.read (.slot id) = none
  /-- No document points to them. -/
  behind : ∀ d ∈ s.documents, ∀ id, .slot id ∈ d.targets → id < s.slots.issued

namespace IsTidy

variable {s : Session}

/-- Making a document takes the next slots. -/
theorem make (h : s.IsTidy) (b : Block) : (s.after (.make b)).IsTidy := by
  have hslots : (s.after (.make b)).slots =
      { s.slots with issued := s.slots.issued + slotCount b.visits } := Document.slots_ofBlock b _
  constructor
  · intro id hid
    rw [hslots] at hid ⊢
    exact h.unfilled id (Nat.le_trans (Nat.le_add_right _ _) hid)
  · intro d hd id hid
    rw [hslots]
    rcases List.mem_append.1 hd with hd | hd
    · exact Nat.lt_of_lt_of_le (h.behind d hd id hid) (Nat.le_add_right _ _)
    · rw [List.mem_singleton] at hd
      rw [hd] at hid
      exact Document.lt_of_slot_mem_targets hid

/-- Resolving what has been made fills no slot that is still to be handed out. -/
theorem settle (h : s.IsTidy) (document place : Nat) (url : String) :
    (s.after (.settle document place url)).IsTidy := by
  rw [after]
  split
  · exact h
  · rename_i a hfound
    split
    · rename_i slots hslots
      obtain ⟨d, hd, ha⟩ := Option.bind_eq_some_iff.1 hfound
      have hissued : slots.issued = s.slots.issued := Slots.issued_resolve hslots
      have htarget : a.target ∈ d.targets :=
        List.mem_append_left _ (List.mem_map_of_mem (List.mem_of_getElem? ha))
      constructor
      · intro id hid
        rw [hissued] at hid
        have hne : Target.slot id ≠ a.target := by
          intro hsame
          rw [← hsame] at htarget
          have hlt := h.behind d (List.mem_of_getElem? hd) id htarget
          exact absurd hlt (Nat.not_lt.2 hid)
        rw [Slots.read_resolve hslots, if_neg hne]
        exact h.unfilled id hid
      · rw [hissued]
        exact h.behind
    · exact h

/-- Whatever has been made and resolved, the slots still to be handed out are untouched. -/
theorem run (history : List Deed) : (Session.run history).IsTidy := by
  induction history using List.reverseRecOn with
  | nil => exact ⟨fun _ _ => rfl, fun _ hd => absurd hd List.not_mem_nil⟩
  | append_singleton history deed ih =>
    have hlast : Session.run (history ++ [deed]) = (Session.run history).after deed :=
      List.foldl_append
    rw [hlast]
    cases deed with
    | make b => exact ih.make b
    | settle document place url => exact ih.settle document place url

end IsTidy

/-- What is listed beside the document of a block, when it is made after others. -/
structure Collects (s : Session) (b : Block) : Prop where
  /-- The images are those of the walk through the block, with their labels and media. -/
  images : (Document.ofBlock b s.slots).1.images.map Asset.shown =
    (b.walked.filterMap Block.picture?).map fun x => (x.1, some x.2)
  /-- The files are those of the walk through the block, with their names and media. -/
  files : (Document.ofBlock b s.slots).1.files.map Asset.shown =
    (b.walked.filterMap Block.attachment?).map fun x => (x.1, some x.2)
  /-- Everything points to a slot that is pending. -/
  pending : ∀ a ∈ (Document.ofBlock b s.slots).1.listed, (∃ id, a.target = .slot id) ∧
    (Document.ofBlock b s.slots).2.read a.target = none
  /-- No two images or files point to the same slot. -/
  distinct : ((Document.ofBlock b s.slots).1.listed.map Asset.target).Nodup
  /-- No document that was made before points there. -/
  unused : ∀ a ∈ (Document.ofBlock b s.slots).1.listed, ∀ d ∈ s.documents, a.target ∉ d.targets

/-- **Documents collect the media of their blocks.**  Whatever has been made and resolved before,
the images and files listed beside the document of a block are exactly those of the walk through
it, in order, and their targets are pending slots of their own, which no other image or file and no
earlier document has. -/
theorem collects (history : List Deed) (b : Block) : (run history).Collects b := by
  have htidy := IsTidy.run history
  have hslot : ∀ a ∈ (Document.ofBlock b (run history).slots).1.listed,
      ∃ id, a.target = .slot id ∧ (run history).slots.issued ≤ id := by
    intro a ha
    obtain ⟨id, hid, hle, -⟩ := (Document.mem_targets_iff b _ _).1 (List.mem_map_of_mem ha)
    exact ⟨id, hid, hle⟩
  constructor
  · exact Document.shown_images_ofBlock b _
  · exact Document.shown_files_ofBlock b _
  · intro a ha
    obtain ⟨id, hid, hle⟩ := hslot a ha
    refine ⟨⟨id, hid⟩, ?_⟩
    rw [hid, Document.slots_ofBlock]
    exact htidy.unfilled id hle
  · rw [(Document.perm_targets b _).nodup_iff]
    refine List.Nodup.map (fun i j h => ?_) List.nodup_range'
    exact Target.slot.inj h
  · intro a ha d hd hmem
    obtain ⟨id, hid, hle⟩ := hslot a ha
    rw [hid] at hmem
    exact absurd (htidy.behind d hd id hmem) (Nat.not_lt.2 hle)

end Session

end DocExport
