import DocExport.Proofs.DocumentOrder
import DocExport.Proofs.Reading
import Mathlib.Data.List.Nodup

/-!
# References to media

A document refers to an image or a file by a node that holds its target.  The images and files
listed beside the document are met while its blocks are visited, whether or not they fit where
they stand; the nodes that refer to them are left only by those that fit.

* **Main results.** `Inline.refsAll_coalesce_subset` (coalescing makes up no reference),
  `Document.slotRefs_ofBlock` (the references to slots are those of the fitting images and files,
  in the order of the visits), `Document.accounts_ofBlock` (every pending node is listed, and no
  slot stands in two nodes) and `Document.exists_ref_iff_fits` (a listed image or file stands in
  the document exactly if it fits).
-/

namespace DocExport

/-! ## References -/

/-- A node that points somewhere: an image or a link with its target. -/
inductive Ref where
  | image (target : Target)
  | link (target : Target)
  deriving DecidableEq, Repr

namespace Ref

/-- Where the node points. -/
def target : Ref → Target
  | .image target | .link target => target

/-- The target of an image. -/
def image? : Ref → Option Target
  | .image target => some target
  | .link _ => none

/-- The target of a link. -/
def link? : Ref → Option Target
  | .image _ => none
  | .link target => some target

/-- The number of the slot to which the node points, unless its target is known. -/
def slot? (r : Ref) : Option Nat :=
  match r.target with
  | .known _ => none
  | .slot id => some id

theorem slot?_eq_some_iff {r : Ref} {id : Nat} : r.slot? = some id ↔ r.target = .slot id := by
  unfold slot?
  cases r.target <;> simp

/-- A node points to a slot if its target is pending. -/
theorem isSome_slot?_of_read {slots : Slots} {r : Ref} (h : slots.read r.target = none) :
    r.slot?.isSome = true := by
  unfold slot?
  cases htarget : r.target with
  | known url =>
    rw [htarget] at h
    exact nomatch h
  | slot id => rfl

end Ref

namespace Inline

mutual

/-- The images and links in an inline, each link before what it holds. -/
def refs : Inline → List Ref
  | .text _ | .code _ | .math _ => []
  | .emphasis xs | .strong xs | .delete xs => refsAll xs
  | .link target _ _ xs => .link target :: refsAll xs
  | .image target _ _ _ => [.image target]

/-- The images and links in a list of inlines. -/
def refsAll : List Inline → List Ref
  | [] => []
  | x :: xs => refs x ++ refsAll xs

end

theorem refsAll_eq_flatMap (xs : List Inline) : refsAll xs = xs.flatMap refs := by
  induction xs with
  | nil => rfl
  | cons x xs ih => rw [refsAll, ih, List.flatMap_cons]

theorem refsAll_append (xs ys : List Inline) : refsAll (xs ++ ys) = refsAll xs ++ refsAll ys := by
  simp only [refsAll_eq_flatMap, List.flatMap_append]

/-! ## Coalescing -/

/-- Joining two inlines makes up no reference. -/
theorem refs_join?_subset {a b c : Inline} (h : join? a b = some c) :
    c.refs ⊆ a.refs ++ b.refs := by
  cases a <;> cases b <;> simp only [join?, reduceCtorEq, Option.some.injEq] at h <;> subst h
  case link.link =>
    intro r hr
    simp only [refs, refsAll_append, List.mem_append, List.mem_cons] at hr ⊢
    tauto
  all_goals simp [refs, refsAll_append]

/-- Joining inlines makes up no reference. -/
theorem refs_joined_subset (first : Inline) (rest : List Inline) :
    (joined first rest).refs ⊆ refsAll (first :: rest) := by
  induction rest generalizing first with
  | nil => simp [joined, refsAll]
  | cons next rest ih =>
    have hstep : joined first (next :: rest) = joined ((join? first next).getD first) rest := rfl
    have hfirst : ((join? first next).getD first).refs ⊆ first.refs ++ next.refs := by
      cases hjoin : join? first next with
      | none => exact List.subset_append_left _ _
      | some both => exact refs_join?_subset hjoin
    rw [hstep]
    intro r hr
    have hmem := ih _ hr
    simp only [refsAll, List.mem_append] at hmem ⊢
    rcases hmem with hmem | hmem
    · exact (List.mem_append.1 (hfirst hmem)).imp_right Or.inl
    · exact Or.inr (Or.inr hmem)

theorem refs_mapChildren_subset {f : List Inline → List Inline}
    (hf : ∀ xs, refsAll (f xs) ⊆ refsAll xs) (x : Inline) : (x.mapChildren f).refs ⊆ x.refs := by
  cases x with
  | link target title media xs => exact List.cons_subset_cons _ (hf xs)
  | emphasis xs | strong xs | delete xs => exact hf xs
  | _ => exact List.Subset.refl _

/-- Coalescing makes up no reference, whatever the depth it stops at. -/
theorem refsAll_coalesceWithin_subset (slots : Slots) (levels : Nat) (xs : List Inline) :
    refsAll (coalesceWithin slots levels xs) ⊆ refsAll xs := by
  induction levels generalizing xs with
  | zero => exact List.Subset.refl _
  | succ levels ih =>
    intro r hr
    rw [coalesceWithin_succ, refsAll_eq_flatMap] at hr
    obtain ⟨y, hy, hr⟩ := List.mem_flatMap.1 hr
    obtain ⟨g, hg, rfl⟩ := List.mem_map.1 hy
    have hgroup : r ∈ refsAll g.toList := by
      rw [Adjacent.Group.collapse] at hr
      split at hr
      · exact List.mem_append_left _ hr
      · exact refs_joined_subset _ _ (refs_mapChildren_subset ih _ hr)
    rw [← Adjacent.flatMap_toList_groups (belongTogether slots) xs, refsAll_eq_flatMap]
    rw [refsAll_eq_flatMap] at hgroup
    obtain ⟨x, hx, hr⟩ := List.mem_flatMap.1 hgroup
    exact List.mem_flatMap.2 ⟨x, List.mem_flatMap.2 ⟨g, hg, hx⟩, hr⟩

/-- Coalescing makes up no reference. -/
theorem refsAll_coalesce_subset (slots : Slots) (xs : List Inline) :
    refsAll (coalesce slots xs) ⊆ refsAll xs :=
  refsAll_coalesceWithin_subset slots _ xs

end Inline

/-! ## Rich text -/

theorem Run.refs_leaf (r : Run) : r.leaf.refs = [] := by
  rcases r.leaf_cases with ⟨s, hs⟩ | ⟨s, hs⟩ | ⟨s, hs⟩ <;> rw [hs] <;> rfl

/-- A run refers to nothing but known targets. -/
theorem Run.slot?_of_mem_refs {r : Run} {before after : List Run} {ref : Ref}
    (h : ref ∈ (r.toInline before after).refs) : ref.slot? = none := by
  have hwrap : ∀ (marks : List Mark) (x : Inline), (∀ ref ∈ x.refs, ref.slot? = none) →
      ∀ ref ∈ (marks.foldl r.wrap x).refs, ref.slot? = none := by
    intro marks
    induction marks with
    | nil => exact fun x hx => hx
    | cons mark marks ih =>
      intro x hx
      refine ih _ ?_
      cases mark <;> simpa [wrap, Inline.refs, Inline.refsAll, Ref.slot?, Ref.target] using hx
  refine hwrap _ _ ?_ ref h
  rw [refs_leaf]
  exact List.forall_mem_nil _

/-- Rich text refers to nothing but known targets. -/
theorem RichText.slot?_of_mem_refsAll {runs : List Run} {ref : Ref}
    (h : ref ∈ Inline.refsAll (inlines runs)) : ref.slot? = none := by
  have hfrom : ∀ before rest, ∀ ref ∈ Inline.refsAll (inlinesFrom before rest),
      ref.slot? = none := by
    intro before rest
    induction rest generalizing before with
    | nil => exact List.forall_mem_nil _
    | cons r rest ih =>
      intro ref href
      rcases List.mem_append.1 href with href | href
      · exact Run.slot?_of_mem_refs href
      · exact ih _ ref href
  exact hfrom _ _ ref (Inline.refsAll_coalesce_subset _ _ h)

/-! ## References of a document -/

/-- The images and links in a piece of a document. -/
def Piece.refs : Piece → List Ref
  | .text content | .heading _ content => Inline.refsAll content
  | .code .. | .rule => []

/-- The images and links that point to slots in a piece of a document. -/
def Piece.slotRefs (piece : Piece) : List Ref := piece.refs.filter (·.slot?.isSome)

/-- The node that stands for an image or a file with a slot. -/
def Content.ref? (slot : Nat) : Content → Option Ref
  | .said _ => none
  | .image .. => some (.image (.slot slot))
  | .file _ => some (.link (.slot slot))

theorem additive_slotRefs : Additive Piece.slotRefs where
  nil := rfl
  append xs ys := by
    simp only [Piece.slotRefs, Piece.refs, Inline.refsAll_append, List.filter_append]

/-- The images and links of a document, in the order in which it is read. -/
def Node.refsAll (ns : List Node) : List Ref := (piecesAll ns).flatMap Piece.refs

namespace Block

/-- A text that a block says refers to nothing but known targets. -/
theorem slotRefs_of_mem_own {b : Block} {piece : Piece} (h : Content.said piece ∈ b.own) :
    piece.slotRefs = [] := by
  have hzone : ∀ zone, (Inline.refsAll (zoneInlines zone)).filter (·.slot?.isSome) = [] := by
    intro zone
    refine List.filter_eq_nil_iff.2 fun ref href => ?_
    rw [RichText.slot?_of_mem_refsAll href]
    exact Bool.false_ne_true
  obtain ⟨kind, zone, children⟩ := b
  cases kind <;>
    simp only [own, List.mem_singleton, Content.said.injEq, reduceCtorEq, List.not_mem_nil] at h <;>
    subst h
  case divider | code => rfl
  case text | bullet | ordered | todo => exact hzone zone
  case heading => split <;> exact hzone zone

/-- Of what is visited, only images and files refer to slots, and each to its own. -/
theorem slotRefs_piece {b : Block} {p : Visit × Nat} {free : Nat}
    (hp : p ∈ withSlots free b.visits) :
    (p.1.content.piece p.2).slotRefs = (p.1.content.ref? p.2).toList := by
  obtain ⟨d, hd⟩ := exists_own_of_mem_visits (mem_of_mem_withSlots hp)
  cases hcontent : p.1.content with
  | said piece =>
    rw [hcontent] at hd
    exact slotRefs_of_mem_own hd
  | image | file => rfl

end Block

namespace Document

/-- The nodes of a document that point to slots are those of the images and files that fit, in the
order in which they are visited. -/
theorem slotRefs_ofBlock (b : Block) (slots : Slots) :
    (Node.refsAll (ofBlock b slots).1.children).filter (·.slot?.isSome) =
      ((withSlots slots.issued b.visits).filter fun p => p.1.Fits).filterMap
        fun p => p.1.content.ref? p.2 := by
  have hread := read_ofBlock b slots fun _ _ _ => additive_slotRefs
  have hflat : (Node.refsAll (ofBlock b slots).1.children).filter (·.slot?.isSome) =
      (Node.piecesAll (ofBlock b slots).1.children).flatMap Piece.slotRefs := by
    rw [Node.refsAll, List.filter_flatMap]
    rfl
  rw [hflat, hread, readShown, List.filterMap_eq_flatMap_toList]
  exact List.flatMap_congr fun p hp => Block.slotRefs_piece (List.mem_filter.1 hp).1

/-- A node that points to a slot stands in a document exactly if it is that of an image or a file
that fits. -/
theorem mem_refsAll_ofBlock {b : Block} {slots : Slots} {r : Ref} {id : Nat}
    (h : r.target = .slot id) :
    r ∈ Node.refsAll (ofBlock b slots).1.children ↔
      ∃ p ∈ withSlots slots.issued b.visits, p.1.Fits ∧ p.1.content.ref? p.2 = some r := by
  have hslot : r.slot?.isSome = true := by
    rw [Ref.slot?_eq_some_iff.2 h]
    rfl
  have hmem : r ∈ (Node.refsAll (ofBlock b slots).1.children).filter (·.slot?.isSome) ↔
      r ∈ Node.refsAll (ofBlock b slots).1.children :=
    List.mem_filter.trans (and_iff_left hslot)
  rw [← hmem, slotRefs_ofBlock, List.mem_filterMap]
  simp only [List.mem_filter, decide_eq_true_eq, and_assoc]

theorem slotRefs_sublist (b : Block) (slots : Slots) :
    ((Node.refsAll (ofBlock b slots).1.children).filter (·.slot?.isSome)).Sublist
      ((withSlots slots.issued b.visits).filterMap fun p => p.1.content.ref? p.2) := by
  rw [slotRefs_ofBlock]
  exact List.filter_sublist.filterMap _

end Document

/-! ## What is listed beside a document -/

namespace Content

/-- The image or file that points to a slot, if the content is one. -/
def asset? (slot : Nat) (c : Content) : Option Asset := (c.image? slot).or (c.file? slot)

theorem image?_ref? (slot : Nat) (c : Content) :
    (c.ref? slot).bind Ref.image? = (c.image? slot).map Asset.target := by
  cases c <;> rfl

theorem link?_ref? (slot : Nat) (c : Content) :
    (c.ref? slot).bind Ref.link? = (c.file? slot).map Asset.target := by
  cases c <;> rfl

theorem slot?_ref? (slot : Nat) (c : Content) :
    (c.ref? slot).bind Ref.slot? = if c.isMedia then some slot else none := by
  cases c <;> rfl

/-- Only an image or a file stands for a node, which points to its slot. -/
theorem target_of_ref? {slot : Nat} {c : Content} {r : Ref} (h : c.ref? slot = some r) :
    c.isMedia = true ∧ r.target = .slot slot := by
  cases c with
  | said piece => exact nomatch h
  | image label media =>
    obtain rfl := Option.some.inj h
    exact ⟨rfl, rfl⟩
  | file media =>
    obtain rfl := Option.some.inj h
    exact ⟨rfl, rfl⟩

/-- What is listed points to its slot, and a node stands for it. -/
theorem target_of_asset? {slot : Nat} {c : Content} {a : Asset} (h : c.asset? slot = some a) :
    a.target = .slot slot ∧ ∃ r, c.ref? slot = some r := by
  cases c with
  | said piece => exact nomatch h
  | image label media =>
    obtain rfl := Option.some.inj h
    exact ⟨rfl, _, rfl⟩
  | file media =>
    obtain rfl := Option.some.inj h
    exact ⟨rfl, _, rfl⟩

end Content

theorem nodup_slots_withSlots (free : Nat) (vs : List Visit) :
    (((withSlots free vs).filter (·.1.content.isMedia)).map Prod.snd).Nodup := by
  rw [filter_isMedia_withSlots, List.zipIdx_map_snd]
  exact List.nodup_range'

/-- The images and links of a document whose targets are pending, in the order in which the
document is read. -/
def Node.pending (slots : Slots) (ns : List Node) : List Ref :=
  (refsAll ns).filter fun r => (slots.read r.target).isNone

namespace Document

/-- The images and files listed beside a document account for all its pending nodes, whichever of
its slots have been filled by then. -/
structure Accounts (d : Document) (later : Slots) : Prop where
  /-- The pending images of the tree are listed, in the order in which they are read. -/
  images : ((Node.pending later d.children).filterMap Ref.image?).Sublist
    (d.images.map Asset.target)
  /-- The pending links of the tree are listed, in the order in which they are read. -/
  files : ((Node.pending later d.children).filterMap Ref.link?).Sublist
    (d.files.map Asset.target)
  /-- No slot stands in two nodes. -/
  distinct : ((Node.refsAll d.children).filterMap Ref.slot?).Nodup
  /-- Every pending node is filled in by way of something listed. -/
  fills : ∀ r ∈ Node.pending later d.children, ∃ a ∈ d.images ++ d.files, ∀ url, ∃ filled,
    later.resolve a.target url = .ok filled ∧ filled.read r.target = some url
  /-- Whatever is resolved, no two nodes are filled in at once. -/
  single : ∀ a ∈ d.images ++ d.files, ∀ url filled, later.resolve a.target url = .ok filled →
    ((Node.refsAll d.children).filter fun r =>
      filled.read r.target != later.read r.target).length ≤ 1

theorem pending_sublist (b : Block) (slots later : Slots) :
    (Node.pending later (ofBlock b slots).1.children).Sublist
      ((withSlots slots.issued b.visits).filterMap fun p => p.1.content.ref? p.2) := by
  refine List.Sublist.trans ?_ (slotRefs_sublist b slots)
  exact List.monotone_filter_right _ fun r hr =>
    Ref.isSome_slot?_of_read (Option.isNone_iff_eq_none.1 hr)

/-- If what is picked of a node is the target of what is listed for it, then what is picked of the
pending nodes is listed, in order. -/
theorem filterMap_pending_sublist (b : Block) (slots later : Slots) {pick : Ref → Option Target}
    {listed : Nat → Content → Option Asset}
    (h : ∀ slot c, (c.ref? slot).bind pick = (listed slot c).map Asset.target) :
    ((Node.pending later (ofBlock b slots).1.children).filterMap pick).Sublist
      (((withSlots slots.issued b.visits).filterMap fun p => listed p.2 p.1.content).map
        Asset.target) := by
  have hsublist := (pending_sublist b slots later).filterMap pick
  rw [List.filterMap_filterMap] at hsublist
  rw [List.map_filterMap]
  simpa only [h] using hsublist

theorem pendingImages_sublist (b : Block) (slots later : Slots) :
    ((Node.pending later (ofBlock b slots).1.children).filterMap Ref.image?).Sublist
      ((ofBlock b slots).1.images.map Asset.target) := by
  rw [images_ofBlock]
  exact filterMap_pending_sublist b slots later Content.image?_ref?

theorem pendingLinks_sublist (b : Block) (slots later : Slots) :
    ((Node.pending later (ofBlock b slots).1.children).filterMap Ref.link?).Sublist
      ((ofBlock b slots).1.files.map Asset.target) := by
  rw [files_ofBlock]
  exact filterMap_pending_sublist b slots later Content.link?_ref?

/-- No slot stands in two nodes of a document. -/
theorem nodup_slots (b : Block) (slots : Slots) :
    ((Node.refsAll (ofBlock b slots).1.children).filterMap Ref.slot?).Nodup := by
  have hslots : (Node.refsAll (ofBlock b slots).1.children).filterMap Ref.slot? =
      ((Node.refsAll (ofBlock b slots).1.children).filter (·.slot?.isSome)).filterMap
        Ref.slot? := by
    rw [List.filterMap_filter]
    refine List.filterMap_congr fun r _ => ?_
    cases r.slot? <;> rfl
  have hmedia : ((withSlots slots.issued b.visits).filterMap
      fun p => p.1.content.ref? p.2).filterMap Ref.slot? =
      ((withSlots slots.issued b.visits).filter (·.1.content.isMedia)).map Prod.snd := by
    rw [List.filterMap_filterMap, ← List.filterMap_eq_map, List.filterMap_filter]
    exact List.filterMap_congr fun p _ => Content.slot?_ref? p.2 p.1.content
  rw [hslots]
  refine ((slotRefs_sublist b slots).filterMap Ref.slot?).nodup ?_
  rw [hmedia]
  exact nodup_slots_withSlots _ _

/-- If no slot stands in two nodes, at most one node points to any given slot. -/
theorem length_filter_le_one {refs : List Ref} (hdistinct : (refs.filterMap Ref.slot?).Nodup)
    {id : Nat} {p : Ref → Bool} (h : ∀ r, p r = true → r.target = .slot id) :
    (refs.filter p).length ≤ 1 := by
  have hsame : (refs.filter p).filterMap Ref.slot? = List.replicate (refs.filter p).length id := by
    rw [← List.map_const', ← List.filterMap_eq_map]
    exact List.filterMap_congr fun r hr =>
      Ref.slot?_eq_some_iff.2 (h r (List.mem_filter.1 hr).2)
  have hnodup : ((refs.filter p).filterMap Ref.slot?).Nodup :=
    (List.filter_sublist.filterMap Ref.slot?).nodup hdistinct
  rw [hsame] at hnodup
  exact List.nodup_replicate.1 hnodup

/-- If no slot stands in two nodes, resolving a target changes what at most one node reads. -/
theorem length_changed_le_one {refs : List Ref} (hdistinct : (refs.filterMap Ref.slot?).Nodup)
    {later filled : Slots} {t : Target} {url : String} (h : later.resolve t url = .ok filled) :
    (refs.filter fun r => filled.read r.target != later.read r.target).length ≤ 1 := by
  cases t with
  | known old => exact nomatch h
  | slot id =>
    have htarget : ∀ r : Ref,
        (filled.read r.target != later.read r.target) = true → r.target = .slot id := by
      intro r hr
      by_contra hne
      have hread := Slots.read_resolve h r.target
      rw [if_neg hne] at hread
      simp [hread] at hr
    exact length_filter_le_one hdistinct htarget

/-- Every pending node of a document shares its target with something listed. -/
theorem exists_asset_of_mem_pending {b : Block} {slots later : Slots} {r : Ref}
    (h : r ∈ Node.pending later (ofBlock b slots).1.children) :
    ∃ a ∈ (ofBlock b slots).1.images ++ (ofBlock b slots).1.files, a.target = r.target := by
  cases r with
  | image target =>
    have hmem := (pendingImages_sublist b slots later).subset
      (List.mem_filterMap.2 ⟨_, h, rfl⟩)
    obtain ⟨a, ha, htarget⟩ := List.mem_map.1 hmem
    exact ⟨a, List.mem_append_left _ ha, htarget⟩
  | link target =>
    have hmem := (pendingLinks_sublist b slots later).subset
      (List.mem_filterMap.2 ⟨_, h, rfl⟩)
    obtain ⟨a, ha, htarget⟩ := List.mem_map.1 hmem
    exact ⟨a, List.mem_append_right _ ha, htarget⟩

/-- The images and files listed beside a document account for all its pending nodes: they are
listed in the order in which they are read, each can be filled in, and no two at once. -/
theorem accounts_ofBlock (b : Block) (slots later : Slots) :
    Accounts (ofBlock b slots).1 later where
  images := pendingImages_sublist b slots later
  files := pendingLinks_sublist b slots later
  distinct := nodup_slots b slots
  fills := by
    intro r hr
    obtain ⟨a, ha, htarget⟩ := exists_asset_of_mem_pending hr
    refine ⟨a, ha, fun url => ?_⟩
    have hpending : later.read a.target = none := by
      rw [htarget]
      exact Option.isNone_iff_eq_none.1 (List.mem_filter.1 hr).2
    obtain ⟨filled, hfilled⟩ := (later.resolve_eq_ok_iff a.target url).2 hpending
    exact ⟨filled, hfilled, (Slots.read_resolve hfilled r.target).trans (if_pos htarget.symm)⟩
  single := fun _ _ _ _ hfilled => length_changed_le_one (nodup_slots b slots) hfilled

/-- Whatever is listed beside a document is an image or a file visited in its blocks. -/
theorem exists_asset?_of_mem {b : Block} {slots : Slots} {a : Asset}
    (h : a ∈ (ofBlock b slots).1.images ++ (ofBlock b slots).1.files) :
    ∃ p ∈ withSlots slots.issued b.visits, p.1.content.asset? p.2 = some a := by
  rw [images_ofBlock, files_ofBlock] at h
  rcases List.mem_append.1 h with h | h
  · obtain ⟨p, hp, himage⟩ := List.mem_filterMap.1 h
    exact ⟨p, hp, by rw [Content.asset?, himage]; rfl⟩
  · obtain ⟨p, hp, hfile⟩ := List.mem_filterMap.1 h
    refine ⟨p, hp, ?_⟩
    cases hcontent : p.1.content <;> simp_all [Content.asset?, Content.image?, Content.file?]

/-- An image or a file listed beside a document stands in the document exactly if it was visited
where it fits. -/
theorem exists_ref_iff_fits {b : Block} {slots : Slots} {a : Asset}
    (h : a ∈ (ofBlock b slots).1.images ++ (ofBlock b slots).1.files) :
    ∃ p ∈ withSlots slots.issued b.visits, p.1.content.asset? p.2 = some a ∧
      ((∃ r ∈ Node.refsAll (ofBlock b slots).1.children, r.target = a.target) ↔ p.1.Fits) := by
  obtain ⟨p, hp, ha⟩ := exists_asset?_of_mem h
  obtain ⟨htarget, r, hr⟩ := Content.target_of_asset? ha
  obtain ⟨hmedia, hrtarget⟩ := Content.target_of_ref? hr
  refine ⟨p, hp, ha, ?_, ?_⟩
  · rintro ⟨r', hr', hsame⟩
    have hrtarget' : r'.target = .slot p.2 := hsame.trans htarget
    obtain ⟨q, hq, hfits, hqref⟩ := (mem_refsAll_ofBlock hrtarget').1 hr'
    -- both visits have the number of the slot, and no two images or files share one
    obtain ⟨hqmedia, hqtarget⟩ := Content.target_of_ref? hqref
    have hnumber : q.2 = p.2 := Target.slot.inj (hqtarget.symm.trans hrtarget')
    have hsingle : q = p := List.inj_on_of_nodup_map
      (nodup_slots_withSlots slots.issued b.visits)
      (List.mem_filter.2 ⟨hq, hqmedia⟩) (List.mem_filter.2 ⟨hp, hmedia⟩) hnumber
    rwa [← hsingle]
  · intro hfits
    exact ⟨r, (mem_refsAll_ofBlock hrtarget).2 ⟨p, hp, hfits, hr⟩, hrtarget.trans htarget.symm⟩

/-- A page with a table of one cell, in which an image stands beside a bullet that holds another
image. -/
def pageOfCell : Block where
  kind := .page
  children := [.table 1 [
    { kind := .tableCell
      children := [
        { kind := .image ⟨"a.png", "a", .answer (.ok .empty)⟩ none },
        { kind := .bullet
          children := [{ kind := .image ⟨"b.png", "b", .answer (.ok .empty)⟩ none }] }] }]]

/-- The image directly in the cell is listed and stands in the document. -/
theorem exists_ref_pageOfCell :
    ⟨.slot 0, "", some ⟨"a.png", "a", .answer (.ok .empty)⟩⟩ ∈
        (ofBlock pageOfCell {}).1.images ++ (ofBlock pageOfCell {}).1.files ∧
      ∃ r ∈ Node.refsAll (ofBlock pageOfCell {}).1.children, r.target = .slot 0 := by
  have hlisted : ⟨.slot 0, "", some ⟨"a.png", "a", .answer (.ok .empty)⟩⟩ ∈
      (ofBlock pageOfCell {}).1.images ++ (ofBlock pageOfCell {}).1.files :=
    List.mem_cons_self
  obtain ⟨p, hp, ha, hiff⟩ := exists_ref_iff_fits hlisted
  have hfits : ∀ p ∈ withSlots 0 pageOfCell.visits,
      (p.1.content.asset? p.2).map Asset.target = some (.slot 0) → p.1.Fits := by decide
  exact ⟨hlisted, hiff.2 (hfits p hp (by rw [ha]; rfl))⟩

/-- The image below the bullet is listed, but no node of the document refers to it: a cell has no
room for a bullet. -/
theorem unreferenced_image_pageOfCell :
    ∃ a ∈ (ofBlock pageOfCell {}).1.images,
      ∀ r ∈ Node.refsAll (ofBlock pageOfCell {}).1.children, r.target ≠ a.target := by
  refine ⟨_, List.mem_cons_of_mem _ List.mem_cons_self, ?_⟩
  decide

end Document

end DocExport
