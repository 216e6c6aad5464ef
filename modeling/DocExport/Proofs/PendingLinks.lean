import DocExport.Proofs.Coalesced
import DocExport.Proofs.References

/-!
# Links that are coalesced before they are resolved

Links are joined as long as their targets read the same, and two pending targets do, whatever slots
they name.  Joined links keep the target of the first, for good; the slots of the others may be
given URLs of their own afterwards, which then show nowhere.  As long as no two pending links of
different slots are joined, coalescing and resolving do not get in each other's way: every slot
keeps a link, and everything that is read stands in the links it would stand in had nothing been
coalesced.

* **Main results.** `readingsAll_coalesce_of_joins` (reading under other slots than those under
  which the inlines were coalesced), `keepsLinks_iff` (when links are kept) and
  `RichText.keepsLinks_inlinesFrom` (those of runs are).
-/

namespace DocExport

namespace Slots

variable {slots later : Slots} {s t : Target}

/-- Slots in which everything that has been resolved reads as before; pending targets may have been
given any URLs. -/
def Extends (slots later : Slots) : Prop :=
  ∀ t url, slots.read t = some url → later.read t = some url

/-- Two targets are the same, or both are resolved and read the same. -/
def SameDestination (slots : Slots) (s t : Target) : Prop :=
  s = t ∨ ∃ url, slots.read s = some url ∧ slots.read t = some url

/-- Resolving a target leaves everything that has been resolved as it was. -/
theorem extends_of_resolve {url : String} (h : slots.resolve t url = .ok later) :
    slots.Extends later := by
  intro u old hu
  have hpending := (resolve_eq_ok_iff slots t url).1 ⟨later, h⟩
  rw [read_resolve h]
  split
  · rename_i heq
    rw [heq, hpending] at hu
    exact nomatch hu
  · exact hu

theorem SameDestination.read_eq (h : slots.SameDestination s t) (hlater : slots.Extends later) :
    later.read s = later.read t := by
  rcases h with rfl | ⟨url, hs, ht⟩
  · rfl
  · rw [hlater s url hs, hlater t url ht]

end Slots

namespace Inline

variable {slots : Slots} {xs : List Inline} {a b : Inline}

/-! ## What is joined -/

/-- Two neighbours that are joined when inlines are coalesced: two of the inlines themselves, or two
that stand inside a group that has become one. -/
inductive Joins (slots : Slots) : List Inline → Inline → Inline → Prop where
  | here {before after : List Inline} {a b : Inline} (h : belongTogether slots a b = true) :
      Joins slots (before ++ a :: b :: after) a b
  | inside {xs : List Inline} {g : Adjacent.Group Inline} {a b : Inline}
      (hg : g ∈ Adjacent.groups (belongTogether slots) xs) (hlong : g.tail.isEmpty = false)
      (h : Joins slots (g.toList.flatMap children) a b) : Joins slots xs a b

theorem Joins.belongTogether (h : Joins slots xs a b) : belongTogether slots a b = true := by
  induction h with
  | here h => exact h
  | inside _ _ _ ih => exact ih

/-- In a group, every item is joined to the one before it. -/
theorem isChain_joins {g : Adjacent.Group Inline}
    (hg : g ∈ Adjacent.groups (Inline.belongTogether slots) xs) :
    g.toList.IsChain (Joins slots xs) := by
  rw [List.isChain_iff_forall_rel_of_append_cons_cons]
  intro a b before after hitems
  have hchain := Adjacent.isChain_of_mem_groups hg
  rw [hitems] at hchain
  have hab := (List.isChain_cons_cons.1 hchain.right_of_append).1
  -- the items of the group stand one after another in the list
  obtain ⟨gs, hs, hgroups⟩ := List.append_of_mem hg
  have hxs := Adjacent.flatMap_toList_groups (Inline.belongTogether slots) xs
  rw [hgroups, List.flatMap_append, List.flatMap_cons, hitems] at hxs
  have hplace : xs = (gs.flatMap Adjacent.Group.toList ++ before) ++
      a :: b :: (after ++ hs.flatMap Adjacent.Group.toList) := by
    simp [← hxs]
  rw [hplace]
  exact .here hab

/-! ## Reading under other slots -/

theorem readings_mapChildren_of_children {f : List Inline → List Inline} {x : Inline}
    (h : ∀ around, readingsAll slots around (f x.children) = readingsAll slots around x.children)
    (around : List Wrapper) :
    readings slots around (x.mapChildren f) = readings slots around x := by
  cases x <;> simp_all [mapChildren, children, readings]

/-- Under any slots, coalesced inlines read as they did, if what has been joined belongs together
under these slots as well. -/
theorem readingsAll_coalesce_of_joins {later : Slots}
    (h : ∀ a b, Joins slots xs a b → Inline.belongTogether later a b = true)
    (around : List Wrapper) :
    readingsAll later around (coalesce slots xs) = readingsAll later around xs := by
  induction xs using coalesce_induction slots generalizing around with
  | inside xs ih =>
    have hgroup : ∀ g ∈ Adjacent.groups (Inline.belongTogether slots) xs,
        readings later around (g.collapse (combine slots)) =
          readingsAll later around g.toList := by
      intro g hg
      have hchain := (isChain_joins hg).imp h
      unfold Adjacent.Group.collapse
      split
      · rename_i halone
        rw [Adjacent.Group.toList, List.isEmpty_iff.1 halone, readingsAll, readingsAll,
          List.append_nil]
      · rename_i hlong
        have hinside := ih g hg fun a b hab => h a b (.inside hg (by simpa using hlong) hab)
        rw [combine, readings_mapChildren_of_children, readings_joined hchain]
        · rfl
        · rw [children_joined (Adjacent.isChain_of_mem_groups hg)]
          exact hinside
    rw [coalesce_eq_map, readingsAll_map, List.flatMap_congr hgroup, ← readingsAll_flatMap,
      Adjacent.flatMap_toList_groups]

/-! ## Links -/

/-- The target of a link. -/
def linkTarget? : Inline → Option Target
  | .link target _ _ _ => some target
  | _ => none

theorem link_mem_refsAll_iff {t : Target} :
    .link t ∈ refsAll xs ↔ ∃ x ∈ xs, .link t ∈ x.refs := by
  simp [refsAll_eq_flatMap]

theorem link_mem_refs_iff {t : Target} {x : Inline} :
    .link t ∈ x.refs ↔ x.linkTarget? = some t ∨ .link t ∈ refsAll x.children := by
  cases x <;> simp [refs, refsAll, linkTarget?, children, eq_comm]

theorem linkTarget?_of_join? {c : Inline} (h : join? a b = some c) :
    c.linkTarget? = a.linkTarget? := by
  cases a <;> cases b <;> simp only [join?, Option.some.injEq, reduceCtorEq] at h <;> subst h <;>
    rfl

/-- What takes the place of a group has the target of its first item. -/
theorem linkTarget?_collapse {g : Adjacent.Group Inline}
    (h : g.toList.IsChain fun a b => Inline.belongTogether slots a b = true) :
    (g.collapse (combine slots)).linkTarget? = g.head.linkTarget? := by
  have hmap : ∀ (f : List Inline → List Inline) (x : Inline),
      (x.mapChildren f).linkTarget? = x.linkTarget? := by
    intro f x
    cases x <;> rfl
  unfold Adjacent.Group.collapse
  split
  · rfl
  · rw [combine, hmap]
    refine joined_induction (motive := fun first _ whole => whole.linkTarget? =
      first.linkTarget?) (fun _ => rfl) ?_ h
    intro a b c rest x _ hjoin hx
    rw [hx, linkTarget?_of_join? hjoin]

/-- The target of a link that is pending. -/
def pendingTarget? (slots : Slots) (x : Inline) : Option Target :=
  x.linkTarget?.filter fun t => (slots.read t).isNone

theorem pendingTarget?_eq_some_iff {x : Inline} {t : Target} :
    x.pendingTarget? slots = some t ↔ x.linkTarget? = some t ∧ slots.read t = none := by
  simp [pendingTarget?, Option.filter_eq_some_iff]

theorem Joins.read_eq {s t : Target} (h : Joins slots xs a b) (ha : a.linkTarget? = some s)
    (hb : b.linkTarget? = some t) : slots.read s = slots.read t := by
  have hkinds := h.belongTogether
  cases a <;> cases b <;> simp_all [Inline.belongTogether, joinKind?, linkTarget?]

/-- Links that are joined are among the links of the inlines. -/
theorem Joins.link_mem {t : Target} (h : Joins slots xs a b)
    (ht : a.linkTarget? = some t ∨ b.linkTarget? = some t) : .link t ∈ refsAll xs := by
  induction h with
  | here h =>
    rcases ht with ht | ht
    · exact link_mem_refsAll_iff.2 ⟨_, by simp, link_mem_refs_iff.2 (Or.inl ht)⟩
    · exact link_mem_refsAll_iff.2 ⟨_, by simp, link_mem_refs_iff.2 (Or.inl ht)⟩
  | inside hg _ _ ih =>
    obtain ⟨y, hy, ht⟩ := link_mem_refsAll_iff.1 (ih ht)
    obtain ⟨x, hx, hy⟩ := exists_mem_children hg hy
    refine link_mem_refsAll_iff.2 ⟨x, hx, ?_⟩
    exact link_mem_refs_iff.2 (Or.inr (link_mem_refsAll_iff.2 ⟨y, hy, ht⟩))

/-- What becomes of the links when inlines are coalesced. -/
structure KeepsLinks (slots : Slots) (xs : List Inline) : Prop where
  /-- Two links are joined only if they have the same target or both are resolved to the same
  URL. -/
  joins : ∀ a b s t, Joins slots xs a b → a.linkTarget? = some s → b.linkTarget? = some t →
    slots.SameDestination s t
  /-- A slot that is pending and has a link still has one. -/
  pending : ∀ id, slots.read (.slot id) = none → .link (.slot id) ∈ refsAll xs →
    .link (.slot id) ∈ refsAll (coalesce slots xs)
  /-- Whatever is resolved later, everything stands in the links it would stand in had nothing been
  coalesced. -/
  later : ∀ later, slots.Extends later →
    readingsAll later [] (coalesce slots xs) = readingsAll later [] xs

/-- No two pending links of different slots are joined. -/
def PendingApart (slots : Slots) (xs : List Inline) : Prop :=
  ∀ a b s t, Joins slots xs a b → a.linkTarget? = some s → b.linkTarget? = some t →
    slots.read s = none → s = t

theorem pendingApart_of_forall (h : ∀ s t, .link s ∈ refsAll xs → .link t ∈ refsAll xs →
    slots.read s = none → slots.read t = none → s = t) : PendingApart slots xs := by
  intro a b s t hab ha hb hs
  have ht : slots.read t = none := by rw [← hab.read_eq ha hb, hs]
  exact h s t (hab.link_mem (Or.inl ha)) (hab.link_mem (Or.inr hb)) hs ht

namespace PendingApart

theorem inside (h : PendingApart slots xs) {g : Adjacent.Group Inline}
    (hg : g ∈ Adjacent.groups (Inline.belongTogether slots) xs)
    (hlong : g.tail.isEmpty = false) : PendingApart slots (g.toList.flatMap children) :=
  fun a b s t hab => h a b s t (.inside hg hlong hab)

theorem sameDestination (h : PendingApart slots xs) {s t : Target} (hab : Joins slots xs a b)
    (ha : a.linkTarget? = some s) (hb : b.linkTarget? = some t) : slots.SameDestination s t := by
  cases hs : slots.read s with
  | none => exact Or.inl (h a b s t hab ha hb hs)
  | some url => exact Or.inr ⟨url, hs, by rw [← hab.read_eq ha hb, hs]⟩

theorem belongTogether (h : PendingApart slots xs) {later : Slots} (hlater : slots.Extends later)
    (hab : Joins slots xs a b) : Inline.belongTogether later a b = true := by
  have hkinds := hab.belongTogether
  cases a <;> cases b <;> simp_all [Inline.belongTogether, joinKind?]
  exact (h.sameDestination hab rfl rfl).read_eq hlater

/-- Of two inlines that are joined, both are pending links to the same target or neither is. -/
theorem pendingTarget?_eq (h : PendingApart slots xs) (hab : Joins slots xs a b) :
    a.pendingTarget? slots = b.pendingTarget? slots := by
  have hkinds := hab.belongTogether
  cases a <;> cases b <;>
    simp only [Inline.belongTogether, joinKind?, Option.isSome_some, Option.isSome_none,
      Bool.true_and, Bool.false_and, beq_iff_eq, reduceCtorEq, Option.some.injEq] at hkinds
  case link.link =>
    rcases h.sameDestination hab rfl rfl with rfl | ⟨url, hs, ht⟩
    · rfl
    · simp [pendingTarget?, linkTarget?, Option.filter, hs, ht]
  all_goals rfl

/-- In a group, a pending link has the target of the first item. -/
theorem linkTarget?_head (h : PendingApart slots xs) {g : Adjacent.Group Inline}
    (hg : g ∈ Adjacent.groups (Inline.belongTogether slots) xs) {x : Inline} (hx : x ∈ g.toList)
    {t : Target} (ht : x.linkTarget? = some t) (hpending : slots.read t = none) :
    g.head.linkTarget? = some t := by
  have hchain := (isChain_joins hg).imp fun _ _ => h.pendingTarget?_eq
  have hhead := Adjacent.eq_head_of_isChain hchain x hx
  rw [pendingTarget?_eq_some_iff.2 ⟨ht, hpending⟩] at hhead
  exact (pendingTarget?_eq_some_iff.1 hhead.symm).1

/-- A slot that is pending and has a link still has one. -/
theorem link_mem_refsAll_coalesce (h : PendingApart slots xs) {t : Target}
    (hpending : slots.read t = none) (ht : .link t ∈ refsAll xs) :
    .link t ∈ refsAll (coalesce slots xs) := by
  induction xs using coalesce_induction slots with
  | inside xs ih =>
    obtain ⟨x, hx, ht⟩ := link_mem_refsAll_iff.1 ht
    rw [← Adjacent.flatMap_toList_groups (Inline.belongTogether slots) xs] at hx
    obtain ⟨g, hg, hx⟩ := List.mem_flatMap.1 hx
    have hchain := Adjacent.isChain_of_mem_groups hg
    rw [coalesce_eq_map]
    refine link_mem_refsAll_iff.2 ⟨_, List.mem_map_of_mem hg, ?_⟩
    rw [link_mem_refs_iff] at ht ⊢
    rcases ht with ht | ht
    · left
      rw [linkTarget?_collapse hchain]
      exact h.linkTarget?_head hg hx ht hpending
    · right
      rw [children_collapse hchain]
      split
      · rename_i halone
        rw [Adjacent.Group.toList, List.isEmpty_iff.1 halone, List.mem_singleton] at hx
        rwa [← hx]
      · rename_i hlong
        refine ih g hg (h.inside hg (by simpa using hlong)) ?_
        obtain ⟨y, hy, ht⟩ := link_mem_refsAll_iff.1 ht
        exact link_mem_refsAll_iff.2 ⟨y, List.mem_flatMap.2 ⟨x, hx, hy⟩, ht⟩

theorem keepsLinks (h : PendingApart slots xs) : KeepsLinks slots xs where
  joins _ _ _ _ hab ha hb := h.sameDestination hab ha hb
  pending _ hpending hid := h.link_mem_refsAll_coalesce hpending hid
  later _ hlater := readingsAll_coalesce_of_joins (fun _ _ => h.belongTogether hlater) []

end PendingApart

/-- **Links are kept exactly if no two pending ones of different slots are joined.** -/
theorem keepsLinks_iff (slots : Slots) (xs : List Inline) :
    KeepsLinks slots xs ↔ PendingApart slots xs := by
  constructor
  · intro h a b s t hab ha hb hs
    rcases h.joins a b s t hab ha hb with rfl | ⟨url, hurl, -⟩
    · rfl
    · rw [hs] at hurl
      exact nomatch hurl
  · exact PendingApart.keepsLinks

/-- Two links to different files, both of which are still to be fetched. -/
def twoFiles : List Inline :=
  [.link (.slot 0) none none [.text "a"], .link (.slot 1) none none [.text "b"]]

/-- The slots once both files have found their places. -/
def bothFetched : Slots := { issued := 2, filled := [(1, "b.pdf"), (0, "a.pdf")] }

/-- The two links become one, so that the second slot has no link any more; once both are
resolved, the text of the second link stands in a link to the first file. -/
theorem not_keepsLinks_twoFiles :
    ¬ KeepsLinks { issued := 2 } twoFiles ∧
      refsAll (coalesce { issued := 2 } twoFiles) = [.link (.slot 0)] ∧
      Slots.Extends { issued := 2 } bothFetched ∧
      readingsAll bothFetched [] (coalesce { issued := 2 } twoFiles) =
        [(.text 'a', [.link (some "a.pdf")]), (.text 'b', [.link (some "a.pdf")])] ∧
      readingsAll bothFetched [] twoFiles =
        [(.text 'a', [.link (some "a.pdf")]), (.text 'b', [.link (some "b.pdf")])] := by
  let oneFetched : Slots := { issued := 2, filled := [(0, "a.pdf")] }
  have hfirst : Slots.resolve { issued := 2 } (.slot 0) "a.pdf" = .ok oneFetched := rfl
  have hsecond : oneFetched.resolve (.slot 1) "b.pdf" = .ok bothFetched := rfl
  refine ⟨fun h => ?_, rfl, fun t url ht => ?_, rfl, rfl⟩
  · have hkept := h.pending 1 rfl (by simp [twoFiles, refsAll, refs])
    exact absurd hkept (by decide)
  · exact Slots.extends_of_resolve hsecond t url (Slots.extends_of_resolve hfirst t url ht)

end Inline

/-- Runs link to known targets only, so that their links are kept. -/
theorem RichText.keepsLinks_inlinesFrom (runs : List Run) :
    Inline.KeepsLinks {} (inlinesFrom [] (written runs)) := by
  refine (Inline.pendingApart_of_forall fun s _ hs _ hpending _ => ?_).keepsLinks
  obtain ⟨x, hx, hs⟩ := Inline.link_mem_refsAll_iff.1 hs
  obtain ⟨before, r, after, rfl⟩ := exists_toInline hx
  have hslot := Ref.isSome_slot?_of_read (r := .link s) hpending
  rw [Run.slot?_of_mem_refs hs] at hslot
  exact absurd hslot Bool.false_ne_true

end DocExport
