import DocExport.Proofs.Reading

/-!
# Coalescing all the way down

Coalescing goes down level by level, and a depth bounds how far.  At the nesting depth of the
inlines the bound is never felt: what takes the place of a group is its items joined into one, with
their children coalesced again.  Nothing is left to do afterwards at the top, since the items of
different groups are of different kinds and joining keeps the kind; and nothing is lost on the
way, since only what belongs together is joined.

* **Main results.** `coalesce_eq_map` (coalescing without a depth), `coalesce_induction` (what
  holds inside every group holds of the whole), `isChain_coalesce` (no neighbours are left that
  belong together) and `lossless_coalesce` (what is kept, and that once is enough).
-/

namespace DocExport

/-! ## Groups of items -/

namespace Adjacent

variable {α : Type} {same : α → α → Bool} {xs : List α}

theorem toList_subset_of_mem_groups {g : Group α} (hg : g ∈ groups same xs) : g.toList ⊆ xs := by
  intro x hx
  rw [← flatMap_toList_groups same xs]
  exact List.mem_flatMap.2 ⟨g, hg, hx⟩

/-- Where no neighbours belong together, every item is a group of its own. -/
theorem groups_of_isChain (h : xs.IsChain fun x y => same x y = false) :
    groups same xs = xs.map fun x => ⟨x, []⟩ := by
  let alone : List (Group α) := xs.map fun x => ⟨x, []⟩
  have hitems : alone.flatMap Group.toList = xs := by
    simp [alone, List.flatMap_map, Group.toList]
  have hinside : ∀ g ∈ alone, g.toList.IsChain fun x y => same x y = true := by
    simp [alone, Group.toList]
  have hacross : alone.IsChain fun g h => same g.last h.head = false := by
    simpa [alone, List.isChain_map, Group.last] using h
  rw [← hitems, groups_flatMap_toList hinside hacross, hitems]

end Adjacent

namespace Inline

variable {slots : Slots}

/-! ## Children -/

/-- What stands directly inside an inline; nothing stands in a leaf. -/
def children : Inline → List Inline
  | .emphasis xs | .strong xs | .delete xs => xs
  | .link _ _ _ xs => xs
  | _ => []

theorem depth_eq (x : Inline) : x.depth = depthAll x.children + 1 := by
  cases x <;> simp [depth, children, depthAll]

theorem depthAll_le_iff {xs : List Inline} {levels : Nat} :
    depthAll xs ≤ levels ↔ ∀ x ∈ xs, x.depth ≤ levels := by
  induction xs with
  | nil => simp [depthAll]
  | cons x xs ih => rw [depthAll, Nat.max_le, ih, List.forall_mem_cons]

theorem eq_nil_of_depthAll {xs : List Inline} (h : depthAll xs ≤ 0) : xs = [] := by
  cases xs with
  | nil => rfl
  | cons x xs =>
    have hx := depthAll_le_iff.1 h x List.mem_cons_self
    rw [depth_eq] at hx
    exact absurd hx (Nat.not_succ_le_zero _)

theorem exists_mem_children {xs : List Inline} {g : Adjacent.Group Inline}
    (hg : g ∈ Adjacent.groups (belongTogether slots) xs) {y : Inline}
    (hy : y ∈ g.toList.flatMap children) : ∃ x ∈ xs, y ∈ x.children := by
  obtain ⟨x, hx, hy⟩ := List.mem_flatMap.1 hy
  exact ⟨x, Adjacent.toList_subset_of_mem_groups hg hx, hy⟩

/-- What stands inside the items of a group is less deep than the list they are from. -/
theorem depthAll_inside {xs : List Inline} {levels : Nat} (h : depthAll xs ≤ levels + 1)
    {g : Adjacent.Group Inline} (hg : g ∈ Adjacent.groups (belongTogether slots) xs) :
    depthAll (g.toList.flatMap children) ≤ levels := by
  rw [depthAll_le_iff] at h ⊢
  intro y hy
  obtain ⟨x, hx, hy⟩ := exists_mem_children hg hy
  have hdepth := h x hx
  have hinside := depthAll_le_iff.1 (Nat.le_refl _) y hy
  rw [depth_eq] at hdepth
  omega

theorem mapChildren_congr {f f' : List Inline → List Inline} {x : Inline}
    (h : f x.children = f' x.children) : x.mapChildren f = x.mapChildren f' := by
  cases x <;> simp_all [mapChildren, children]

theorem children_mapChildren {f : List Inline → List Inline} (hf : f [] = []) (x : Inline) :
    (x.mapChildren f).children = f x.children := by
  cases x <;> simp [mapChildren, children, hf]

theorem joinKind?_mapChildren (f : List Inline → List Inline) (x : Inline) :
    (x.mapChildren f).joinKind? slots = x.joinKind? slots := by
  cases x <;> rfl

theorem children_of_join? {a b c : Inline} (h : join? a b = some c) :
    c.children = a.children ++ b.children := by
  cases a <;> cases b <;> simp only [join?, Option.some.injEq, reduceCtorEq] at h <;> subst h <;>
    simp [children]

theorem children_joined {first : Inline} {rest : List Inline}
    (h : (first :: rest).IsChain fun a b => belongTogether slots a b = true) :
    (joined first rest).children = (first :: rest).flatMap children := by
  refine joined_induction (motive := fun first rest whole => whole.children =
    (first :: rest).flatMap children) (fun _ => by simp) ?_ h
  intro a b c rest x _ hjoin hx
  simp only [hx, List.flatMap_cons, children_of_join? hjoin, List.append_assoc]

/-! ## Coalescing without a depth -/

/-- What takes the place of a group does not depend on a depth that is great enough. -/
theorem coalesceWithin_eq_of_le {m n : Nat} {xs : List Inline} (hm : depthAll xs ≤ m)
    (hn : depthAll xs ≤ n) : coalesceWithin slots m xs = coalesceWithin slots n xs := by
  induction m generalizing n xs with
  | zero =>
    rw [eq_nil_of_depthAll hm]
    cases n <;> rfl
  | succ m ih =>
    cases n with
    | zero =>
      rw [eq_nil_of_depthAll hn]
      rfl
    | succ n =>
      rw [coalesceWithin_succ, coalesceWithin_succ]
      refine List.map_congr_left fun g hg => ?_
      have hinside : coalesceWithin slots m (g.toList.flatMap children) =
          coalesceWithin slots n (g.toList.flatMap children) :=
        ih (depthAll_inside hm hg) (depthAll_inside hn hg)
      unfold Adjacent.Group.collapse
      split
      · rfl
      · refine mapChildren_congr ?_
        rw [children_joined (Adjacent.isChain_of_mem_groups hg)]
        exact hinside

/-- All items of a group as one: joined, and coalesced inside. -/
def combine (slots : Slots) (first : Inline) (rest : List Inline) : Inline :=
  (joined first rest).mapChildren (coalesce slots)

/-- Coalescing puts one inline in the place of each group of neighbours, and coalesces again what
stands inside it. -/
theorem coalesce_eq_map (slots : Slots) (xs : List Inline) :
    coalesce slots xs =
      (Adjacent.groups (belongTogether slots) xs).map
        (Adjacent.Group.collapse (combine slots)) := by
  have hdepth : depthAll xs ≤ depthAll xs + 1 := Nat.le_succ _
  rw [coalesce, coalesceWithin_eq_of_le (Nat.le_refl _) hdepth, coalesceWithin_succ]
  refine List.map_congr_left fun g hg => ?_
  unfold Adjacent.Group.collapse
  split
  · rfl
  · refine mapChildren_congr ?_
    rw [children_joined (Adjacent.isChain_of_mem_groups hg)]
    exact coalesceWithin_eq_of_le (depthAll_inside hdepth hg) (Nat.le_refl _)

/-- What holds of inlines as soon as it holds inside each of their groups holds of all inlines. -/
theorem coalesce_induction {motive : List Inline → Prop} (slots : Slots)
    (inside : ∀ xs, (∀ g ∈ Adjacent.groups (belongTogether slots) xs,
      motive (g.toList.flatMap children)) → motive xs) (xs : List Inline) : motive xs := by
  generalize hlevels : depthAll xs = levels
  replace hlevels := Nat.le_of_eq hlevels
  induction levels generalizing xs with
  | zero =>
    rw [eq_nil_of_depthAll hlevels]
    exact inside [] fun g hg => absurd hg (by simp [Adjacent.groups_nil])
  | succ levels ih =>
    exact inside xs fun g hg => ih _ (depthAll_inside hlevels hg)

theorem coalesce_eq_nil_iff {xs : List Inline} : coalesce slots xs = [] ↔ xs = [] := by
  constructor
  · intro h
    rw [coalesce_eq_map, List.map_eq_nil_iff] at h
    rw [← Adjacent.flatMap_toList_groups (belongTogether slots) xs, h, List.flatMap_nil]
  · rintro rfl
    rfl

/-- Alone, an item keeps its children; what takes the place of a longer group has those of all its
items, coalesced. -/
theorem children_collapse {g : Adjacent.Group Inline}
    (h : g.toList.IsChain fun a b => belongTogether slots a b = true) :
    (g.collapse (combine slots)).children =
      if g.tail.isEmpty then g.head.children else coalesce slots (g.toList.flatMap children) := by
  unfold Adjacent.Group.collapse
  split
  · rfl
  · rw [combine, children_mapChildren rfl, children_joined h]
    rfl

/-! ## After coalescing -/

/-- What takes the place of a group is of the kind of every item of it. -/
theorem joinKind?_collapse {g : Adjacent.Group Inline}
    (h : g.toList.IsChain fun a b => belongTogether slots a b = true) :
    ∀ x ∈ g.toList, (g.collapse (combine slots)).joinKind? slots = x.joinKind? slots := by
  have hkinds : g.toList.IsChain fun a b => a.joinKind? slots = b.joinKind? slots := by
    refine h.imp fun a b hab => ?_
    simp only [belongTogether, Bool.and_eq_true, beq_iff_eq] at hab
    exact hab.2
  intro x hx
  rw [Adjacent.eq_head_of_isChain hkinds x hx]
  unfold Adjacent.Group.collapse
  split
  · rfl
  · rw [combine, joinKind?_mapChildren, joinKind?_joined h]

/-- Of coalesced inlines, no neighbours belong together. -/
theorem isChain_coalesce (slots : Slots) (xs : List Inline) :
    (coalesce slots xs).IsChain fun a b => belongTogether slots a b = false := by
  rw [coalesce_eq_map, List.isChain_map]
  refine (Adjacent.isChain_groups _ xs).imp_of_mem_imp ?_
  intro g h hg hh hapart
  have hlast := joinKind?_collapse (Adjacent.isChain_of_mem_groups hg) g.last
    (List.mem_of_getLast? g.getLast?_toList)
  have hhead := joinKind?_collapse (Adjacent.isChain_of_mem_groups hh) h.head List.mem_cons_self
  rw [belongTogether, hlast, hhead]
  exact hapart

theorem coalesce_eq_self {xs : List Inline}
    (h : xs.IsChain fun a b => belongTogether slots a b = false) : coalesce slots xs = xs := by
  rw [coalesce_eq_map, Adjacent.groups_of_isChain h, List.map_map]
  exact List.map_id _

/-! ## Nothing is lost -/

/-- A first inline with all the inlines after it joined onto it, if each of them can be joined. -/
def joinAll? (first : Inline) (rest : List Inline) : Option Inline := rest.foldlM join? first

/-- Coalescing that fails as soon as two inlines are to be joined that cannot be. -/
def coalesceWithin? (slots : Slots) : Nat → List Inline → Option (List Inline)
  | 0, xs => some xs
  | levels + 1, xs =>
      (Adjacent.groups (belongTogether slots) xs).mapM fun g =>
        if g.tail.isEmpty then some g.head
        else do
          let whole ← joinAll? g.head g.tail
          let inside ← coalesceWithin? slots levels whole.children
          pure (whole.mapChildren fun _ => inside)

/-- The items of a group can all be joined. -/
theorem joinAll?_eq_some {first : Inline} {rest : List Inline}
    (h : (first :: rest).IsChain fun a b => belongTogether slots a b = true) :
    joinAll? first rest = some (joined first rest) := by
  refine joined_induction (motive := fun first rest whole => joinAll? first rest = some whole)
    (fun _ => rfl) ?_ h
  intro a b c rest x _ hjoin hx
  rw [joinAll?, List.foldlM_cons, hjoin]
  exact hx

theorem mapM_eq_some {α β : Type} {f : α → Option β} {f' : α → β} {as : List α}
    (h : ∀ a ∈ as, f a = some (f' a)) : as.mapM f = some (as.map f') := by
  induction as with
  | nil => rfl
  | cons a as ih =>
    rw [List.mapM_cons, h a List.mem_cons_self, ih fun b hb => h b (List.mem_cons_of_mem _ hb)]
    rfl

/-- Coalescing never has to join what cannot be joined. -/
theorem coalesceWithin?_eq_some (levels : Nat) (xs : List Inline) :
    coalesceWithin? slots levels xs = some (coalesceWithin slots levels xs) := by
  induction levels generalizing xs with
  | zero => rfl
  | succ levels ih =>
    rw [coalesceWithin?, coalesceWithin_succ]
    refine mapM_eq_some fun g hg => ?_
    unfold Adjacent.Group.collapse
    split
    · rfl
    · rw [joinAll?_eq_some (Adjacent.isChain_of_mem_groups hg), Option.bind_eq_bind,
        Option.bind_some, ih]
      exact congrArg some (mapChildren_congr rfl)

/-- What coalescing keeps, and what is left to do after it. -/
structure Lossless (slots : Slots) (xs : List Inline) : Prop where
  /-- The glyphs and the wrappers around each of them stay. -/
  readings : readingsAll slots [] (coalesce slots xs) = readingsAll slots [] xs
  /-- Whatever is joined on the way can be joined, so that nothing has to be left out. -/
  joins : coalesceWithin? slots (depthAll xs) xs = some (coalesce slots xs)
  /-- Coalescing once more changes nothing. -/
  again : coalesce slots (coalesce slots xs) = coalesce slots xs

/-- **Coalescing loses nothing, and once is enough.** -/
theorem lossless_coalesce (slots : Slots) (xs : List Inline) : Lossless slots xs where
  readings := readingsAll_coalesce xs
  joins := coalesceWithin?_eq_some _ xs
  again := coalesce_eq_self (isChain_coalesce slots xs)

/-- Two emphases with a piece of strong text at the border become one, and the two pieces with
them. -/
example :
    coalesce {} [.emphasis [.text "a", .strong [.text "b"]], .emphasis [.strong [.text "c"]]] =
      [.emphasis [.text "a", .strong [.text "bc"]]] := by
  rfl

end Inline

end DocExport
