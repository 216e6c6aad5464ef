import DocExport.Adjacent
import Mathlib.Data.List.Chain

/-!
# Where groups end

A group goes on for as long as neighbours belong together, and it ends exactly where two
neighbours do not.

* **Main results.** `isChain_of_mem_groups` (inside a group neighbours belong together),
  `isChain_groups` (across the border of two groups they do not),
  `groups_flatMap_toList` (there is no other way to group a list), `groups_append` and
  `groups_append_of_same` (what becomes of the groups where two lists are put together),
  `groups_split` (two items in the place of one) and `groups_map` (grouping looks at nothing but the
  answers of the predicate).
-/

namespace DocExport.Adjacent

variable {α β : Type}

/-- Items that are each equal in `f` to the one before them are equal in `f` to the first. -/
theorem eq_head_of_isChain {f : α → β} {x : α} {xs : List α}
    (h : (x :: xs).IsChain fun a b => f a = f b) : ∀ y ∈ x :: xs, f y = f x := by
  induction xs generalizing x with
  | nil => simp
  | cons next xs ih =>
    obtain ⟨hnext, hrest⟩ := List.isChain_cons_cons.1 h
    intro y hy
    rcases List.mem_cons.1 hy with rfl | hy
    · rfl
    · exact (ih hrest y hy).trans hnext.symm

/-- The last item of a group. -/
def Group.last (g : Group α) : α := g.tail.getLastD g.head

/-- A group with every item changed on its own. -/
def Group.map (f : β → α) (g : Group β) : Group α := ⟨f g.head, g.tail.map f⟩

theorem Group.toList_map (f : β → α) (g : Group β) : (g.map f).toList = g.toList.map f := rfl

theorem Group.getLast?_toList (g : Group α) : g.toList.getLast? = some g.last := by
  rw [Group.toList, List.getLast?_cons, Group.last, List.getLastD_eq_getLast?]

theorem groups_cons (same : α → α → Bool) (x : α) (xs : List α) :
    ∃ tail later, groups same (x :: xs) = ⟨x, tail⟩ :: later :=
  ⟨_, _, rfl⟩

/-- Inside a group every item belongs together with the one before it. -/
theorem isChain_of_mem_groups {same : α → α → Bool} {xs : List α} {g : Group α}
    (hg : g ∈ groups same xs) : g.toList.IsChain fun a b => same a b = true := by
  induction xs generalizing g with
  | nil => simp [groups_nil] at hg
  | cons x xs ih =>
    cases xs with
    | nil => simp_all [groups_singleton, Group.toList]
    | cons y ys =>
      obtain ⟨tail, later, hys⟩ := groups_cons same y ys
      rw [groups_cons_cons, hys] at hg
      rw [hys] at ih
      cases hxy : same x y with
      | true =>
        simp only [hxy, if_true, List.mem_cons] at hg
        rcases hg with rfl | hg
        · exact List.isChain_cons_cons.2 ⟨hxy, ih (List.mem_cons_self ..)⟩
        · exact ih (List.mem_cons_of_mem _ hg)
      | false =>
        simp only [hxy, Bool.false_eq_true, if_false, List.mem_cons] at hg
        rcases hg with rfl | hg
        · exact List.isChain_singleton _
        · exact ih (List.mem_cons.2 hg)

/-- The last item of a group does not belong together with the first item of the next one. -/
theorem isChain_groups (same : α → α → Bool) (xs : List α) :
    (groups same xs).IsChain fun g h => same g.last h.head = false := by
  induction xs with
  | nil => simp [groups_nil]
  | cons x xs ih =>
    cases xs with
    | nil => simp [groups_singleton]
    | cons y ys =>
      obtain ⟨tail, later, hys⟩ := groups_cons same y ys
      rw [hys] at ih
      rw [groups_cons_cons, hys]
      cases hxy : same x y with
      | true =>
        simp only [if_true]
        cases later with
        | nil => exact List.isChain_singleton _
        | cons h hs =>
          rw [List.isChain_cons_cons] at ih ⊢
          refine ⟨?_, ih.2⟩
          simpa [Group.last, Group.toList, List.getLast?_cons] using ih.1
      | false =>
        simp only [Bool.false_eq_true, if_false]
        exact List.isChain_cons_cons.2 ⟨hxy, ih⟩

/-- Before items that are grouped already, items that belong together are a group of their own, if
the last of them does not go with the first of the others. -/
theorem groups_toList_append {same : α → α → Bool} {g : Group α} {rest : List α}
    {gs : List (Group α)} (hinside : g.toList.IsChain fun a b => same a b = true)
    (hrest : groups same rest = gs) (hacross : (g :: gs).IsChain fun g h =>
      same g.last h.head = false) : groups same (g.toList ++ rest) = g :: gs := by
  obtain ⟨x, tail⟩ := g
  simp only [Group.toList] at hinside ⊢
  -- from the last item of the group to its first
  induction tail generalizing x with
  | nil =>
    cases rest with
    | nil =>
      subst hrest
      rfl
    | cons y ys =>
      obtain ⟨tail, later, hys⟩ := groups_cons same y ys
      rw [hys] at hrest
      subst hrest
      have hborder : same x y = false := (List.isChain_cons_cons.1 hacross).1
      rw [List.singleton_append, groups_cons_cons, hys, hborder]
      rfl
  | cons y tail ih =>
    obtain ⟨hxy, htail⟩ := List.isChain_cons_cons.1 hinside
    have hlast : Group.last ⟨x, y :: tail⟩ = Group.last ⟨y, tail⟩ := by
      cases tail <;> rfl
    have hnext : (⟨y, tail⟩ :: gs).IsChain fun g h => same g.last h.head = false := by
      cases gs with
      | nil => exact List.isChain_singleton _
      | cons h gs =>
        rw [List.isChain_cons_cons] at hacross ⊢
        exact ⟨hlast ▸ hacross.1, hacross.2⟩
    rw [List.cons_append, List.cons_append, groups_cons_cons, ← List.cons_append,
      ih y htail hnext, hxy]
    rfl

/-- A list is grouped in only one way: inside a group every item belongs together with the one
before it, and across the border of two groups it does not. -/
theorem groups_flatMap_toList {same : α → α → Bool} {gs : List (Group α)}
    (hinside : ∀ g ∈ gs, g.toList.IsChain fun a b => same a b = true)
    (hacross : gs.IsChain fun g h => same g.last h.head = false) :
    groups same (gs.flatMap Group.toList) = gs := by
  induction gs with
  | nil => rfl
  | cons g gs ih =>
    have hlater := ih (fun h hh => hinside h (List.mem_cons_of_mem _ hh)) hacross.tail
    rw [List.flatMap_cons]
    exact groups_toList_append (hinside g List.mem_cons_self) hlater hacross

/-- The first group of a list begins with the first item. -/
theorem head?_groups (same : α → α → Bool) (xs : List α) :
    (groups same xs).head?.map Group.head = xs.head? := by
  cases xs with
  | nil => rfl
  | cons x xs =>
    obtain ⟨tail, later, hxs⟩ := groups_cons same x xs
    rw [hxs]
    rfl

/-- The last group of a list ends with the last item. -/
theorem getLast?_groups (same : α → α → Bool) (xs : List α) :
    (groups same xs).getLast?.map Group.last = xs.getLast? := by
  have hxs := flatMap_toList_groups same xs
  generalize groups same xs = gs at hxs
  subst hxs
  induction gs using List.reverseRecOn with
  | nil => rfl
  | append_singleton gs g _ =>
    simp [List.flatMap_append, List.getLast?_append, Group.getLast?_toList]

/-- Where the last item of a list does not belong together with the first item of another, the two
are grouped each on its own. -/
theorem groups_append {same : α → α → Bool} {xs ys : List α}
    (h : ∀ x ∈ xs.getLast?, ∀ y ∈ ys.head?, same x y = false) :
    groups same (xs ++ ys) = groups same xs ++ groups same ys := by
  have hinside : ∀ g ∈ groups same xs ++ groups same ys,
      g.toList.IsChain fun a b => same a b = true := by
    intro g hg
    rcases List.mem_append.1 hg with hg | hg <;> exact isChain_of_mem_groups hg
  have hborder : ∀ g ∈ (groups same xs).getLast?, ∀ k ∈ (groups same ys).head?,
      same g.last k.head = false := by
    intro g hg k hk
    refine h _ ?_ _ ?_
    · rw [← getLast?_groups same xs]
      exact Option.mem_map_of_mem _ hg
    · rw [← head?_groups same ys]
      exact Option.mem_map_of_mem _ hk
  have hacross := List.isChain_append.2 ⟨isChain_groups same xs, isChain_groups same ys, hborder⟩
  rw [← groups_flatMap_toList hinside hacross, List.flatMap_append, flatMap_toList_groups,
    flatMap_toList_groups]

/-- Where the last item of a list belongs together with the first item of another, the last group of
the one and the first group of the other become one, and all other groups stay. -/
theorem groups_append_of_same {same : α → α → Bool} {xs ys : List α} {x y : α}
    (hx : x ∈ xs.getLast?) (hy : y ∈ ys.head?) (hxy : same x y = true) :
    ∃ gs g k ks, groups same xs = gs ++ [g] ∧ groups same ys = k :: ks ∧
      groups same (xs ++ ys) = gs ++ ⟨g.head, g.tail ++ k.toList⟩ :: ks ∧
      g.last = x ∧ k.head = y := by
  rw [← getLast?_groups same xs] at hx
  rw [← head?_groups same ys] at hy
  obtain ⟨g, hg, rfl⟩ := Option.map_eq_some_iff.1 hx
  obtain ⟨k, hk, rfl⟩ := Option.map_eq_some_iff.1 hy
  obtain ⟨gs, hgs⟩ := List.getLast?_eq_some_iff.1 hg
  obtain ⟨ks, hks⟩ := List.head?_eq_some_iff.1 hk
  refine ⟨gs, g, k, ks, hgs, hks, ?_, rfl, rfl⟩
  let both : Group α := ⟨g.head, g.tail ++ k.toList⟩
  have htoList : both.toList = g.toList ++ k.toList := rfl
  have hlast : both.last = k.last := by
    refine Option.some.inj ?_
    have hk : k.toList ≠ [] := List.cons_ne_nil _ _
    rw [← Group.getLast?_toList, ← Group.getLast?_toList, htoList,
      List.getLast?_append_of_ne_nil _ hk]
  have hinsideX : ∀ h ∈ gs ++ [g], h.toList.IsChain fun a b => same a b = true :=
    fun h hh => isChain_of_mem_groups (hgs ▸ hh)
  have hinsideY : ∀ h ∈ k :: ks, h.toList.IsChain fun a b => same a b = true :=
    fun h hh => isChain_of_mem_groups (hks ▸ hh)
  have hinside : ∀ h ∈ gs ++ both :: ks, h.toList.IsChain fun a b => same a b = true := by
    intro h hh
    rcases List.mem_append.1 hh with hh | hh
    · exact hinsideX h (List.mem_append_left _ hh)
    rcases List.mem_cons.1 hh with rfl | hh
    · rw [htoList, List.isChain_append]
      refine ⟨hinsideX g (by simp), hinsideY k List.mem_cons_self, fun a ha b hb => ?_⟩
      rw [Group.getLast?_toList, Option.mem_some_iff] at ha
      obtain rfl : k.head = b := Option.some.inj hb
      exact ha ▸ hxy
    · exact hinsideY h (List.mem_cons_of_mem _ hh)
  have hacross : (gs ++ both :: ks).IsChain fun g h => same g.last h.head = false := by
    have hX := hgs ▸ isChain_groups same xs
    have hY := hks ▸ isChain_groups same ys
    obtain ⟨hfront, -, hborder⟩ := List.isChain_append.1 hX
    refine List.isChain_append.2 ⟨hfront, ?_, fun a ha b hb => ?_⟩
    · cases ks with
      | nil => exact List.isChain_singleton _
      | cons h ks =>
        rw [List.isChain_cons_cons] at hY ⊢
        exact ⟨hlast ▸ hY.1, hY.2⟩
    · obtain rfl : both = b := Option.some.inj hb
      exact hborder a ha g rfl
  have hwhole : (gs ++ both :: ks).flatMap Group.toList = xs ++ ys := by
    rw [← flatMap_toList_groups same xs, ← flatMap_toList_groups same ys, hgs, hks]
    simp [htoList]
  rw [← hwhole]
  exact groups_flatMap_toList hinside hacross

/-- Items that go with the same items after them have the same items in their group. -/
theorem groups_cons_congr {same : α → α → Bool} {x y : α} {xs tail : List α}
    {later : List (Group α)} (h : ∀ a, same y a = same x a)
    (hx : groups same (x :: xs) = ⟨x, tail⟩ :: later) :
    groups same (y :: xs) = ⟨y, tail⟩ :: later := by
  cases xs with
  | nil =>
    rw [groups_singleton] at hx ⊢
    cases hx
    rfl
  | cons a xs =>
    obtain ⟨others, last, hrest⟩ := groups_cons same a xs
    rw [groups_cons_cons, hrest] at hx ⊢
    rw [h]
    cases hxa : same x a <;> simp_all

/-- Where an item is replaced by two that belong together, the first of which goes with what is
before it and the second with what is after it like the item itself, the two are in its group in
its place. -/
theorem groups_split {same : α → α → Bool} {x y z : α} (hyz : same y z = true)
    (hleft : ∀ a, same a y = same a x) (hright : ∀ a, same z a = same x a) (xs ys : List α) :
    ∃ gs g g' hs before after,
      groups same (xs ++ x :: ys) = gs ++ g :: hs ∧
      groups same (xs ++ y :: z :: ys) = gs ++ g' :: hs ∧
      g.toList = before ++ x :: after ∧ g'.toList = before ++ y :: z :: after := by
  induction xs with
  | nil =>
    obtain ⟨tail, later, hx⟩ := groups_cons same x ys
    have hz : groups same (z :: ys) = ⟨z, tail⟩ :: later := groups_cons_congr hright hx
    refine ⟨[], ⟨x, tail⟩, ⟨y, z :: tail⟩, later, [], tail, hx, ?_, rfl, rfl⟩
    rw [List.nil_append, groups_cons_cons, hz, hyz]
    rfl
  | cons a xs ih =>
    obtain ⟨gs, g, g', hs, before, after, hg, hg', hlist, hlist'⟩ := ih
    -- the rest begins with the same item either way, or with the item and its first half
    obtain ⟨b, b', rest, rest', hb, hb', hab⟩ : ∃ b b' rest rest',
        xs ++ x :: ys = b :: rest ∧ xs ++ y :: z :: ys = b' :: rest' ∧ same a b' = same a b := by
      cases xs with
      | nil => exact ⟨x, y, _, _, rfl, rfl, hleft a⟩
      | cons b xs => exact ⟨b, b, _, _, rfl, rfl, rfl⟩
    rw [List.cons_append, List.cons_append, hb, hb', groups_cons_cons, groups_cons_cons, ← hb,
      ← hb', hg, hg', hab]
    cases hsame : same a b with
    | false => exact ⟨⟨a, []⟩ :: gs, g, g', hs, before, after, by cases gs <;> rfl,
        by cases gs <;> rfl, hlist, hlist'⟩
    | true =>
      cases gs with
      | nil => exact ⟨[], ⟨a, g.toList⟩, ⟨a, g'.toList⟩, hs, a :: before, after, rfl, rfl,
          congrArg (a :: ·) hlist, congrArg (a :: ·) hlist'⟩
      | cons h gs => exact ⟨⟨a, h.toList⟩ :: gs, g, g', hs, before, after, rfl, rfl, hlist, hlist'⟩

/-- Grouping items after changing them is changing the groups, when the question is asked of
the changed items. -/
theorem groups_map (same : α → α → Bool) (f : β → α) (xs : List β) :
    groups same (xs.map f) = (groups (fun a b => same (f a) (f b)) xs).map (Group.map f) := by
  induction xs with
  | nil => rfl
  | cons x xs ih =>
    cases xs with
    | nil => rfl
    | cons y ys =>
      obtain ⟨tail, later, hys⟩ := groups_cons (fun a b => same (f a) (f b)) y ys
      rw [List.map_cons, List.map_cons, groups_cons_cons, ← List.map_cons, ih, groups_cons_cons,
        hys]
      cases same (f x) (f y) <;> simp [Group.map, Group.toList]

end DocExport.Adjacent
