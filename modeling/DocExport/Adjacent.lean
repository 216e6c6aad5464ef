/-!
# Groups of adjacent items

A list falls into *groups*: stretches in which every item belongs together with the one
directly before it.  Whether two neighbours belong together is asked of a predicate that may
have effects, once for every two neighbours and from left to right, so that the questions
themselves can be observed.  Coalescing puts one item in the place of each group; a group of
one is left alone.

* **Main results.** `groups_nil`, `groups_singleton` and `groups_cons_cons` decide where a
  group ends, and `flatMap_toList_groups` says that the groups, laid end to end, are the list.
-/

namespace DocExport.Adjacent

variable {α : Type} {m : Type → Type} [Monad m]

/-- A stretch of adjacent items that belong together; there is always a first one. -/
structure Group (α : Type) where
  /-- The first item. -/
  head : α
  /-- The items after it. -/
  tail : List α
  deriving DecidableEq, Repr

/-- The items of a group in order. -/
def Group.toList (g : Group α) : List α := g.head :: g.tail

/-- One item for a whole group: the item itself where the group has no other, and what
`combine` makes of the first item and the rest otherwise. -/
def Group.collapse (combine : α → List α → α) (g : Group α) : α :=
  if g.tail.isEmpty then g.head else combine g.head g.tail

/-! ## Grouping -/

/-- The rest of the group that `x` begins, and the groups after it. -/
def groupsAfterM (same : α → α → m Bool) (x : α) : List α → m (List α × List (Group α))
  | [] => pure ([], [])
  | y :: ys => do
      let together ← same x y
      let (mine, later) ← groupsAfterM same y ys
      pure (if together then (y :: mine, later) else ([], ⟨y, mine⟩ :: later))

/-- The groups of a list, where asking whether two neighbours belong together may have
effects. -/
def groupsM (same : α → α → m Bool) : List α → m (List (Group α))
  | [] => pure []
  | x :: xs => do
      let (mine, later) ← groupsAfterM same x xs
      pure (⟨x, mine⟩ :: later)

/-- One item for each group of a list, where asking may have effects. -/
def coalesceM (same : α → α → m Bool) (combine : α → List α → α) (xs : List α) :
    m (List α) := do
  let groups ← groupsM same xs
  pure (groups.map (Group.collapse combine))

/-- The groups of a list under a plain predicate. -/
def groups (same : α → α → Bool) (xs : List α) : List (Group α) :=
  Id.run (groupsM (fun x y => pure (same x y)) xs)

/-- One item for each group of a list under a plain predicate. -/
def coalesce (same : α → α → Bool) (combine : α → List α → α) (xs : List α) : List α :=
  Id.run (coalesceM (fun x y => pure (same x y)) combine xs)

/-! ## Laws of grouping -/

theorem coalesce_eq (same : α → α → Bool) (combine : α → List α → α) (xs : List α) :
    coalesce same combine xs = (groups same xs).map (Group.collapse combine) := rfl

/-- An empty list has no groups. -/
theorem groups_nil (same : α → α → Bool) : groups same [] = [] := rfl

/-- A single item is a group of its own. -/
theorem groups_singleton (same : α → α → Bool) (x : α) : groups same [x] = [⟨x, []⟩] := rfl

/-- The first of two items joins the group of the second exactly when they belong together,
and is a group of its own otherwise. -/
theorem groups_cons_cons (same : α → α → Bool) (x y : α) (ys : List α) :
    groups same (x :: y :: ys) =
      match groups same (y :: ys) with
      | [] => [⟨x, []⟩]
      | g :: gs => if same x y then ⟨x, g.toList⟩ :: gs else ⟨x, []⟩ :: g :: gs := by
  cases h : same x y <;>
    simp [groups, groupsM, groupsAfterM, h, Group.toList]

/-- The groups of a list, laid end to end, are the list. -/
theorem flatMap_toList_groups (same : α → α → Bool) (xs : List α) :
    (groups same xs).flatMap Group.toList = xs := by
  induction xs with
  | nil => rfl
  | cons x xs ih =>
    cases xs with
    | nil => rfl
    | cons y ys =>
      rw [groups_cons_cons]
      cases hg : groups same (y :: ys) with
      | nil => simp [hg] at ih
      | cons g gs =>
        rw [hg] at ih
        cases h : same x y <;> simp_all [Group.toList]

end DocExport.Adjacent
