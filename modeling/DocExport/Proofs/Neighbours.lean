import DocExport.Proofs.Groups

/-!
# Asking about neighbours

Grouping asks one question about every two neighbours, from left to right, and about nothing
else; what it makes of the list afterwards depends on the answers alone.  There is exactly one
way to part a list so that neighbours inside a group belong together and neighbours on both sides
of a border do not, whether this is said by a plain predicate or by the answers of one that has
effects.

* **Main results.** `groupsM_eq` (which questions are asked), `partsAs_iff` (the answers leave one
  way to part a list) and `partsBy_iff` (so does a plain predicate).
-/

namespace DocExport.Adjacent

variable {α : Type} {m : Type → Type} [Monad m]

/-! ## Partings -/

/-- Every two neighbours of a list, from left to right. -/
def neighbours (xs : List α) : List (α × α) := xs.zip xs.tail

/-- What groups say about every two neighbours, from left to right: those inside a group belong
together, the last item of a group and the first of the next one do not. -/
def verdicts : List (Group α) → List Bool
  | [] => []
  | [g] => List.replicate g.tail.length true
  | g :: h :: gs => List.replicate g.tail.length true ++ false :: verdicts (h :: gs)

/-- Groups into which a list is parted as the answers about its neighbours say. -/
structure PartsAs (said : List Bool) (xs : List α) (gs : List (Group α)) : Prop where
  /-- Laid end to end, the groups are the list. -/
  items : gs.flatMap Group.toList = xs
  /-- They say of every two neighbours what the answers say. -/
  verdicts : verdicts gs = said

/-- Groups into which a list is parted as a plain predicate says. -/
structure PartsBy (same : α → α → Bool) (xs : List α) (gs : List (Group α)) : Prop where
  /-- Laid end to end, the groups are the list. -/
  items : gs.flatMap Group.toList = xs
  /-- Every two neighbours inside a group belong together. -/
  inside : ∀ g ∈ gs, g.toList.IsChain fun x y => same x y = true
  /-- The last item of a group and the first item of the next one do not. -/
  across : gs.IsChain fun g h => same g.last h.head = false

/-- An item before a list that is parted already: it joins the first group if it belongs together
with the item after it, and is a group of its own otherwise. -/
def putBefore (x : α) (together : Bool) : List (Group α) → List (Group α)
  | [] => [⟨x, []⟩]
  | g :: gs => if together then ⟨x, g.toList⟩ :: gs else ⟨x, []⟩ :: g :: gs

/-- The groups of a list whose neighbours have been asked about. -/
def parted : List α → List Bool → List (Group α)
  | [], _ => []
  | x :: xs, said => putBefore x (said.headD false) (parted xs said.tail)

theorem flatMap_toList_putBefore (x : α) (together : Bool) (gs : List (Group α)) :
    (putBefore x together gs).flatMap Group.toList = x :: gs.flatMap Group.toList := by
  cases gs with
  | nil => rfl
  | cons g gs => cases together <;> simp [putBefore, Group.toList]

/-- There is one more verdict where an item comes before some groups: the one about it. -/
theorem verdicts_putBefore (x : α) (together : Bool) {gs : List (Group α)} (h : gs ≠ []) :
    verdicts (putBefore x together gs) = together :: verdicts gs := by
  cases gs with
  | nil => exact absurd rfl h
  | cons g gs =>
    cases together with
    | false => simp [putBefore, verdicts]
    | true => cases gs <;> simp [putBefore, verdicts, Group.toList, List.replicate_succ]

theorem flatMap_toList_parted (xs : List α) (said : List Bool) :
    (parted xs said).flatMap Group.toList = xs := by
  induction xs generalizing said with
  | nil => rfl
  | cons x xs ih => rw [parted, flatMap_toList_putBefore, ih]

/-- A list that is parted as the answers say gives these answers back. -/
theorem verdicts_parted (xs : List α) {said : List Bool}
    (h : said.length = (neighbours xs).length) : verdicts (parted xs said) = said := by
  induction xs generalizing said with
  | nil =>
    obtain rfl : said = [] := by simpa [neighbours] using h
    rfl
  | cons x xs ih =>
    cases xs with
    | nil =>
      obtain rfl : said = [] := by simpa [neighbours] using h
      rfl
    | cons y ys =>
      cases said with
      | nil => simp [neighbours] at h
      | cons b said =>
        have hrest : said.length = (neighbours (y :: ys)).length := by
          simpa [neighbours] using h
        have hne : parted (y :: ys) said ≠ [] := by
          intro hnil
          have hitems := flatMap_toList_parted (y :: ys) said
          simp [hnil] at hitems
        show verdicts (putBefore x b (parted (y :: ys) said)) = b :: said
        rw [verdicts_putBefore x b hne, ih hrest]

/-- A list is parted as its groups say in only one way. -/
theorem parted_verdicts (gs : List (Group α)) :
    parted (gs.flatMap Group.toList) (verdicts gs) = gs := by
  induction gs with
  | nil => rfl
  | cons g gs ih =>
    obtain ⟨x, tail⟩ := g
    -- from the last item of the first group to its first
    induction tail generalizing x with
    | nil =>
      cases gs with
      | nil => rfl
      | cons h gs =>
        show putBefore x false (parted ((h :: gs).flatMap Group.toList) (verdicts (h :: gs))) = _
        rw [ih]
        rfl
    | cons y tail ihtail =>
      have hmore : verdicts (⟨x, y :: tail⟩ :: gs) = true :: verdicts (⟨y, tail⟩ :: gs) := by
        cases gs <;> simp [verdicts, List.replicate_succ]
      rw [hmore]
      show putBefore x true (parted ((⟨y, tail⟩ :: gs).flatMap Group.toList)
        (verdicts (⟨y, tail⟩ :: gs))) = _
      rw [ihtail]
      rfl

/-- The answers about its neighbours leave exactly one way to part a list. -/
theorem partsAs_iff {said : List Bool} {xs : List α} (h : said.length = (neighbours xs).length)
    (gs : List (Group α)) : PartsAs said xs gs ↔ gs = parted xs said := by
  constructor
  · rintro ⟨rfl, rfl⟩
    exact (parted_verdicts gs).symm
  · rintro rfl
    exact ⟨flatMap_toList_parted xs said, verdicts_parted xs h⟩

/-- A plain predicate leaves exactly one way to part a list: into its groups. -/
theorem partsBy_iff (same : α → α → Bool) (xs : List α) (gs : List (Group α)) :
    PartsBy same xs gs ↔ gs = groups same xs := by
  constructor
  · rintro ⟨rfl, hinside, hacross⟩
    exact (groups_flatMap_toList hinside hacross).symm
  · rintro rfl
    exact ⟨flatMap_toList_groups same xs, fun g hg => isChain_of_mem_groups hg,
      isChain_groups same xs⟩

/-! ## Questions -/

section Questions

variable [LawfulMonad m]

/-- Grouping asks about the first two items, and then about the others. -/
theorem groupsM_cons_cons (ask : α → α → m Bool) (x y : α) (ys : List α) :
    groupsM ask (x :: y :: ys) = (do
      let together ← ask x y
      let gs ← groupsM ask (y :: ys)
      pure (putBefore x together gs)) := by
  simp only [groupsM, groupsAfterM, bind_assoc, pure_bind]
  congr 1
  funext together
  congr 1
  funext rest
  cases together <;> rfl

/-- Grouping asks about every two neighbours once, from left to right, and parts the list as it is
answered. -/
theorem groupsM_eq (ask : α → α → m Bool) (xs : List α) :
    groupsM ask xs = (do
      let said ← (neighbours xs).mapM fun (x, y) => ask x y
      pure (parted xs said)) := by
  induction xs with
  | nil => simp [groupsM, neighbours, parted]
  | cons x xs ih =>
    cases xs with
    | nil => simp [groupsM, groupsAfterM, neighbours, parted, putBefore]
    | cons y ys =>
      have hfirst : neighbours (x :: y :: ys) = (x, y) :: neighbours (y :: ys) := rfl
      rw [groupsM_cons_cons, ih, hfirst, List.mapM_cons]
      simp only [bind_assoc, pure_bind]
      rfl

/-- **What coalescing asks and what it returns.**  It asks about every two neighbours of the list,
once each and from left to right, and about nothing it has put together.  With the answers there
is one way to part the list so that neighbours inside a group belong together and neighbours on
both sides of a border do not; for a plain predicate, that is one that does so itself.  One item
comes back for each group: the item itself for a group of one, and what is made of the first and
the rest for a longer one. -/
theorem coalesceM_partings (combine : α → List α → α) (xs : List α) :
    (∀ ask : α → α → m Bool, coalesceM ask combine xs = (do
      let said ← (neighbours xs).mapM fun (x, y) => ask x y
      pure ((parted xs said).map (Group.collapse combine)))) ∧
    (∀ said, said.length = (neighbours xs).length →
      ∀ gs, PartsAs said xs gs ↔ gs = parted xs said) ∧
    ∀ same : α → α → Bool, ∃ gs, (∀ hs, PartsBy same xs hs ↔ hs = gs) ∧
      coalesce same combine xs = gs.map (Group.collapse combine) := by
  refine ⟨?_, fun said h gs => partsAs_iff h gs, ?_⟩
  · intro ask
    rw [coalesceM, groupsM_eq]
    simp only [bind_assoc, pure_bind]
  · intro same
    exact ⟨groups same xs, partsBy_iff same xs, coalesce_eq same combine xs⟩

end Questions

/-- Whether a number is the successor of another, with a note of the question. -/
def askSuccessor (a b : Nat) : StateM (List (Nat × Nat)) Bool := do
  modify fun asked => asked ++ [(a, b)]
  pure (a + 1 == b)

/-- The sums of successive numbers: each number is compared with the one before it, not with the
first of its group and not with a sum. -/
theorem coalesceM_partings_successors :
    (coalesceM askSuccessor (fun first rest => rest.foldl (· + ·) first) [1, 2, 3, 5]).run [] =
        ([6, 5], [(1, 2), (2, 3), (3, 5)]) ∧
      PartsAs [true, true, false] [1, 2, 3, 5] [⟨1, [2, 3]⟩, ⟨5, []⟩] := by
  obtain ⟨hasks, hsaid, -⟩ := coalesceM_partings (m := StateM (List (Nat × Nat)))
    (fun first rest => rest.foldl (· + ·) first) [1, 2, 3, 5]
  refine ⟨?_, (hsaid _ rfl _).2 rfl⟩
  rw [hasks]
  rfl

end DocExport.Adjacent
