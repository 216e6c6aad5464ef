import DocExport.Proofs.Coalescing
import DocExport.RichText.Phrasing

/-!
# Fully coalesced inlines

Inlines are fully coalesced when, however deep one looks, no two neighbours are left that could be
one: not at the top, and not inside any emphasis, strong text, deleted text or link.  Coalescing
passes over an inline that has no neighbour of its kind, so it brings this about where each inline
has nothing left to join inside; the inlines of single runs are like that.

* **Main results.** `belongTogether_iff` (which neighbours could be one), `coalesced_coalesce` and
  `filled_coalesce` (coalescing what is coalesced inside) and `RichText.coalesced_inlines` (rich
  text is fully coalesced).
-/

namespace DocExport

namespace Inline

variable {slots : Slots}

/-! ## What could be one -/

/-- Two inlines that could be one: two texts, two pieces of code, two emphases, two pieces of
strong or of deleted text, or two links whose targets read the same. -/
inductive OneKind (slots : Slots) : Inline → Inline → Prop where
  | text (a b : String) : OneKind slots (.text a) (.text b)
  | code (a b : String) : OneKind slots (.code a) (.code b)
  | emphasis (xs ys : List Inline) : OneKind slots (.emphasis xs) (.emphasis ys)
  | strong (xs ys : List Inline) : OneKind slots (.strong xs) (.strong ys)
  | delete (xs ys : List Inline) : OneKind slots (.delete xs) (.delete ys)
  | link {s t : Target} (title title' : Option String) (media media' : Option Media)
      (xs ys : List Inline) (sameUrl : slots.read s = slots.read t) :
      OneKind slots (.link s title media xs) (.link t title' media' ys)

/-- Exactly the inlines that could be one belong together. -/
theorem belongTogether_iff {a b : Inline} :
    belongTogether slots a b = true ↔ OneKind slots a b := by
  constructor
  · intro h
    cases a <;> cases b <;>
      simp only [belongTogether, joinKind?, Option.isSome_some, Option.isSome_none, Bool.true_and,
        Bool.false_and, beq_iff_eq, reduceCtorEq, Option.some.injEq, JoinKind.link.injEq] at h
    case link.link => exact .link _ _ _ _ _ _ h
    all_goals constructor
  · intro h
    cases h <;> simp_all [belongTogether, joinKind?]

/-- Inlines in which, however deep one looks, no two neighbours could be one. -/
inductive Coalesced (slots : Slots) : List Inline → Prop where
  | intro {xs : List Inline} (apart : xs.IsChain fun a b => ¬ OneKind slots a b)
      (inside : ∀ x ∈ xs, Coalesced slots x.children) : Coalesced slots xs

/-- Whether an inline stands around others. -/
def isWrapper : Inline → Bool
  | .emphasis _ | .strong _ | .delete _ | .link .. => true
  | _ => false

/-- Inlines in which, however deep one looks, nothing stands around nothing. -/
inductive Filled : List Inline → Prop where
  | intro {xs : List Inline} (holds : ∀ x ∈ xs, x.isWrapper = true → x.children ≠ [])
      (inside : ∀ x ∈ xs, Filled x.children) : Filled xs

theorem Coalesced.nil : Coalesced slots [] := ⟨List.isChain_nil, by simp⟩

theorem Coalesced.singleton {x : Inline} (h : Coalesced slots x.children) :
    Coalesced slots [x] :=
  ⟨List.isChain_singleton x, by simpa using h⟩

theorem Filled.nil : Filled [] := ⟨by simp, by simp⟩

theorem isWrapper_congr {x y : Inline} (h : x.joinKind? slots = y.joinKind? slots) :
    x.isWrapper = y.isWrapper := by
  cases x <;> cases y <;> simp_all [joinKind?, isWrapper]

/-! ## Coalescing -/

/-- Inlines that are each fully coalesced inside are fully coalesced by coalescing. -/
theorem coalesced_coalesce {xs : List Inline} (h : ∀ x ∈ xs, Coalesced slots x.children) :
    Coalesced slots (coalesce slots xs) := by
  induction xs using coalesce_induction slots with
  | inside xs ih =>
    constructor
    · refine (isChain_coalesce slots xs).imp fun a b hab => ?_
      rw [← belongTogether_iff, hab]
      exact Bool.false_ne_true
    · intro y hy
      rw [coalesce_eq_map] at hy
      obtain ⟨g, hg, rfl⟩ := List.mem_map.1 hy
      rw [children_collapse (Adjacent.isChain_of_mem_groups hg)]
      split
      · exact h _ (Adjacent.toList_subset_of_mem_groups hg List.mem_cons_self)
      · refine ih g hg fun z hz => ?_
        obtain ⟨x, hx, hz⟩ := exists_mem_children hg hz
        obtain ⟨-, hinside⟩ := h x hx
        exact hinside z hz

/-- What stands inside the items of a group stands around something wherever the items do. -/
theorem Filled.flatMap_children {xs : List Inline} (h : Filled xs) {g : Adjacent.Group Inline}
    (hg : g ∈ Adjacent.groups (belongTogether slots) xs) :
    Filled (g.toList.flatMap children) := by
  obtain ⟨-, hinside⟩ := h
  constructor
  · intro z hz
    obtain ⟨x, hx, hz⟩ := exists_mem_children hg hz
    obtain ⟨hholds, -⟩ := hinside x hx
    exact hholds z hz
  · intro z hz
    obtain ⟨x, hx, hz⟩ := exists_mem_children hg hz
    obtain ⟨-, hdeeper⟩ := hinside x hx
    exact hdeeper z hz

/-- Coalescing leaves nothing around nothing. -/
theorem filled_coalesce {xs : List Inline} (h : Filled xs) : Filled (coalesce slots xs) := by
  induction xs using coalesce_induction slots with
  | inside xs ih =>
    have hgroups : ∀ g ∈ Adjacent.groups (belongTogether slots) xs,
        Filled (g.toList.flatMap children) := fun g hg => h.flatMap_children hg
    obtain ⟨hholds, hinside⟩ := h
    constructor
    · intro y hy hwrapper
      rw [coalesce_eq_map] at hy
      obtain ⟨g, hg, rfl⟩ := List.mem_map.1 hy
      have hchain := Adjacent.isChain_of_mem_groups hg
      rw [isWrapper_congr (joinKind?_collapse hchain g.head List.mem_cons_self)] at hwrapper
      have hhead : g.head.children ≠ [] :=
        hholds _ (Adjacent.toList_subset_of_mem_groups hg List.mem_cons_self) hwrapper
      rw [children_collapse hchain]
      split
      · exact hhead
      · intro hnil
        rw [coalesce_eq_nil_iff, List.flatMap_eq_nil_iff] at hnil
        exact hhead (hnil _ List.mem_cons_self)
    · intro y hy
      rw [coalesce_eq_map] at hy
      obtain ⟨g, hg, rfl⟩ := List.mem_map.1 hy
      rw [children_collapse (Adjacent.isChain_of_mem_groups hg)]
      split
      · exact hinside _ (Adjacent.toList_subset_of_mem_groups hg List.mem_cons_self)
      · exact ih g hg (hgroups g hg)

end Inline

/-! ## Rich text -/

namespace Run

theorem children_leaf (r : Run) : r.leaf.children = [] := by
  rcases r.leaf_cases with ⟨s, hs⟩ | ⟨s, hs⟩ | ⟨s, hs⟩ <;> rw [hs] <;> rfl

theorem isWrapper_leaf (r : Run) : r.leaf.isWrapper = false := by
  rcases r.leaf_cases with ⟨s, hs⟩ | ⟨s, hs⟩ | ⟨s, hs⟩ <;> rw [hs] <;> rfl

theorem children_wrap (r : Run) (x : Inline) (mark : Mark) : (r.wrap x mark).children = [x] := by
  cases mark <;> rfl

/-- Marks around an inline leave it fully coalesced inside. -/
theorem coalesced_foldl_wrap (r : Run) (marks : List Mark) {x : Inline}
    (h : Inline.Coalesced {} x.children) :
    Inline.Coalesced {} (marks.foldl r.wrap x).children := by
  induction marks generalizing x with
  | nil => exact h
  | cons mark marks ih =>
    refine ih ?_
    rw [children_wrap]
    exact .singleton h

theorem filled_foldl_wrap (r : Run) (marks : List Mark) {x : Inline} (h : Inline.Filled [x]) :
    Inline.Filled [marks.foldl r.wrap x] := by
  induction marks generalizing x with
  | nil => exact h
  | cons mark marks ih =>
    refine ih ⟨?_, ?_⟩ <;> simp [children_wrap, h]

theorem coalesced_toInline (before : List Run) (r : Run) (after : List Run) :
    Inline.Coalesced {} (r.toInline before after).children := by
  refine coalesced_foldl_wrap r _ ?_
  rw [children_leaf]
  exact .nil

theorem filled_toInline (before : List Run) (r : Run) (after : List Run) :
    Inline.Filled [r.toInline before after] := by
  refine filled_foldl_wrap r _ ⟨?_, ?_⟩
  · simp [isWrapper_leaf]
  · simp [children_leaf, Inline.Filled.nil]

end Run

namespace RichText

/-- Before they are coalesced, the inlines of runs are those of single runs. -/
theorem exists_toInline {before runs : List Run} {x : Inline} (h : x ∈ inlinesFrom before runs) :
    ∃ earlier r later, x = Run.toInline earlier r later := by
  induction runs generalizing before with
  | nil => exact absurd h List.not_mem_nil
  | cons r runs ih =>
    rcases List.mem_cons.1 h with rfl | h
    · exact ⟨_, _, _, rfl⟩
    · exact ih h

/-- **Rich text is fully coalesced.**  However deep one looks, no two neighbours could be one, and
every emphasis, strong or deleted text and link stands around something.  And whatever inlines are
coalesced: if each of them is fully coalesced inside, all of them are afterwards, and if each stands
around something, so does what becomes of them. -/
theorem coalesced_inlines :
    (∀ runs, Inline.Coalesced {} (inlines runs) ∧ Inline.Filled (inlines runs)) ∧
    ∀ slots xs,
      ((∀ x ∈ xs, Inline.Coalesced slots x.children) →
        Inline.Coalesced slots (Inline.coalesce slots xs)) ∧
      (Inline.Filled xs → Inline.Filled (Inline.coalesce slots xs)) := by
  refine ⟨fun runs => ⟨?_, ?_⟩, fun slots xs => ⟨?_, ?_⟩⟩
  · refine Inline.coalesced_coalesce fun x hx => ?_
    obtain ⟨before, r, after, rfl⟩ := exists_toInline hx
    exact r.coalesced_toInline before after
  · refine Inline.filled_coalesce ⟨fun x hx => ?_, fun x hx => ?_⟩
    all_goals
      obtain ⟨before, r, after, rfl⟩ := exists_toInline hx
      obtain ⟨hholds, hinside⟩ := r.filled_toInline before after
    · exact hholds _ List.mem_cons_self
    · exact hinside _ List.mem_cons_self
  · exact Inline.coalesced_coalesce
  · exact Inline.filled_coalesce

/-- Two emphases around a text each: neither has anything to join inside. -/
def twoEmphases : List Inline := [.emphasis [.text "a"], .emphasis [.text "b"]]

/-- Once they are joined, the texts are joined as well. -/
theorem coalesced_inlines_twoEmphases :
    (∀ x ∈ twoEmphases, Inline.Coalesced {} x.children) ∧ Inline.Filled twoEmphases ∧
      Inline.Coalesced {} [.emphasis [.text "ab"]] ∧ Inline.Filled [.emphasis [.text "ab"]] := by
  have hinside : ∀ x ∈ twoEmphases, Inline.Coalesced {} x.children := by
    intro x hx
    simp only [twoEmphases, List.mem_cons, List.not_mem_nil, or_false] at hx
    rcases hx with rfl | rfl <;> exact .singleton .nil
  have htext : ∀ s, Inline.Filled [.text s] := by
    intro s
    constructor <;> simp [Inline.isWrapper, Inline.children, Inline.Filled.nil]
  have hfilled : Inline.Filled twoEmphases := by
    constructor <;> simp [twoEmphases, Inline.children, htext]
  obtain ⟨hcoalesced, hholds⟩ := coalesced_inlines.2 {} twoEmphases
  exact ⟨hinside, hfilled, hcoalesced hinside, hholds hfilled⟩

end RichText

end DocExport
