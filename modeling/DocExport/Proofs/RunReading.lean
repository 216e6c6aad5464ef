import DocExport.Proofs.Reading
import DocExport.Proofs.Stretches
import DocExport.RichText.Phrasing
import Mathlib.Data.List.Nodup
import Mathlib.Data.List.TakeWhile

/-!
# How rich text reads

The phrasing of a list of runs reads like the runs themselves.  Every run that was written gives
its glyphs, run by run, and each of them stands in exactly the marks of its run.  Which mark is
further inside is decided by the spans: the one whose span around the run has fewer characters,
and of two with equally many the one that was declared first.

* **Main results.** `RichText.isNesting_nestingAt` (the order of the wrappers around a run) and
  `RichText.readingsAll_inlines` (the reading of rich text).
-/

namespace DocExport

-- sums start from the plain zero, whatever else is imported beside this module
attribute [local instance (2000)] Zero.ofOfNat0

/-! ## Marks -/

/-- The name under which a mark is declared. -/
def Mark.name : Mark → String
  | .emphasis => "italic"
  | .strong => "bold"
  | .delete => "strikethrough"
  | .link => "link"

/-- Each mark is declared under its own name only. -/
theorem Mark.ofName?_eq_some_iff {s : String} {mark : Mark} :
    Mark.ofName? s = some mark ↔ s = mark.name := by
  constructor
  · intro h
    unfold Mark.ofName? at h
    split at h <;> cases h <;> rfl
  · rintro rfl
    cases mark <;> rfl

namespace Run

theorem nodup_marks (r : Run) : r.marks.Nodup := by
  refine List.Nodup.filterMap ?_ r.attributes.nodup
  intro a b mark ha hb
  exact (Mark.ofName?_eq_some_iff.1 ha).trans (Mark.ofName?_eq_some_iff.1 hb).symm

theorem carries_iff {r : Run} {mark : Mark} : r.carries mark = true ↔ mark ∈ r.marks :=
  List.contains_iff_mem

/-- What a mark of a run puts around it. -/
def wrapper (r : Run) : Mark → Wrapper
  | .emphasis => .emphasis
  | .strong => .strong
  | .delete => .delete
  | .link => .link (some r.url)

/-- What a run gives to read: the characters of a run of code, else its formula if that is not
blank, else the characters of its text. -/
def glyphs (r : Run) : List Glyph :=
  if r.attributes.contains "inlineCode" then r.text.toList.map .code
  else
    match r.attributes.get? "equation" with
    | none => r.text.toList.map .text
    | some equation =>
        if Text.allBlank equation.toList then r.text.toList.map .text
        else [.math (String.ofList (Text.dropFinalBreak equation.toList))]

end Run

/-- The line feed at the end of a text does not decide whether it shows. -/
theorem Text.allBlank_dropFinalBreak (cs : List Char) :
    Text.allBlank (Text.dropFinalBreak cs) = Text.allBlank cs := by
  rw [Text.dropFinalBreak]
  split
  · rename_i hlast
    obtain ⟨front, rfl⟩ := List.getLast?_eq_some_iff.1 hlast
    rw [List.dropLast_concat, Text.allBlank, Text.allBlank, List.all_append]
    have hblank : [('\n' : Char)].all Text.isBlank = true := by decide
    rw [hblank, Bool.and_true]
  · rfl

namespace Run

/-! ## Runs as inlines -/

/-- The leaf of a run reads as its glyphs. -/
theorem readings_leaf (slots : Slots) (around : List Wrapper) (r : Run) :
    r.leaf.readings slots around = r.glyphs.map fun g => (g, around) := by
  rw [leaf, glyphs]
  split
  · rw [Inline.readings, List.map_map]
    rfl
  · cases r.attributes.get? "equation" with
    | none =>
      simp only [Inline.readings, List.map_map]
      rfl
    | some equation =>
      simp only [Text.allBlank_dropFinalBreak]
      split
      · rw [Inline.readings, List.map_map]
        rfl
      · rfl

theorem readings_wrap (slots : Slots) (around : List Wrapper) (r : Run) (inner : Inline)
    (mark : Mark) :
    (r.wrap inner mark).readings slots around =
      inner.readings slots (r.wrapper mark :: around) := by
  cases mark <;>
    simp [wrap, wrapper, Inline.readings, Inline.readingsAll, Slots.read]

/-- Marks put around an inline one after another, the innermost first. -/
theorem readings_foldl_wrap (slots : Slots) (around : List Wrapper) (r : Run) (inner : Inline)
    (marks : List Mark) :
    (marks.foldl r.wrap inner).readings slots around =
      inner.readings slots (marks.map r.wrapper ++ around) := by
  induction marks generalizing inner with
  | nil => rfl
  | cons mark marks ih =>
    rw [List.foldl_cons, ih, readings_wrap, List.map_cons, List.cons_append]

end Run

/-! ## Order of marks -/

/-- Sorting by a key brings an item before another with the same key only if it stood there. -/
theorem pair_sublist_of_mergeSort {α : Type} {key : α → Nat} {l : List α} {a b : α}
    (h : [a, b].Sublist (l.mergeSort fun x y => key x ≤ key y)) (hkey : key a = key b) :
    [a, b].Sublist l := by
  have hle : ∀ x y z : α, decide (key x ≤ key y) = true → decide (key y ≤ key z) = true →
      decide (key x ≤ key z) = true := by
    simp only [decide_eq_true_eq]
    omega
  have htotal : ∀ x y : α, (decide (key x ≤ key y) || decide (key y ≤ key x)) = true := by
    simp only [Bool.or_eq_true, decide_eq_true_eq]
    omega
  -- the items with this key keep their order, so they are the same list before and after
  have hties : l.filter (key · = key a) =
      (l.mergeSort fun x y => key x ≤ key y).filter (key · = key a) := by
    have hsorted : (l.filter (key · = key a)).Pairwise fun x y => key x ≤ key y := by
      refine List.pairwise_of_forall_mem_list ?_
      intro x hx y hy
      simp only [List.mem_filter, decide_eq_true_eq] at hx hy
      omega
    have hsub := List.sublist_mergeSort hle htotal
      (hsorted.imp fun h => decide_eq_true h) List.filter_sublist
    have hsub' := hsub.filter (key · = key a)
    rw [List.filter_filter] at hsub'
    simp only [Bool.and_self] at hsub'
    exact hsub'.eq_of_length ((List.mergeSort_perm l _).filter _).length_eq.symm
  have hpair := h.filter (key · = key a)
  rw [List.filter_cons_of_pos (by simp), List.filter_cons_of_pos (by simp [hkey]),
    List.filter_nil, ← hties] at hpair
  exact hpair.trans List.filter_sublist

namespace Run

/-- Further inside comes a mark with a shorter span, or with an equal one and declared first. -/
theorem pairwise_nesting (before : List Run) (r : Run) (after : List Run) :
    (r.nesting before after).Pairwise fun a b =>
      r.span before after a < r.span before after b ∨
        r.span before after a = r.span before after b ∧ [a, b].Sublist r.marks := by
  refine List.pairwise_iff_forall_sublist.2 ?_
  intro a b hab
  have hsorted : (r.nesting before after).Pairwise fun a b =>
      decide (r.span before after a ≤ r.span before after b) = true :=
    List.pairwise_mergeSort (by simp only [decide_eq_true_eq]; omega)
      (by simp only [Bool.or_eq_true, decide_eq_true_eq]; omega) _
  have hle := of_decide_eq_true (hsorted.forall_sublist hab)
  rcases Nat.lt_or_eq_of_le hle with hlt | heq
  · exact Or.inl hlt
  · exact Or.inr ⟨heq, pair_sublist_of_mergeSort hab heq⟩

theorem perm_nesting (before : List Run) (r : Run) (after : List Run) :
    (r.nesting before after).Perm r.marks :=
  List.mergeSort_perm _ _

end Run

/-! ## Spans of marks -/

namespace RichText

/-- The number of characters in the runs at the places of a stretch. -/
def charCount (runs : List Run) (s : Stretch) : Nat := ((s.items runs).map Run.length).sum

/-- The span of a mark around a run that carries it has as many characters as the mark
reaches. -/
theorem exists_isSpan (before : List Run) (r : Run) (after : List Run) {mark : Mark}
    (h : r.carries mark = true) :
    ∃ s, IsSpan (·.carries mark) (before.reverse ++ r :: after) s ∧ before.length ∈ s ∧
      charCount (before.reverse ++ r :: after) s = r.span before after mark := by
  let nearBefore := before.takeWhile (·.carries mark)
  let farBefore := before.dropWhile (·.carries mark)
  let nearAfter := after.takeWhile (·.carries mark)
  let farAfter := after.dropWhile (·.carries mark)
  have hbefore : nearBefore ++ farBefore = before := List.takeWhile_append_dropWhile
  have hafter : nearAfter ++ farAfter = after := List.takeWhile_append_dropWhile
  have hruns : before.reverse ++ r :: after =
      farBefore.reverse ++ ((nearBefore.reverse ++ r :: nearAfter) ++ farAfter) := by
    rw [← hbefore, ← hafter, List.reverse_append]
    simp only [List.append_assoc, List.cons_append]
  rw [hruns]
  refine ⟨_, isSpan_between (by simp) ?_ ?_ ?_, ?_, ?_⟩
  · intro x hx
    simp only [List.mem_append, List.mem_reverse, List.mem_cons] at hx
    rcases hx with hx | rfl | hx
    · exact List.mem_takeWhile_imp (p := fun y : Run => y.carries mark) hx
    · exact h
    · exact List.mem_takeWhile_imp (p := fun y : Run => y.carries mark) hx
  · intro x hx
    rw [List.getLast?_reverse] at hx
    have hfirst := List.head?_dropWhile_not (·.carries mark) before
    rwa [show (before.dropWhile (·.carries mark)).head? = some x from hx] at hfirst
  · intro x hx
    have hfirst := List.head?_dropWhile_not (·.carries mark) after
    rwa [show (after.dropWhile (·.carries mark)).head? = some x from hx] at hfirst
  · rw [Stretch.mem_def]
    have hlen := congrArg List.length hbefore
    simp only [List.length_append, List.length_reverse, List.length_cons] at hlen ⊢
    omega
  · rw [charCount, Stretch.items_between]
    simp only [List.map_append, List.map_reverse, List.map_cons, List.sum_append,
      List.sum_reverse, List.sum_cons, Run.span, Run.reach, nearBefore, nearAfter]
    omega

/-- The order in which the marks of the run at a place are wrapped around it, the innermost
first: each mark once, from the span around the run with the fewest characters to the one with
the most, and marks whose spans have equally many as they were declared. -/
structure IsNesting (runs : List Run) (i : Nat) (r : Run) (order : List Mark) : Prop where
  perm : order.Perm r.marks
  nodup : order.Nodup
  sorted : order.Pairwise fun a b => ∃ s t,
    IsSpan (·.carries a) runs s ∧ i ∈ s ∧ IsSpan (·.carries b) runs t ∧ i ∈ t ∧
      (charCount runs s < charCount runs t ∨
        charCount runs s = charCount runs t ∧ [a, b].Sublist r.marks)

/-- The marks of the run at a place in the order in which they are wrapped around it. -/
def nestingAt (runs : List Run) (i : Nat) : List Mark :=
  match runs.drop i with
  | [] => []
  | r :: after => r.nesting (runs.take i).reverse after

theorem nestingAt_append (before : List Run) (r : Run) (after : List Run) :
    nestingAt (before.reverse ++ r :: after) before.length = r.nesting before after := by
  rw [nestingAt, ← List.length_reverse, List.drop_left, List.take_left, List.reverse_reverse]

theorem exists_neighbours {runs : List Run} {i : Nat} {r : Run} (h : runs[i]? = some r) :
    ∃ before after : List Run, before.length = i ∧ runs = before.reverse ++ r :: after := by
  obtain ⟨hi, hr⟩ := List.getElem?_eq_some_iff.1 h
  refine ⟨(runs.take i).reverse, runs.drop (i + 1), by simp; omega, ?_⟩
  rw [List.reverse_reverse, ← hr, ← List.drop_eq_getElem_cons hi, List.take_append_drop]

/-- The marks of every run are wrapped around it in the order of their spans. -/
theorem isNesting_nestingAt {runs : List Run} {i : Nat} {r : Run} (h : runs[i]? = some r) :
    IsNesting runs i r (nestingAt runs i) := by
  obtain ⟨before, after, hlen, rfl⟩ := exists_neighbours h
  rw [← hlen, nestingAt_append]
  have hperm := r.perm_nesting before after
  refine ⟨hperm, hperm.nodup_iff.2 r.nodup_marks, ?_⟩
  refine (r.pairwise_nesting before after).imp_of_mem ?_
  intro a b ha hb hab
  obtain ⟨s, hs, his, hscount⟩ := exists_isSpan before r after
    (Run.carries_iff.2 (hperm.mem_iff.1 ha))
  obtain ⟨t, ht, hit, htcount⟩ := exists_isSpan before r after
    (Run.carries_iff.2 (hperm.mem_iff.1 hb))
  exact ⟨s, t, hs, his, ht, hit, by rw [hscount, htcount]; exact hab⟩

/-! ## Reading rich text -/

/-- The inlines of consecutive runs read as the glyphs of these runs, each in the marks of its
run. -/
theorem readingsAll_inlinesFrom (slots : Slots) (before runs : List Run) :
    Inline.readingsAll slots [] (inlinesFrom before runs) =
      (runs.zipIdx before.length).flatMap fun (r, i) => r.glyphs.map fun g =>
        (g, (nestingAt (before.reverse ++ runs) i).map r.wrapper) := by
  induction runs generalizing before with
  | nil => rfl
  | cons r after ih =>
    have hhere : Inline.readings slots [] (r.toInline before after) = r.glyphs.map fun g =>
        (g, (nestingAt (before.reverse ++ r :: after) before.length).map r.wrapper) := by
      rw [nestingAt_append, Run.toInline, Run.readings_foldl_wrap, Run.readings_leaf,
        List.append_nil]
    have hlist : (r :: before).reverse ++ after = before.reverse ++ r :: after := by simp
    rw [inlinesFrom, Inline.readingsAll, ih, hhere, hlist, List.zipIdx_cons, List.flatMap_cons]
    rfl

/-- The phrasing of rich text reads, run by run, as the glyphs of the runs that were written.
Around each of them stand exactly the marks of its run, ordered by their spans. -/
theorem readingsAll_inlines (runs : List Run) :
    ∃ order : Nat → List Mark,
      (∀ i r, (written runs)[i]? = some r → IsNesting (written runs) i r (order i)) ∧
      Inline.readingsAll {} [] (inlines runs) =
        (written runs).zipIdx.flatMap fun (r, i) => r.glyphs.map fun g =>
          (g, (order i).map r.wrapper) := by
  refine ⟨nestingAt (written runs), fun i r h => isNesting_nestingAt h, ?_⟩
  rw [inlines, Inline.readingsAll_coalesce, readingsAll_inlinesFrom]
  rfl

end RichText

end DocExport
