import DocExport.Markdown.Inline
import DocExport.RichText.Run
import DocExport.Text.Lines

/-!
# Phrasing of rich text

Runs carry their marks side by side, Markdown nests them.  Every run becomes a leaf wrapped in
its marks, and the order of the wrappers is decided by how far each mark reaches over the
neighbouring runs: the mark with the shortest span is innermost, and of two marks with equal
spans the one declared first.  Coalescing then lets a mark that reaches over several runs
become one inline around them all.

* **Main results.** `Run.span` measures how far a mark reaches, `RichText.inlines` is the
  phrasing of a list of runs, and `RichText.inlines_append_terminator` says that the terminator
  contributes nothing.
-/

namespace DocExport

-- sums start from the plain zero, whatever else is imported beside this module
attribute [local instance (2000)] Zero.ofOfNat0

namespace Run

/-! ## Spans -/

/-- The number of characters in the runs at the front of a list that carry a mark. -/
def reach (mark : Mark) (runs : List Run) : Nat :=
  ((runs.takeWhile (·.carries mark)).map Run.length).sum

/-- The number of characters over which a mark of a run reaches without a gap.  The runs before
it are given nearest first. -/
def span (before : List Run) (r : Run) (after : List Run) (mark : Mark) : Nat :=
  reach mark before + r.length + reach mark after

/-- The marks of a run from the shortest span to the longest; marks with equal spans keep the
order of their declaration. -/
def nesting (before : List Run) (r : Run) (after : List Run) : List Mark :=
  r.marks.mergeSort fun a b => r.span before after a ≤ r.span before after b

/-! ## Runs as inlines -/

/-- What a run says before it is marked: code, a formula that is not blank, or text.  The line
feed that ends a formula is not part of it. -/
def leaf (r : Run) : Inline :=
  if r.attributes.contains "inlineCode" then .code r.text
  else
    match r.attributes.get? "equation" with
    | none => .text r.text
    | some equation =>
        let formula := Text.dropFinalBreak equation.toList
        if Text.allBlank formula then .text r.text else .math (String.ofList formula)

/-- A leaf is a text, code or a formula. -/
theorem leaf_cases (r : Run) :
    (∃ s, r.leaf = .text s) ∨ (∃ s, r.leaf = .code s) ∨ ∃ s, r.leaf = .math s := by
  unfold leaf
  split
  · exact Or.inr (Or.inl ⟨_, rfl⟩)
  · split
    · exact Or.inl ⟨_, rfl⟩
    · simp only
      split
      · exact Or.inl ⟨_, rfl⟩
      · exact Or.inr (Or.inr ⟨_, rfl⟩)

/-- An inline of a run with one of the run's marks around it. -/
def wrap (r : Run) (inner : Inline) : Mark → Inline
  | .emphasis => .emphasis [inner]
  | .strong => .strong [inner]
  | .delete => .delete [inner]
  | .link => .link (.known r.url) none none [inner]

/-- A run between its neighbours as an inline. -/
def toInline (before : List Run) (r : Run) (after : List Run) : Inline :=
  (r.nesting before after).foldl r.wrap r.leaf

theorem toInline_of_marks_nil {before after : List Run} {r : Run} (h : r.marks = []) :
    r.toInline before after = r.leaf := by
  rw [toInline, nesting, h, List.mergeSort_nil, List.foldl_nil]

theorem toInline_of_marks_singleton {before after : List Run} {r : Run} (mark : Mark)
    (h : r.marks = [mark]) : r.toInline before after = r.wrap r.leaf mark := by
  rw [toInline, nesting, h, List.mergeSort_singleton, List.foldl_cons, List.foldl_nil]

end Run

namespace RichText

/-- The inlines of consecutive runs, one for each; the runs before them are given nearest
first. -/
def inlinesFrom (before : List Run) : List Run → List Inline
  | [] => []
  | r :: rest => r.toInline before rest :: inlinesFrom (r :: before) rest

/-- The runs that were written, without terminators. -/
def written (runs : List Run) : List Run := runs.filter (!·.isTerminator)

/-- The phrasing of a list of runs.  Its links all have known targets, so no slots are
needed to compare them. -/
def inlines (runs : List Run) : List Inline :=
  Inline.coalesce {} (inlinesFrom [] (written runs))

/-- A terminator at the end contributes nothing. -/
theorem inlines_append_terminator (runs : List Run) :
    inlines (runs ++ [Run.terminator]) = inlines runs := by
  have h : written (runs ++ [Run.terminator]) = written runs := by
    simp [written, List.filter_append, Run.isTerminator_terminator]
  rw [inlines, h, inlines]

end RichText

end DocExport
