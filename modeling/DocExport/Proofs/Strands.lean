import DocExport.Proofs.RunReading

/-!
# Runs under their marks

Before coalescing, rich text is a row of *strands*: each a single leaf under some marks.
Neighbouring strands are *aligned* if they agree, from the outside, on all the marks they share.
Coalescing aligned strands brings each mark together: along a span of a mark there is one node
of it, which stands around exactly the leaves of that span.

* **Main results.** `Strand.belongTogether_of_mem` (aligned strands that share a mark are
  joined), `Strand.Aligned.inner` (what is inside joined strands is aligned again) and
  `Strand.nodes_inline` (a strand has one node for each of its marks).
-/

namespace DocExport

/-! ## Nodes of a mark -/

namespace Inline

mutual

/-- The nodes of a mark inside an inline in the order in which they begin: how many glyphs stand
before each, and which glyphs stand in it.  The inline itself begins after `start` glyphs. -/
def nodes (mark : Mark) (start : Nat) : Inline → List (Nat × List Glyph)
  | .emphasis xs =>
      (if mark = .emphasis then [(start, glyphsAll xs)] else []) ++ nodesAll mark start xs
  | .strong xs =>
      (if mark = .strong then [(start, glyphsAll xs)] else []) ++ nodesAll mark start xs
  | .delete xs =>
      (if mark = .delete then [(start, glyphsAll xs)] else []) ++ nodesAll mark start xs
  | .link _ _ _ xs =>
      (if mark = .link then [(start, glyphsAll xs)] else []) ++ nodesAll mark start xs
  | _ => []

/-- The nodes of a mark in a list of inlines. -/
def nodesAll (mark : Mark) (start : Nat) : List Inline → List (Nat × List Glyph)
  | [] => []
  | x :: xs => nodes mark start x ++ nodesAll mark (start + (glyphs x).length) xs

end

theorem nodes_mapChildren_of_joinKind? {slots : Slots} {mark : Mark} {start : Nat} {x : Inline}
    {f : List Inline → List Inline}
    (h : x.joinKind? slots = some .text ∨ x.joinKind? slots = some .code) :
    (x.mapChildren f).nodes mark start = [] := by
  cases x <;> simp_all [joinKind?, mapChildren, nodes]

end Inline

/-! ## Marks around several inlines -/

namespace Run

/-- Several inlines with one of a run's marks around them. -/
def wrapAll (r : Run) (xs : List Inline) : Mark → Inline
  | .emphasis => .emphasis xs
  | .strong => .strong xs
  | .delete => .delete xs
  | .link => .link (.known r.url) none none xs

/-- The kind under which a mark of a run can be joined. -/
def joinKind (r : Run) : Mark → Inline.JoinKind
  | .emphasis => .emphasis
  | .strong => .strong
  | .delete => .delete
  | .link => .link (some r.url)

theorem wrap_eq_wrapAll (r : Run) (x : Inline) (mark : Mark) :
    r.wrap x mark = r.wrapAll [x] mark := by
  cases mark <;> rfl

theorem mapChildren_wrapAll (f : List Inline → List Inline) (r : Run) (xs : List Inline)
    (mark : Mark) : (r.wrapAll xs mark).mapChildren f = r.wrapAll (f xs) mark := by
  cases mark <;> rfl

theorem joinKind?_wrapAll (slots : Slots) (r : Run) (xs : List Inline) (mark : Mark) :
    (r.wrapAll xs mark).joinKind? slots = some (r.joinKind mark) := by
  cases mark <;> rfl

theorem glyphs_wrapAll (r : Run) (xs : List Inline) (mark : Mark) :
    (r.wrapAll xs mark).glyphs = Inline.glyphsAll xs := by
  cases mark <;> simp [wrapAll, Inline.glyphs]

theorem nodes_wrapAll (mark : Mark) (start : Nat) (r : Run) (xs : List Inline) (outer : Mark) :
    (r.wrapAll xs outer).nodes mark start =
      (if mark = outer then [(start, Inline.glyphsAll xs)] else []) ++
        Inline.nodesAll mark start xs := by
  cases outer <;> simp only [wrapAll, Inline.nodes]

/-- Joining inlines under one mark is putting the mark around all that they held. -/
theorem joined_wrapAll (r : Run) (xs : List Inline) (mark : Mark) (rest : List (Run × Inline)) :
    Inline.joined (r.wrapAll xs mark) (rest.map fun next => next.1.wrap next.2 mark) =
      r.wrapAll (xs ++ rest.map Prod.snd) mark := by
  induction rest generalizing xs with
  | nil => simp [Inline.joined]
  | cons next rest ih =>
    have hjoin : Inline.join? (r.wrapAll xs mark) (next.1.wrap next.2 mark) =
        some (r.wrapAll (xs ++ [next.2]) mark) := by
      cases mark <;> rfl
    have hstep : Inline.joined (r.wrapAll xs mark)
        ((next :: rest).map fun next => next.1.wrap next.2 mark) =
        Inline.joined (r.wrapAll (xs ++ [next.2]) mark)
          (rest.map fun next => next.1.wrap next.2 mark) := by
      simp only [Inline.joined, List.map_cons, List.foldl_cons, hjoin, Option.getD_some]
    rw [hstep, ih, List.map_cons, List.append_assoc, List.singleton_append]

/-! ## Leaves -/

theorem joinKind?_leaf (slots : Slots) (r : Run) :
    r.leaf.joinKind? slots = some .text ∨ r.leaf.joinKind? slots = some .code ∨
      r.leaf.joinKind? slots = none := by
  rcases r.leaf_cases with ⟨s, hs⟩ | ⟨s, hs⟩ | ⟨s, hs⟩ <;> simp [hs, Inline.joinKind?]

theorem nodes_leaf (mark : Mark) (start : Nat) (r : Run) : r.leaf.nodes mark start = [] := by
  rcases r.leaf_cases with ⟨s, hs⟩ | ⟨s, hs⟩ | ⟨s, hs⟩ <;> simp [hs, Inline.nodes]

theorem glyphs_leaf (r : Run) : r.leaf.glyphs = r.glyphs := by
  rw [← Inline.map_fst_readings {} [], readings_leaf, List.map_map]
  exact List.map_id _

end Run

/-! ## Strands -/

/-- A run under marks, the outermost first. -/
structure Strand where
  run : Run
  marks : List Mark

namespace Strand

/-- A strand as an inline. -/
def inline (s : Strand) : Inline :=
  s.marks.foldr (fun mark inner => s.run.wrap inner mark) s.run.leaf

/-- A strand without its outermost mark. -/
def inner (s : Strand) : Strand := ⟨s.run, s.marks.tail⟩

/-- Whether a strand is under a mark. -/
def carries (s : Strand) (mark : Mark) : Bool := s.marks.contains mark

theorem carries_iff {s : Strand} {mark : Mark} : s.carries mark = true ↔ mark ∈ s.marks :=
  List.contains_iff_mem

theorem marks_eq_cons {s : Strand} {outer : Mark} (h : s.marks.head? = some outer) :
    s.marks = outer :: s.inner.marks := by
  obtain ⟨marks, hmarks⟩ := List.head?_eq_some_iff.1 h
  rw [inner, hmarks, List.tail_cons]

theorem inline_eq_wrap {s : Strand} {outer : Mark} {marks : List Mark}
    (h : s.marks = outer :: marks) : s.inline = s.run.wrap s.inner.inline outer := by
  rw [inline, inline, inner, h, List.foldr_cons, List.tail_cons]

theorem inline_eq_leaf {s : Strand} (h : s.marks = []) : s.inline = s.run.leaf := by
  rw [inline, h, List.foldr_nil]

/-- Marks add no glyphs. -/
theorem glyphs_inline (s : Strand) : s.inline.glyphs = s.run.glyphs := by
  obtain ⟨r, marks⟩ := s
  induction marks with
  | nil => exact r.glyphs_leaf
  | cons outer marks ih =>
    rw [inline_eq_wrap rfl, Run.wrap_eq_wrapAll, Run.glyphs_wrapAll, Inline.glyphsAll,
      Inline.glyphsAll, List.append_nil]
    exact ih

/-- A strand nests as deep as it has marks. -/
theorem depth_inline (s : Strand) : s.inline.depth = s.marks.length + 1 := by
  obtain ⟨r, marks⟩ := s
  induction marks with
  | nil =>
    rw [inline_eq_leaf rfl, Run.leaf]
    split
    · simp [Inline.depth]
    · split
      · simp [Inline.depth]
      · simp only
        split <;> simp [Inline.depth]
  | cons outer marks ih =>
    have hdepth : ∀ x : Inline, (r.wrap x outer).depth = x.depth + 1 := by
      intro x
      cases outer <;> simp [Run.wrap, Inline.depth, Inline.depthAll]
    rw [inline_eq_wrap rfl, hdepth, inner, List.tail_cons, ih, List.length_cons]

theorem joinKind?_inline {s : Strand} {outer : Mark} {marks : List Mark}
    (h : s.marks = outer :: marks) : s.inline.joinKind? {} = some (s.run.joinKind outer) := by
  rw [inline_eq_wrap h, Run.wrap_eq_wrapAll, Run.joinKind?_wrapAll]

/-- Strands of one kind have the same outermost mark, or both have none. -/
theorem head?_eq_of_belongTogether {a b : Strand}
    (h : Inline.belongTogether {} a.inline b.inline = true) : a.marks.head? = b.marks.head? := by
  have hmark : ∀ (r : Run) (mark : Mark), r.joinKind mark ≠ .text ∧ r.joinKind mark ≠ .code := by
    intro r mark
    cases mark <;> simp [Run.joinKind]
  simp only [Inline.belongTogether, Bool.and_eq_true, beq_iff_eq] at h
  obtain ⟨hsome, hkind⟩ := h
  cases hma : a.marks with
  | nil =>
    cases hmb : b.marks with
    | nil => rfl
    | cons inner marks =>
      rw [inline_eq_leaf hma, joinKind?_inline hmb] at hkind
      have := hmark b.run inner
      rcases a.run.joinKind?_leaf {} with hl | hl | hl <;> simp_all
  | cons outer marks =>
    cases hmb : b.marks with
    | nil =>
      rw [joinKind?_inline hma, inline_eq_leaf hmb] at hkind
      have := hmark a.run outer
      rcases b.run.joinKind?_leaf {} with hl | hl | hl <;> simp_all
    | cons inner marks =>
      rw [joinKind?_inline hma, joinKind?_inline hmb, Option.some.injEq] at hkind
      rw [List.head?_cons, List.head?_cons]
      cases outer <;> cases inner <;> simp_all [Run.joinKind]

/-! ## Aligned neighbours -/

/-- Two strands agree, from the outside, on all the marks they share, and if they share a link
it points to one place. -/
def Aligned (a b : Strand) : Prop :=
  ∃ shared left right, a.marks = shared ++ left ∧ b.marks = shared ++ right ∧
    left.Disjoint right ∧ (Mark.link ∈ shared → a.run.url = b.run.url)

/-- Aligned strands that share a mark are joined. -/
theorem belongTogether_of_mem {a b : Strand} (h : a.Aligned b) {mark : Mark}
    (ha : mark ∈ a.marks) (hb : mark ∈ b.marks) :
    Inline.belongTogether {} a.inline b.inline = true := by
  obtain ⟨shared, left, right, hleft, hright, hdisjoint, hurl⟩ := h
  cases shared with
  | nil =>
    rw [hleft, List.nil_append] at ha
    rw [hright, List.nil_append] at hb
    exact absurd hb (hdisjoint ha)
  | cons outer shared =>
    have hkind : a.run.joinKind outer = b.run.joinKind outer := by
      cases outer with
      | link => rw [Run.joinKind, Run.joinKind, hurl (List.mem_cons_self ..)]
      | emphasis | strong | delete => rfl
    rw [Inline.belongTogether, joinKind?_inline hleft, joinKind?_inline hright, hkind]
    simp

/-- What stands in the common outermost mark of aligned strands is aligned. -/
theorem Aligned.inner {a b : Strand} (h : a.Aligned b) (hhead : a.marks.head? = b.marks.head?) :
    a.inner.Aligned b.inner := by
  obtain ⟨shared, left, right, hleft, hright, hdisjoint, hurl⟩ := h
  cases shared with
  | nil =>
    have hempty : left = [] := by
      cases left with
      | nil => rfl
      | cons outer left =>
        rw [hleft, hright] at hhead
        cases right with
        | nil => simp at hhead
        | cons outer' right =>
          simp only [List.nil_append, List.head?_cons, Option.some.injEq] at hhead
          exact absurd (hhead ▸ List.mem_cons_self ..) (hdisjoint (List.mem_cons_self ..))
    refine ⟨[], [], b.marks.tail, ?_, rfl, List.disjoint_nil_left _, by simp⟩
    rw [Strand.inner, hleft, hempty]
    rfl
  | cons outer shared =>
    refine ⟨shared, left, right, ?_, ?_, hdisjoint, fun h => hurl (List.mem_cons_of_mem _ h)⟩
    · rw [Strand.inner, hleft]
      rfl
    · rw [Strand.inner, hright]
      rfl

end Strand

/-! ## What coalescing makes of strands -/

namespace Inline

/-- The nodes of two lists after one another. -/
theorem nodesAll_append (mark : Mark) (start : Nat) (xs ys : List Inline) :
    nodesAll mark start (xs ++ ys) =
      nodesAll mark start xs ++ nodesAll mark (start + (glyphsAll xs).length) ys := by
  induction xs generalizing start with
  | nil => rfl
  | cons x xs ih =>
    simp only [List.cons_append, nodesAll, glyphsAll, ih, List.append_assoc, List.length_append,
      Nat.add_assoc]

end Inline

namespace Strand

/-- A strand has one node for each of its marks, around its whole leaf. -/
theorem nodes_inline (mark : Mark) (start : Nat) {s : Strand} (h : s.marks.Nodup) :
    s.inline.nodes mark start = if s.carries mark then [(start, s.run.glyphs)] else [] := by
  obtain ⟨r, marks⟩ := s
  induction marks with
  | nil => exact r.nodes_leaf mark start
  | cons outer marks ih =>
    obtain ⟨houter, hmarks⟩ := List.nodup_cons.1 h
    have hrest := ih hmarks
    have hglyphs := glyphs_inline ⟨r, marks⟩
    rw [inline_eq_wrap rfl, Run.wrap_eq_wrapAll, Run.nodes_wrapAll]
    simp only [inner, List.tail_cons, Inline.nodesAll, Inline.glyphsAll, List.append_nil, hrest,
      hglyphs]
    by_cases heq : mark = outer
    · have hnot : carries ⟨r, marks⟩ mark = false := by
        simpa [carries, heq] using houter
      have hyes : carries ⟨r, outer :: marks⟩ mark = true := by
        simp [carries, heq]
      rw [if_pos heq, hnot, hyes]
      rfl
    · have hsame : carries ⟨r, outer :: marks⟩ mark = carries ⟨r, marks⟩ mark := by
        simp [carries, heq]
      rw [if_neg heq, hsame]
      rfl

/-- The runs of the strands stand at a place of a list of runs, one after another. -/
def StandAt (runs : List Run) (i : Nat) (ss : List Strand) : Prop :=
  ss.map Strand.run <+: runs.drop i

theorem StandAt.left {runs : List Run} {i : Nat} {ss ts : List Strand}
    (h : StandAt runs i (ss ++ ts)) : StandAt runs i ss := by
  rw [StandAt, List.map_append] at h
  exact (List.prefix_append _ _).trans h

theorem StandAt.right {runs : List Run} {i : Nat} {ss ts : List Strand}
    (h : StandAt runs i (ss ++ ts)) : StandAt runs (i + ss.length) ts := by
  obtain ⟨rest, hrest⟩ := h
  refine ⟨rest, ?_⟩
  rw [← List.drop_drop, ← hrest, List.map_append, List.append_assoc]
  exact (List.drop_left' (List.length_map _)).symm

/-- Removing outermost marks moves no run. -/
theorem StandAt.inner {runs : List Run} {i : Nat} {ss : List Strand} (h : StandAt runs i ss) :
    StandAt runs i (ss.map Strand.inner) := by
  rw [StandAt, List.map_map]
  exact h

end Strand

namespace RichText

/-- The number of glyphs before a place of a list of runs. -/
def glyphCount (runs : List Run) (i : Nat) : Nat := ((runs.take i).flatMap Run.glyphs).length

/-- How many glyphs stand before a stretch of runs, and which glyphs stand in it. -/
def located (runs : List Run) (s : Stretch) : Nat × List Glyph :=
  (glyphCount runs s.start, (s.items runs).flatMap Run.glyphs)

/-- The glyphs before strands and in them. -/
theorem glyphCount_add {runs : List Run} {i : Nat} {ss : List Strand}
    (h : Strand.StandAt runs i ss) :
    glyphCount runs (i + ss.length) =
      glyphCount runs i + (ss.flatMap fun s => s.run.glyphs).length := by
  have htake : (runs.drop i).take ss.length = ss.map Strand.run := by
    have := List.prefix_iff_eq_take.1 h
    rw [List.length_map] at this
    exact this.symm
  rw [glyphCount, glyphCount, List.take_add, htake, List.flatMap_append, List.length_append,
    List.flatMap_map]

/-- The stretch of all strands at a place. -/
theorem located_all {runs : List Run} {i : Nat} {ss : List Strand}
    (h : Strand.StandAt runs i ss) :
    located runs (Stretch.shift i ⟨0, ss.length⟩) =
      (glyphCount runs i, ss.flatMap fun s => s.run.glyphs) := by
  have htake : (runs.drop i).take ss.length = ss.map Strand.run := by
    have := List.prefix_iff_eq_take.1 h
    rw [List.length_map] at this
    exact this.symm
  rw [located, Stretch.shift, Stretch.items]
  simp only [Nat.add_zero, Nat.add_sub_cancel_left, htake, List.flatMap_map]

/-- The nodes of a mark in `xs` are the spans of the mark along strands that stand at a place of
the runs. -/
def NodesAreSpans (mark : Mark) (runs : List Run) (i : Nat) (ss : List Strand)
    (xs : List Inline) : Prop :=
  ∃ spans, ListsSpans (·.carries mark) ss spans ∧
    Inline.nodesAll mark (glyphCount runs i) xs = spans.map fun s => located runs (s.shift i)

end RichText

end DocExport
