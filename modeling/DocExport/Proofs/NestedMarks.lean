import DocExport.Proofs.MarkNodes

/-!
# Marks that nest

The spans of different marks may overlap in any way.  Where they nest, the mark with the longer
span is outside in every run of the shorter one, so the strands of neighbouring runs are aligned
and phrasing keeps every span in one piece.

* **Main results.** `RichText.pairwise_encloses` (an outer mark has the larger span),
  `RichText.aligned_of_nested` (marks that nest align the strands) and `RichText.nodesAll_inlines`
  (the nodes of rich text are the spans of its marks).
-/

namespace DocExport

/-- Two lists, each in the order of a relation, begin with all the items they share, if whatever
stands before a shared item in one of them stands before it in the other. -/
theorem exists_shared_prefix {α : Type} {E F : α → α → Prop} {l r : List α}
    (hl : l.Pairwise E) (hr : r.Pairwise F) (hnodupl : l.Nodup) (hnodupr : r.Nodup)
    (hasymm : ∀ a b, F a b → ¬ F b a)
    (hleft : ∀ a ∈ l, ∀ b ∈ r, E a b → a ∈ r ∧ F a b)
    (hright : ∀ a ∈ r, ∀ b ∈ l, F a b → a ∈ l) :
    ∃ shared left right, l = shared ++ left ∧ r = shared ++ right ∧ left.Disjoint right := by
  induction l generalizing r with
  | nil => exact ⟨[], [], r, rfl, rfl, List.disjoint_nil_left _⟩
  | cons a l ih =>
    cases r with
    | nil => exact ⟨[], a :: l, [], rfl, rfl, List.disjoint_nil_right _⟩
    | cons b r =>
      obtain ⟨ha, hl'⟩ := List.pairwise_cons.1 hl
      obtain ⟨hb, hr'⟩ := List.pairwise_cons.1 hr
      by_cases hab : a = b
      · subst hab
        obtain ⟨hal, hnodupl'⟩ := List.nodup_cons.1 hnodupl
        obtain ⟨har, hnodupr'⟩ := List.nodup_cons.1 hnodupr
        obtain ⟨shared, left, right, rfl, rfl, hdisjoint⟩ := ih hl' hr' hnodupl' hnodupr'
          (fun x hx y hy hxy => by
            obtain ⟨hxr, hf⟩ :=
              hleft x (List.mem_cons_of_mem _ hx) y (List.mem_cons_of_mem _ hy) hxy
            exact ⟨List.mem_of_ne_of_mem (ne_of_mem_of_not_mem hx hal) hxr, hf⟩)
          (fun x hx y hy hxy => by
            have hxl := hright x (List.mem_cons_of_mem _ hx) y (List.mem_cons_of_mem _ hy) hxy
            exact List.mem_of_ne_of_mem (ne_of_mem_of_not_mem hx har) hxl)
        exact ⟨a :: shared, left, right, rfl, rfl, hdisjoint⟩
      · refine ⟨[], a :: l, b :: r, rfl, rfl, ?_⟩
        -- a shared item would have each of the two heads before it in both lists
        intro x hxl hxr
        have har : a ∈ b :: r := by
          rcases List.mem_cons.1 hxl with rfl | hx
          · exact hxr
          · exact (hleft a (List.mem_cons_self ..) x hxr (ha x hx)).1
        have hbl : b ∈ a :: l := by
          rcases List.mem_cons.1 hxr with rfl | hx
          · exact hxl
          · exact hright b (List.mem_cons_self ..) x hxl (hb x hx)
        have hba : F b a := hb a ((List.mem_cons.1 har).resolve_left hab)
        have hba' : E a b := ha b ((List.mem_cons.1 hbl).resolve_left (Ne.symm hab))
        exact hasymm b a hba
          (hleft a (List.mem_cons_self ..) b (List.mem_cons_self ..) hba').2

namespace RichText

/-! ## Longer spans -/

/-- The characters of two stretches, one directly after the other. -/
theorem charCount_add (runs : List Run) {a b c : Nat} (hab : a ≤ b) (hbc : b ≤ c) :
    charCount runs ⟨a, b⟩ + charCount runs ⟨b, c⟩ = charCount runs ⟨a, c⟩ := by
  have hitems : Stretch.items ⟨a, c⟩ runs =
      Stretch.items ⟨a, b⟩ runs ++ Stretch.items ⟨b, c⟩ runs := by
    simp only [Stretch.items]
    rw [show c - a = (b - a) + (c - b) by omega, List.take_add, List.drop_drop,
      Nat.add_sub_cancel' hab]
  rw [charCount, charCount, charCount, hitems, List.map_append, List.sum_append]

/-- Runs that show have characters. -/
theorem charCount_pos {runs : List Run} (hshown : ∀ r ∈ runs, r.text ≠ "") {s : Stretch}
    (hs : s.start < s.stop) (hstop : s.stop ≤ runs.length) : 0 < charCount runs s := by
  have hin : s.start < runs.length := by omega
  have hmem : runs[s.start] ∈ s.items runs :=
    Stretch.mem_items ⟨Nat.le_refl _, hs⟩ (List.getElem?_eq_getElem hin)
  rw [charCount, List.sum_pos_iff_exists_pos_nat]
  refine ⟨_, List.mem_map_of_mem hmem, Nat.pos_of_ne_zero fun hzero => ?_⟩
  exact hshown _ (List.getElem_mem hin) (String.length_eq_zero_iff.1 hzero)

/-- A span that lies within another stretch has fewer characters. -/
theorem charCount_lt_of_within {runs : List Run} (hshown : ∀ r ∈ runs, r.text ≠ "")
    {s t : Stretch} (hs : s.start < s.stop) (ht : t.stop ≤ runs.length) (h : s.Within t) :
    charCount runs s < charCount runs t := by
  obtain ⟨hall, i, hit, his⟩ := h
  have hfirst := hall s.start ⟨Nat.le_refl _, hs⟩
  have hlast := hall (s.stop - 1) ⟨by omega, by omega⟩
  rw [Stretch.mem_def] at hfirst hlast hit his
  have hsplit : charCount runs ⟨t.start, s.start⟩ + charCount runs s +
      charCount runs ⟨s.stop, t.stop⟩ = charCount runs t := by
    rw [charCount_add runs hfirst.1 hs.le, charCount_add runs (by omega) (by omega)]
  -- the place that only `t` has is before `s` or after it
  rcases Nat.lt_or_ge i s.start with hbefore | hafter
  · have := charCount_pos hshown (s := ⟨t.start, s.start⟩) (by simp only; omega)
      (by simp only; omega)
    omega
  · have := charCount_pos hshown (s := ⟨s.stop, t.stop⟩) (by simp only; omega) ht
    omega

/-! ## Outer marks -/

/-- Runs whose marks nest. -/
structure MarksNest (runs : List Run) : Prop where
  /-- Every run has a character. -/
  shown : ∀ r ∈ runs, r.text ≠ ""
  /-- The runs of a linked span all point to one place. -/
  url_eq : ∀ s, IsSpan (·.carries .link) runs s →
    ∀ r ∈ s.items runs, ∀ r' ∈ s.items runs, r.url = r'.url
  /-- The spans of two marks have no run in common, or one of them lies within the other. -/
  nested : ∀ a b, a ≠ b → ∀ s, IsSpan (·.carries a) runs s → ∀ t, IsSpan (·.carries b) runs t →
    s.Apart t ∨ s.Within t ∨ t.Within s

/-- What is to be said of all marks can be decided. -/
instance decidableForallMark (P : Mark → Prop) [DecidablePred P] : Decidable (∀ mark, P mark) :=
  decidable_of_iff (P .emphasis ∧ P .strong ∧ P .delete ∧ P .link)
    ⟨fun ⟨he, hs, hd, hl⟩ mark => by cases mark <;> assumption,
      fun h => ⟨h _, h _, h _, h _⟩⟩

instance (runs : List Run) : Decidable (MarksNest runs) :=
  decidable_of_iff
    ((∀ r ∈ runs, r.text ≠ "") ∧
      (∀ s, IsSpan (·.carries .link) runs s →
        ∀ r ∈ s.items runs, ∀ r' ∈ s.items runs, r.url = r'.url) ∧
      ∀ a b, a ≠ b → ∀ s, IsSpan (·.carries a) runs s → ∀ t, IsSpan (·.carries b) runs t →
        s.Apart t ∨ s.Within t ∨ t.Within s)
    ⟨fun ⟨hshown, hurl, hnested⟩ => ⟨hshown, hurl, hnested⟩,
      fun h => ⟨h.shown, h.url_eq, h.nested⟩⟩

/-- At a place the span of one mark encloses that of another. -/
def Encloses (runs : List Run) (i : Nat) (a b : Mark) : Prop :=
  ∃ s t, IsSpan (·.carries a) runs s ∧ i ∈ s ∧ IsSpan (·.carries b) runs t ∧ i ∈ t ∧ t.Within s

variable {runs : List Run} {i : Nat} {r : Run}

theorem Encloses.asymm {a b : Mark} (hab : Encloses runs i a b) : ¬ Encloses runs i b a := by
  rintro ⟨t', s', ht', hit', hs', his', hwithin'⟩
  obtain ⟨s, t, hs, his, ht, hit, hwithin⟩ := hab
  obtain rfl := hs.eq_of_mem hs' his his'
  obtain rfl := ht.eq_of_mem ht' hit hit'
  obtain ⟨j, hj, hjt⟩ := hwithin.2
  exact hjt (hwithin'.1 j hj)

theorem mem_nestingAt (hr : runs[i]? = some r) {mark : Mark} :
    mark ∈ nestingAt runs i ↔ holdsAt (·.carries mark) runs i = true := by
  rw [(isNesting_nestingAt hr).perm.mem_iff, holdsAt, hr, Option.any_some, Run.carries_iff]

theorem exists_isSpan_of_carries (hr : runs[i]? = some r) {mark : Mark}
    (h : r.carries mark = true) : ∃ s, IsSpan (·.carries mark) runs s ∧ i ∈ s := by
  obtain ⟨before, after, rfl, rfl⟩ := exists_neighbours hr
  obtain ⟨s, hs, hmem, -⟩ := exists_isSpan before r after h
  exact ⟨s, hs, hmem⟩

/-- Where marks nest, an outer mark has the larger span. -/
theorem pairwise_encloses (h : MarksNest runs) (hr : runs[i]? = some r) :
    (nestingAt runs i).reverse.Pairwise (Encloses runs i) := by
  have hnesting := isNesting_nestingAt hr
  rw [List.pairwise_reverse]
  refine (hnesting.sorted.and hnesting.nodup).imp ?_
  rintro b a ⟨⟨t, s, ht, hit, hs, his, hcount⟩, hne⟩
  rcases h.nested b a hne t ht s hs with hapart | hwithin | hwithin
  · exact absurd his (hapart i hit)
  · exact ⟨s, t, hs, his, ht, hit, hwithin⟩
  · have := charCount_lt_of_within h.shown hs.nonempty ht.stop_le_length hwithin
    omega

/-- A run as a strand under its marks. -/
def strand (runs : List Run) (i : Nat) (r : Run) : Strand := ⟨r, (nestingAt runs i).reverse⟩

/-- Where marks nest, the strands of neighbouring runs are aligned. -/
theorem aligned_of_nested (h : MarksNest runs) {next : Run} (hr : runs[i]? = some r)
    (hnext : runs[i + 1]? = some next) :
    (strand runs i r).Aligned (strand runs (i + 1) next) := by
  have hmem : ∀ mark, mark ∈ (nestingAt runs i).reverse ↔
      holdsAt (·.carries mark) runs i = true :=
    fun _ => List.mem_reverse.trans (mem_nestingAt hr)
  have hmem' : ∀ mark, mark ∈ (nestingAt runs (i + 1)).reverse ↔
      holdsAt (·.carries mark) runs (i + 1) = true :=
    fun _ => List.mem_reverse.trans (mem_nestingAt hnext)
  obtain ⟨shared, left, right, hleft, hright, hdisjoint⟩ :=
    exists_shared_prefix (pairwise_encloses h hr) (pairwise_encloses h hnext)
      (List.nodup_reverse.2 (isNesting_nestingAt hr).nodup)
      (List.nodup_reverse.2 (isNesting_nestingAt hnext).nodup)
      (fun _ _ hab => hab.asymm)
      (by
        rintro a - b hb ⟨s, t, hs, his, ht, hit, hwithin⟩
        have hit' := ht.succ_mem hit ((hmem' b).1 hb)
        have his' := hwithin.1 _ hit'
        exact ⟨(hmem' a).2 (hs.holds _ his'), s, t, hs, his', ht, hit', hwithin⟩)
      (by
        rintro a - b hb ⟨s, t, hs, -, ht, hit, hwithin⟩
        have hit' := ht.mem_of_succ_mem hit ((hmem b).1 hb)
        exact (hmem a).2 (hs.holds _ (hwithin.1 _ hit')))
  refine ⟨shared, left, right, hleft, hright, hdisjoint, fun hlink => ?_⟩
  have hhere : Mark.link ∈ (nestingAt runs i).reverse :=
    hleft ▸ List.mem_append_left _ hlink
  have hthere : Mark.link ∈ (nestingAt runs (i + 1)).reverse :=
    hright ▸ List.mem_append_left _ hlink
  rw [List.mem_reverse, (isNesting_nestingAt hr).perm.mem_iff, ← Run.carries_iff] at hhere
  obtain ⟨s, hs, his⟩ := exists_isSpan_of_carries hr hhere
  have his' := hs.succ_mem his ((hmem' _).1 hthere)
  exact h.url_eq s hs _ (Stretch.mem_items his hr) _ (Stretch.mem_items his' hnext)

/-! ## Phrasing -/

/-- All runs as strands. -/
def strands (runs : List Run) : List Strand := runs.zipIdx.map fun (r, i) => strand runs i r

theorem map_run_strands (runs : List Run) : (strands runs).map Strand.run = runs := by
  rw [strands, List.map_map]
  exact List.zipIdx_map_fst 0 runs

theorem getElem?_strands (runs : List Run) (i : Nat) :
    (strands runs)[i]? = runs[i]?.map (strand runs i) := by
  rw [strands, List.getElem?_map, List.getElem?_zipIdx, Option.map_map]
  simp only [Nat.zero_add, Function.comp_def]

/-- A strand carries the marks of its run. -/
theorem holdsAt_strands (mark : Mark) (runs : List Run) (i : Nat) :
    holdsAt (·.carries mark) (strands runs) i = holdsAt (·.carries mark) runs i := by
  rw [holdsAt, holdsAt, getElem?_strands]
  cases hr : runs[i]? with
  | none => rfl
  | some r =>
    rw [Option.map_some, Option.any_some, Option.any_some, Bool.eq_iff_iff, Strand.carries_iff,
      strand, List.mem_reverse, (isNesting_nestingAt hr).perm.mem_iff, Run.carries_iff]

/-- Consecutive runs become the inlines of their strands. -/
theorem inlinesFrom_eq (before runs : List Run) :
    inlinesFrom before runs = (runs.zipIdx before.length).map fun (r, i) =>
      (strand (before.reverse ++ runs) i r).inline := by
  induction runs generalizing before with
  | nil => rfl
  | cons r after ih =>
    have hhere : r.toInline before after =
        (strand (before.reverse ++ r :: after) before.length r).inline := by
      rw [strand, nestingAt_append, Strand.inline, List.foldr_reverse]
      rfl
    have hlist : (r :: before).reverse ++ after = before.reverse ++ r :: after := by simp
    rw [inlinesFrom, ih, hhere, hlist, List.zipIdx_cons, List.map_cons]
    rfl

/-- A strand in a list is no deeper than the list. -/
theorem length_marks_lt_depthAll {ss : List Strand} {s : Strand} (hs : s ∈ ss) :
    s.marks.length < Inline.depthAll (ss.map Strand.inline) := by
  induction ss with
  | nil => simp at hs
  | cons t ss ih =>
    rw [List.map_cons, Inline.depthAll, Strand.depth_inline]
    rcases List.mem_cons.1 hs with rfl | hs
    · omega
    · have := ih hs
      omega

/-- Where marks nest, the strands are in order. -/
theorem inOrder_strands (h : MarksNest runs) :
    Strand.InOrder (Inline.depthAll ((strands runs).map Strand.inline)) (strands runs) where
  deep _ hs := length_marks_lt_depthAll hs
  nodup := by
    intro s hs
    obtain ⟨i, hi⟩ := List.mem_iff_getElem?.1 hs
    rw [getElem?_strands, Option.map_eq_some_iff] at hi
    obtain ⟨r, hr, rfl⟩ := hi
    exact List.nodup_reverse.2 (isNesting_nestingAt hr).nodup
  aligned := by
    rw [List.isChain_iff_getElem]
    intro i hi
    have hlen : (strands runs).length = runs.length := by simp [strands]
    have hr : runs[i]? = some runs[i] := List.getElem?_eq_getElem (by omega)
    have hnext : runs[i + 1]? = some runs[i + 1] := List.getElem?_eq_getElem (by omega)
    simpa [strands] using aligned_of_nested h hr hnext

/-- Where marks nest, the phrasing of rich text has one node for every span of a mark, and it
stands around exactly what the runs of the span give to read. -/
theorem nodesAll_inlines (runs : List Run) (h : MarksNest (written runs)) (mark : Mark) :
    ∃ spans, ListsSpans (·.carries mark) (written runs) spans ∧
      Inline.nodesAll mark 0 (inlines runs) = spans.map (located (written runs)) := by
  have hstand : Strand.StandAt (written runs) 0 (strands (written runs)) := by
    rw [Strand.StandAt, map_run_strands]
    exact List.prefix_refl _
  obtain ⟨spans, hspans, hnodes⟩ :=
    nodesAreSpans_coalesceWithin mark _ _ 0 (inOrder_strands h) hstand
  have hinlines : inlinesFrom [] (written runs) =
      (strands (written runs)).map Strand.inline := by
    rw [inlinesFrom_eq, strands, List.map_map]
    rfl
  refine ⟨spans, hspans.congr (holdsAt_strands mark (written runs)), ?_⟩
  rw [inlines, Inline.coalesce, hinlines]
  simpa [glyphCount, Stretch.shift] using hnodes

/-- Bold text with an italic word and a link in it. -/
def boldAroundOthers : List Run :=
  [⟨"one ", .ofList [("bold", "true")]⟩,
    ⟨"two", .ofList [("bold", "true"), ("italic", "true")]⟩,
    ⟨"three", .ofList [("link", "https%3A%2F%2Fa.b"), ("bold", "true")]⟩,
    Run.terminator]

/-- Marks can nest. -/
theorem nodesAll_boldAroundOthers :
    MarksNest (written boldAroundOthers) ∧
      ∀ mark, ∃ spans, ListsSpans (·.carries mark) (written boldAroundOthers) spans ∧
        Inline.nodesAll mark 0 (inlines boldAroundOthers) =
          spans.map (located (written boldAroundOthers)) := by
  have h : MarksNest (written boldAroundOthers) := by decide +kernel
  exact ⟨h, nodesAll_inlines _ h⟩

end RichText

end DocExport
