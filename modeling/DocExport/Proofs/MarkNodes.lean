import DocExport.Proofs.Strands

/-!
# Coalescing aligned strands

Along a span of a mark every strand has the mark, and aligned neighbours that share a mark are
joined.  So coalescing brings each span together into one node, at whatever depth the mark
stands, and no node goes beyond its span.

* **Main results.** `Strand.InOrder` (what strands need), `RichText.NodesAreSpans.append` (spans
  of two rows of strands) and `RichText.nodesAreSpans_coalesceWithin` (coalescing makes one node
  of every span).
-/

namespace DocExport

namespace Strand

/-- Strands that can be coalesced down to some depth: neighbours are aligned and no strand has
a mark twice. -/
structure InOrder (levels : Nat) (ss : List Strand) : Prop where
  deep : ∀ s ∈ ss, s.marks.length < levels
  nodup : ∀ s ∈ ss, s.marks.Nodup
  aligned : ss.IsChain Aligned

theorem InOrder.left {levels : Nat} {ss ts : List Strand} (h : InOrder levels (ss ++ ts)) :
    InOrder levels ss :=
  ⟨fun s hs => h.deep s (List.mem_append_left _ hs),
    fun s hs => h.nodup s (List.mem_append_left _ hs), h.aligned.left_of_append⟩

theorem InOrder.right {levels : Nat} {ss ts : List Strand} (h : InOrder levels (ss ++ ts)) :
    InOrder levels ts :=
  ⟨fun s hs => h.deep s (List.mem_append_right _ hs),
    fun s hs => h.nodup s (List.mem_append_right _ hs), h.aligned.right_of_append⟩

/-- Without their common outermost mark strands are in order one level further down. -/
theorem InOrder.inner {levels : Nat} {ss : List Strand} {outer : Mark}
    (h : InOrder (levels + 1) ss) (hhead : ∀ s ∈ ss, s.marks.head? = some outer) :
    InOrder levels (ss.map inner) where
  deep := by
    intro s hs
    obtain ⟨t, ht, rfl⟩ := List.mem_map.1 hs
    have hdeep := h.deep t ht
    rw [Strand.marks_eq_cons (hhead t ht), List.length_cons] at hdeep
    exact Nat.lt_of_succ_lt_succ hdeep
  nodup := by
    intro s hs
    obtain ⟨t, ht, rfl⟩ := List.mem_map.1 hs
    exact (h.nodup t ht).tail
  aligned := by
    rw [List.isChain_map]
    refine h.aligned.imp_of_mem_imp ?_
    intro a b ha hb hab
    exact hab.inner ((hhead a ha).trans (hhead b hb).symm)

end Strand

namespace RichText

variable {mark : Mark} {runs : List Run} {i : Nat}

/-! ## Coalescing aligned strands -/

/-- Nodes that are spans, after one another, when no span goes on from the first strands into
the others. -/
theorem NodesAreSpans.append {ss ts : List Strand} {xs ys : List Inline}
    (hx : NodesAreSpans mark runs i ss xs) (hy : NodesAreSpans mark runs (i + ss.length) ts ys)
    (hat : Strand.StandAt runs i ss)
    (hglyphs : Inline.glyphsAll xs = ss.flatMap fun s => s.run.glyphs)
    (hcut : Cut (·.carries mark) ss ts) :
    NodesAreSpans mark runs i (ss ++ ts) (xs ++ ys) := by
  obtain ⟨before, hbefore, hnodes⟩ := hx
  obtain ⟨after, hafter, hnodes'⟩ := hy
  refine ⟨_, hbefore.append hafter hcut, ?_⟩
  rw [Inline.nodesAll_append, hglyphs, ← glyphCount_add hat, hnodes, hnodes', List.map_append,
    List.map_map]
  simp only [Function.comp_def, Stretch.shift_shift]

/-- A strand by itself. -/
theorem nodesAreSpans_single {s : Strand} (hnodup : s.marks.Nodup)
    (hat : Strand.StandAt runs i [s]) : NodesAreSpans mark runs i [s] [s.inline] := by
  have hall := located_all hat
  simp only [List.length_singleton, List.flatMap_cons, List.flatMap_nil, List.append_nil] at hall
  cases hs : s.carries mark with
  | true =>
    refine ⟨_, listsSpans_of_forall (List.cons_ne_nil _ _) (by simpa using hs), ?_⟩
    simp only [Inline.nodesAll, Strand.nodes_inline mark _ hnodup, hs, if_true, List.append_nil,
      List.map_cons, List.map_nil, List.length_singleton, hall]
  | false =>
    refine ⟨_, listsSpans_of_forall_not (by simpa using hs), ?_⟩
    simp [Inline.nodesAll, Strand.nodes_inline mark _ hnodup, hs]

/-- Leaves joined into one have no nodes, and no marks either. -/
theorem nodesAreSpans_leaves {s t : Strand} {rest : List Strand}
    (hchain : ((s :: t :: rest).map Strand.inline).IsChain fun a b =>
      Inline.belongTogether {} a b = true)
    (hbare : ∀ u ∈ s :: t :: rest, u.marks = []) (f : List Inline → List Inline) :
    NodesAreSpans mark runs i (s :: t :: rest)
      [(Inline.joined s.inline ((t :: rest).map Strand.inline)).mapChildren f] := by
  refine ⟨[], listsSpans_of_forall_not ?_, ?_⟩
  · intro u hu
    rw [Strand.carries, hbare u hu]
    rfl
  · have hkind := Inline.joinKind?_joined hchain
    have hsome : (s.inline.joinKind? {}).isSome = true := by
      have hfirst := (List.isChain_cons_cons.1 hchain).1
      rw [Inline.belongTogether, Bool.and_eq_true] at hfirst
      exact hfirst.1
    have hleaf : s.inline = s.run.leaf := Strand.inline_eq_leaf (hbare s (List.mem_cons_self ..))
    rw [Inline.nodesAll, Inline.nodesAll, List.append_nil, List.map_nil]
    apply Inline.nodes_mapChildren_of_joinKind?
    rw [hkind]
    rw [hleaf] at hsome ⊢
    rcases s.run.joinKind?_leaf {} with htext | hcode | hnone
    · exact Or.inl htext
    · exact Or.inr hcode
    · simp [hnone] at hsome

theorem glyphsAll_inline (ss : List Strand) :
    Inline.glyphsAll (ss.map Strand.inline) = ss.flatMap fun s => s.run.glyphs := by
  induction ss with
  | nil => rfl
  | cons s ss ih =>
    rw [List.map_cons, Inline.glyphsAll, Strand.glyphs_inline, ih, List.flatMap_cons]

/-- Strands joined under their common outermost mark, when what stands in that mark has been
coalesced. -/
theorem nodesAreSpans_wrapAll {r : Run} {outer : Mark} {ss : List Strand} {xs : List Inline}
    (hne : ss ≠ []) (hhead : ∀ s ∈ ss, s.marks.head? = some outer)
    (hnodup : ∀ s ∈ ss, s.marks.Nodup) (hat : Strand.StandAt runs i ss)
    (hglyphs : Inline.glyphsAll xs = ss.flatMap fun s => s.run.glyphs)
    (hinner : NodesAreSpans mark runs i (ss.map Strand.inner) xs) :
    NodesAreSpans mark runs i ss [r.wrapAll xs outer] := by
  have hmarks : ∀ s ∈ ss, s.marks = outer :: s.inner.marks :=
    fun s hs => Strand.marks_eq_cons (hhead s hs)
  obtain ⟨spans, hspans, hnodes⟩ := hinner
  by_cases hmark : mark = outer
  · subst hmark
    have hall : ∀ s ∈ ss, s.carries mark = true := by
      intro s hs
      rw [Strand.carries_iff, hmarks s hs]
      exact List.mem_cons_self ..
    have hnone : ∀ s ∈ ss.map Strand.inner, s.carries mark = false := by
      intro s hs
      obtain ⟨t, ht, rfl⟩ := List.mem_map.1 hs
      have hnd := hnodup t ht
      rw [hmarks t ht, List.nodup_cons] at hnd
      simpa [Strand.carries] using hnd.1
    rw [hspans.eq_nil hnone, List.map_nil] at hnodes
    refine ⟨_, listsSpans_of_forall hne hall, ?_⟩
    simp only [Inline.nodesAll, Run.nodes_wrapAll, if_true, hnodes, hglyphs, List.append_nil,
      List.map_cons, List.map_nil, located_all hat]
  · have hsame : ∀ s ∈ ss, s.inner.carries mark = s.carries mark := by
      intro s hs
      rw [Strand.carries, Strand.carries, hmarks s hs]
      simp [hmark]
    refine ⟨spans, hspans.congr (holdsAt_map Strand.inner hsame), ?_⟩
    simp only [Inline.nodesAll, Run.nodes_wrapAll, if_neg hmark, List.nil_append, List.append_nil,
      hnodes]

/-- Joining strands puts their common outermost mark around all that stands in it. -/
theorem combineWithin_inline {levels : Nat} {s : Strand} {rest : List Strand} {outer : Mark}
    (hhead : ∀ u ∈ s :: rest, u.marks.head? = some outer) :
    Inline.combineWithin {} levels s.inline (rest.map Strand.inline) =
      s.run.wrapAll (Inline.coalesceWithin {} levels
        (((s :: rest).map Strand.inner).map Strand.inline)) outer := by
  have hwrap : ∀ u ∈ s :: rest, u.inline = u.run.wrap u.inner.inline outer :=
    fun u hu => Strand.inline_eq_wrap (Strand.marks_eq_cons (hhead u hu))
  have hrest : rest.map Strand.inline =
      (rest.map fun u => (u.run, u.inner.inline)).map fun next => next.1.wrap next.2 outer := by
    rw [List.map_map]
    exact List.map_congr_left fun u hu => hwrap u (List.mem_cons_of_mem _ hu)
  rw [Inline.combineWithin, hrest, hwrap s (List.mem_cons_self ..), Run.wrap_eq_wrapAll,
    Run.joined_wrapAll, Run.mapChildren_wrapAll]
  simp only [List.map_cons, List.map_map, Function.comp_def, List.singleton_append]

/-- A group of strands that belong together, when coalescing keeps every span in one piece one
level further down. -/
theorem nodesAreSpans_group {levels : Nat} {g : Adjacent.Group Strand}
    (hinner : ∀ ss, Strand.InOrder levels ss → Strand.StandAt runs i ss →
      NodesAreSpans mark runs i ss (Inline.coalesceWithin {} levels (ss.map Strand.inline)))
    (hchain : g.toList.IsChain fun a b => Inline.belongTogether {} a.inline b.inline = true)
    (horder : Strand.InOrder (levels + 1) g.toList) (hat : Strand.StandAt runs i g.toList) :
    NodesAreSpans mark runs i g.toList
      [(g.map Strand.inline).collapse (Inline.combineWithin {} levels)] := by
  obtain ⟨s, rest⟩ := g
  cases rest with
  | nil => exact nodesAreSpans_single (horder.nodup s (List.mem_cons_self ..)) hat
  | cons t rest =>
    have hheads : ∀ u ∈ s :: t :: rest, u.marks.head? = s.marks.head? :=
      Adjacent.eq_head_of_isChain (hchain.imp fun _ _ h => Strand.head?_eq_of_belongTogether h)
    show NodesAreSpans mark runs i (s :: t :: rest)
      [Inline.combineWithin {} levels s.inline ((t :: rest).map Strand.inline)]
    cases hmarks : s.marks.head? with
    | none =>
      refine nodesAreSpans_leaves ((List.isChain_map _).2 hchain) (fun u hu => ?_) _
      exact List.head?_eq_none_iff.1 ((hheads u hu).trans hmarks)
    | some outer =>
      have hhead : ∀ u ∈ s :: t :: rest, u.marks.head? = some outer :=
        fun u hu => (hheads u hu).trans hmarks
      rw [combineWithin_inline hhead]
      refine nodesAreSpans_wrapAll (List.cons_ne_nil _ _) hhead horder.nodup hat ?_
        (hinner _ (horder.inner hhead) hat.inner)
      rw [Inline.glyphsAll_coalesceWithin, glyphsAll_inline, List.flatMap_map]
      rfl

/-- A mark does not go on from a strand into its neighbour when the two are not joined. -/
theorem carries_of_not_belongTogether {s t : Strand} (h : s.Aligned t)
    (hapart : Inline.belongTogether {} s.inline t.inline = false) (hs : s.carries mark = true) :
    t.carries mark = false := by
  rw [Bool.eq_false_iff]
  intro ht
  have := Strand.belongTogether_of_mem h (Strand.carries_iff.1 hs) (Strand.carries_iff.1 ht)
  rw [hapart] at this
  exact Bool.false_ne_true this

/-- Groups of strands after one another, when coalescing keeps every span in one piece one level
further down. -/
theorem nodesAreSpans_groups {levels : Nat} {gs : List (Adjacent.Group Strand)}
    (hinner : ∀ i ss, Strand.InOrder levels ss → Strand.StandAt runs i ss →
      NodesAreSpans mark runs i ss (Inline.coalesceWithin {} levels (ss.map Strand.inline)))
    (hinside : ∀ g ∈ gs, g.toList.IsChain fun a b =>
      Inline.belongTogether {} a.inline b.inline = true)
    (hacross : gs.IsChain fun g h =>
      Inline.belongTogether {} g.last.inline h.head.inline = false)
    (horder : Strand.InOrder (levels + 1) (gs.flatMap Adjacent.Group.toList))
    (hat : Strand.StandAt runs i (gs.flatMap Adjacent.Group.toList)) :
    NodesAreSpans mark runs i (gs.flatMap Adjacent.Group.toList)
      (gs.map fun g => (g.map Strand.inline).collapse (Inline.combineWithin {} levels)) := by
  induction gs generalizing i with
  | nil => exact ⟨[], listsSpans_of_forall_not (by simp), rfl⟩
  | cons g gs ih =>
    have hg := hinside g (List.mem_cons_self ..)
    have hhere : NodesAreSpans mark runs i g.toList
        [(g.map Strand.inline).collapse (Inline.combineWithin {} levels)] :=
      nodesAreSpans_group (hinner i) hg horder.left hat.left
    have hlater := ih (fun h hh => hinside h (List.mem_cons_of_mem _ hh)) hacross.tail
      horder.right hat.right
    refine NodesAreSpans.append hhere hlater hat.left ?_ ?_
    · have hchain : (g.map Strand.inline).toList.IsChain fun a b =>
          Inline.belongTogether {} a b = true := by
        rw [Adjacent.Group.toList_map]
        exact (List.isChain_map _).2 hg
      rw [Inline.glyphsAll, Inline.glyphsAll, List.append_nil, Inline.glyphs_collapse hchain,
        Adjacent.Group.toList_map, glyphsAll_inline]
    · intro s hs t ht
      have haligned := (List.isChain_append.1 horder.aligned).2.2 s hs t ht
      rw [Adjacent.Group.getLast?_toList, Option.mem_some_iff] at hs
      subst hs
      cases gs with
      | nil => simp at ht
      | cons h gs =>
        have hhead : t = h.head := by simpa [Adjacent.Group.toList, eq_comm] using ht
        subst hhead
        exact carries_of_not_belongTogether haligned (List.isChain_cons_cons.1 hacross).1

/-- Coalescing aligned strands makes one node for every span of a mark. -/
theorem nodesAreSpans_coalesceWithin (mark : Mark) (levels : Nat) (ss : List Strand) (i : Nat)
    (horder : Strand.InOrder levels ss) (hat : Strand.StandAt runs i ss) :
    NodesAreSpans mark runs i ss (Inline.coalesceWithin {} levels (ss.map Strand.inline)) := by
  induction levels generalizing ss i with
  | zero =>
    cases ss with
    | nil => exact ⟨[], listsSpans_of_forall_not (by simp), rfl⟩
    | cons s ss => exact absurd (horder.deep s (List.mem_cons_self ..)) (Nat.not_lt_zero _)
  | succ levels ih =>
    let together := fun a b : Strand => Inline.belongTogether {} a.inline b.inline
    have hwhole := Adjacent.flatMap_toList_groups together ss
    have hgroups : NodesAreSpans mark runs i
        ((Adjacent.groups together ss).flatMap Adjacent.Group.toList)
        ((Adjacent.groups together ss).map fun g =>
          (g.map Strand.inline).collapse (Inline.combineWithin {} levels)) :=
      nodesAreSpans_groups (fun i ss => ih ss i) (fun g hg => Adjacent.isChain_of_mem_groups hg)
        (Adjacent.isChain_groups together ss) (by rwa [hwhole]) (by rwa [hwhole])
    rw [hwhole] at hgroups
    rw [Inline.coalesceWithin_succ, Adjacent.groups_map, List.map_map]
    exact hgroups

end RichText

end DocExport
