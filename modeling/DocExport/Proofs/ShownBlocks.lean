import DocExport.Proofs.BlankLines
import DocExport.Proofs.ContainerLines
import DocExport.Proofs.LineStarts

/-!
# Blocks that show

Blocks are written one after the other with the block written last and its marker in mind: what
separates a block from that one, and which marker a list gets, depend on them.  A block that comes
to nothing changes neither.  It leaves no trace, wherever it stands, and what is written is made of
the blocks that show, joined by line feeds.

* **Main results.** `Node.write_eq_nil_iff` (which blocks come to nothing), `Node.flow_eq_flatMap`
  (what is written, block by block), `Node.isChain_shown` (each block follows from the one before
  it) and `Node.flow_filter_shows` (blocks that come to nothing can be left out).
-/

namespace DocExport

open Text

/-! ## Layouts that come to something -/

theorem Text.intercalate_ne_nil {sep w : List Char} (hw : w ≠ []) (ws : List (List Char)) :
    List.intercalate sep (w :: ws) ≠ [] := by
  cases ws <;> simp [hw]

/-- What shows of a text is on its lines. -/
theorem Text.allBlank_of_lines {cs : List Char} (h : ∀ line ∈ lines cs, allBlank line = true) :
    allBlank cs = true := by
  have hjoin : ∀ ps : List (List Char), (∀ p ∈ ps, allBlank p = true) →
      allBlank (join ps) = true := by
    intro ps hps
    induction ps with
    | nil => rfl
    | cons p ps ih =>
      obtain ⟨hp, hrest⟩ := List.forall_mem_cons.1 hps
      cases ps with
      | nil => exact hp
      | cons q qs =>
        have hfeed : allBlank ('\n' :: join (q :: qs)) = true := ih hrest
        rw [join, allBlank, List.all_append, Bool.and_eq_true]
        · exact ⟨hp, hfeed⟩
        · exact List.cons_ne_nil q qs
  have hreturn : ∀ p, allBlank (dropReturn p) = true → allBlank p = true := by
    intro p hp
    rw [dropReturn] at hp
    split at hp
    · rename_i hlast
      have hsplit : p.dropLast ++ ['\r'] = p := List.dropLast_append_getLast? _ hlast
      rw [← hsplit, allBlank, List.all_append, Bool.and_eq_true]
      exact ⟨hp, rfl⟩
    · exact hp
  rw [← join_pieces cs]
  refine hjoin _ fun p hp => ?_
  rw [← List.dropLast_append_getLast (pieces_ne_nil cs), List.mem_append, List.mem_singleton] at hp
  rw [lines, List.forall_mem_append] at h
  rcases hp with hended | rfl
  · exact hreturn p (h.1 _ (List.mem_map_of_mem hended))
  · have hlast : (pieces cs).getLastD [] = (pieces cs).getLast (pieces_ne_nil cs) := by
      rw [List.getLastD_eq_getLast?, List.getLast?_eq_some_getLast (pieces_ne_nil cs)]
      rfl
    have hrest := h.2
    rw [hlast] at hrest
    split at hrest
    · rename_i hempty
      rw [List.isEmpty_iff.1 hempty]
      rfl
    · exact hrest _ List.mem_cons_self

/-- Both bullets of a style show. -/
structure Style.BulletsShow (style : Style) : Prop where
  bullet : isBlank style.bullet = false
  bulletNext : isBlank style.bulletNext = false

namespace Layout

/-- A marker shows if the bullets do; a number shows anyway. -/
theorem allBlank_itemMarker {style : Style} (h : style.BulletsShow) (m : Marker) (ordered : Bool)
    (number : Nat) : allBlank (itemMarker style m ordered number) = false := by
  cases ordered with
  | true => exact allBlank_number _ _
  | false =>
    cases m with
    | primary => simp [itemMarker, Style.bulletFor, allBlank, h.bullet]
    | other => simp [itemMarker, Style.bulletFor, allBlank, h.bulletNext]

theorem quoted_ne_nil (content : List Char) : quoted content ≠ [] := by
  by_cases hcontent : content = []
  · simp [hcontent, quoted]
  · obtain ⟨line, rest, hlines⟩ := List.exists_cons_of_ne_nil (lines_ne_nil hcontent)
    rw [quoted, if_neg (by simpa using hcontent), hlines, List.map_cons]
    exact intercalate_ne_nil (quotedLine_ne_nil line) _

/-- A block of code comes to something. -/
theorem codeBlock_ne_nil (style : Style) (language : Option String) (code : List Char) :
    codeBlock style language code ≠ [] := by
  rw [codeBlock]
  split
  · rename_i hindented
    obtain ⟨-, -, hshows⟩ := hindented
    intro hnil
    have hfeed : ∀ line ∈ (lines code).map (hungLine 4), '\n' ∉ line :=
      List.forall_mem_map.2 fun line hline => not_mem_hungLine 4 (not_mem_of_mem_lines hline)
    have hne : (lines code).map (hungLine 4) ≠ [] := by
      simpa using lines_ne_nil fun hcode => hshows (by rw [hcode]; rfl)
    -- all lines are empty, for put together they are nothing
    have hpieces : (lines code).map (hungLine 4) = [[]] := by
      rw [← pieces_intercalate hne hfeed, ← indented, hnil]
      rfl
    refine hshows (allBlank_of_lines fun line hline => ?_)
    have hempty : hungLine 4 line = [] :=
      List.mem_singleton.1 (hpieces ▸ List.mem_map_of_mem hline)
    rw [hungLine] at hempty
    split at hempty
    · rename_i hline
      rw [List.isEmpty_iff.1 hline]
      rfl
    · simp at hempty
  · rw [fenced, fence]
    obtain ⟨n, hn⟩ : ∃ n, max (max style.fence.length (longestRun (fenceChar style) code + 1)) 3 =
        n + 1 := ⟨_, (Nat.succ_pred_eq_of_pos (by omega)).symm⟩
    rw [hn]
    simp [List.replicate_succ]

/-- A heading that shows comes to something. -/
theorem headingMarkdown_eq_nil {style : Style} {depth : Nat} {text : List Char} :
    Node.headingMarkdown style depth text = [] ↔ allBlank text = true := by
  rw [Node.headingMarkdown]
  split
  · rename_i hblank
    simp [hblank]
  · rename_i hshows
    split <;> simp [underlinedHeading, signedHeading, hshows]

end Layout

/-- A table comes to nothing if it has no cells. -/
theorem Grid.markdown_eq_nil {rows : List (List (List Char))} :
    Grid.markdown rows = [] ↔ ∀ row ∈ rows, row = [] := by
  have hcolumns : columns rows = 0 ↔ ∀ row ∈ rows, row = [] := by
    rw [columns, ← Nat.le_zero, foldl_max_le_iff]
    simp
  rw [markdown]
  split
  · rename_i hnone
    exact iff_of_true rfl (hcolumns.1 hnone)
  · rename_i hsome
    refine iff_of_false ?_ fun hall => hsome (hcolumns.2 hall)
    cases rows with
    | nil => exact absurd rfl hsome
    | cons header others => exact intercalate_ne_nil (by simp [row, line]) _

namespace Node

variable {style : Style} {slots : Slots} {tight : Bool}

/-! ## Blocks that come to nothing -/

/-- The blocks that come to nothing: text that does not show, lists without items, tables without
cells, documents of nothing else, and what stands for nothing in a style. -/
inductive ComesToNothing (style : Style) (slots : Slots) : Node → Prop where
  | root {children : List Node} (h : ∀ n ∈ children, ComesToNothing style slots n) :
      ComesToNothing style slots (.root children)
  | paragraph {content : List Inline}
      (h : allBlank (Inline.markdown style slots content) = true) :
      ComesToNothing style slots (.paragraph content)
  | heading {depth : Nat} {content : List Inline}
      (h : allBlank (Inline.markdown style slots content) = true) :
      ComesToNothing style slots (.heading depth content)
  | list {ordered spread : Bool} {start : Option Nat} :
      ComesToNothing style slots (.list ordered start spread [])
  | thematicBreak (h : style.rule = "") : ComesToNothing style slots .thematicBreak
  | table {rows : List (List (List Inline))} (h : ∀ cells ∈ rows, cells = []) :
      ComesToNothing style slots (.table rows)
  | tableRow : ComesToNothing style slots (.tableRow [])
  | tableCell {content : List Inline} (h : Inline.markdown style slots content = []) :
      ComesToNothing style slots (.tableCell content)
  | phrasing {inline : Inline} (h : inline.write style slots [] = []) :
      ComesToNothing style slots (.phrasing inline)

mutual

/-- If bullets show, these are the blocks that nothing is written for, with either marker. -/
theorem write_eq_nil_iff (h : style.BulletsShow) (m : Marker) :
    ∀ n : Node, write style slots m n = [] ↔ ComesToNothing style slots n
  | .root children => by
    rw [write, flow_eq_nil_iff h]
    exact ⟨.root, fun | .root hall => hall⟩
  | .paragraph content => by
    have hwritten : write style slots m (.paragraph content) = [] ↔
        allBlank (Inline.markdown style slots content) = true := by
      rw [write, paragraphMarkdown]
      split
      · rename_i hblank
        exact iff_of_true rfl hblank
      · rename_i hshows
        rw [Escape.lineStarts_eq_nil]
        exact ⟨fun hnil => by rw [hnil]; rfl, fun hblank => absurd hblank hshows⟩
    exact hwritten.trans ⟨.paragraph, fun | .paragraph hblank => hblank⟩
  | .heading depth content => by
    rw [write, Layout.headingMarkdown_eq_nil]
    exact ⟨.heading, fun | .heading hblank => hblank⟩
  | .blockquote children => by
    rw [write]
    exact iff_of_false (Layout.quoted_ne_nil _) nofun
  | .list ordered start spread [] => iff_of_true (by rw [write]; rfl) .list
  | .list ordered start spread (item :: items) => by
    rw [write, writeItems, writeItem]
    refine iff_of_false (intercalate_ne_nil ?_ _) nofun
    exact Layout.hung_ne_nil (Layout.allBlank_itemMarker h m ordered _) _ _
  | .listItem item => by
    rw [write, writeItem]
    exact iff_of_false (Layout.hung_ne_nil (Layout.allBlank_itemMarker h m _ _) _ _) nofun
  | .code language value => by
    rw [write]
    exact iff_of_false (Layout.codeBlock_ne_nil _ _ _) nofun
  | .thematicBreak => by
    rw [write, String.toList_eq_nil_iff]
    exact ⟨.thematicBreak, fun | .thematicBreak hrule => hrule⟩
  | .table rows => by
    rw [write, Grid.markdown_eq_nil]
    simp only [gridOf, List.forall_mem_map, List.map_eq_nil_iff]
    exact ⟨.table, fun | .table hall => hall⟩
  | .tableRow cells => by
    rw [write, Grid.markdown_eq_nil]
    simp only [gridOf, List.forall_mem_map, List.map_eq_nil_iff, List.mem_singleton, forall_eq]
    exact ⟨fun hcells => hcells ▸ .tableRow, fun | .tableRow => rfl⟩
  | .tableCell content => by
    rw [write, Escape.lineStarts_eq_nil]
    exact ⟨.tableCell, fun | .tableCell hnil => hnil⟩
  | .phrasing inline => by
    rw [write, Escape.lineStarts_eq_nil]
    exact ⟨.phrasing, fun | .phrasing hnil => hnil⟩

/-- Blocks one after another come to nothing if each of them does. -/
theorem flow_eq_nil_iff (h : style.BulletsShow) (tight : Bool)
    (previous : Option (Node × Marker)) : ∀ ns : List Node,
    flow style slots tight previous ns = [] ↔ ∀ n ∈ ns, ComesToNothing style slots n
  | [] => iff_of_true rfl nofun
  | n :: ns => by
    have hn := write_eq_nil_iff h (markerAfter previous n) n
    rw [List.forall_mem_cons, ← hn]
    by_cases hnil : write style slots (markerAfter previous n) n = []
    · rw [flow_cons_of_empty hnil, flow_eq_nil_iff h tight previous ns]
      exact (and_iff_right hnil).symm
    · rw [flow_cons_of_shown hnil]
      simp [hnil]

end

/-- Whether a block comes to something when it is written by itself. -/
def shows (style : Style) (slots : Slots) (n : Node) : Bool :=
  !(write style slots .primary n).isEmpty

theorem shows_eq_false_iff (h : style.BulletsShow) (m : Marker) (n : Node) :
    shows style slots n = false ↔ write style slots m n = [] := by
  rw [write_eq_nil_iff h m, ← write_eq_nil_iff h .primary, shows, Bool.not_eq_false',
    List.isEmpty_iff]

end Node

/-! ## Blocks that show -/

/-- A block that shows, as it is written among others. -/
structure Shown where
  /-- What separates it from the block before it. -/
  gap : List Char
  /-- The marker it has if it is a list. -/
  marker : Marker
  node : Node

namespace Shown

/-- The block as the next one finds it. -/
def block (s : Shown) : Node × Marker := (s.node, s.marker)

/-- What is written for the block. -/
def text (style : Style) (slots : Slots) (s : Shown) : List Char :=
  s.node.write style slots s.marker

/-- What separates a block from the one before it, and which marker it has, follow from that one. -/
structure Follows (style : Style) (tight : Bool) (previous : Option (Node × Marker))
    (s : Shown) : Prop where
  gap : s.gap = Node.separator style tight previous s.node
  marker : s.marker = Node.markerAfter previous s.node

end Shown

namespace Node

/-- The blocks that show, after the block written before them. -/
def shown (style : Style) (slots : Slots) (tight : Bool) (previous : Option (Node × Marker)) :
    List Node → List Shown
  | [] => []
  | n :: ns =>
      let m := markerAfter previous n
      if (n.write style slots m).isEmpty then shown style slots tight previous ns
      else
        ⟨separator style tight previous n, m, n⟩ :: shown style slots tight (some (n, m)) ns

variable {previous : Option (Node × Marker)} {n : Node} {ns : List Node}

theorem shown_cons_of_empty (h : n.write style slots (markerAfter previous n) = []) :
    shown style slots tight previous (n :: ns) = shown style slots tight previous ns := by
  simp [shown, h]

theorem shown_cons_of_shown (h : n.write style slots (markerAfter previous n) ≠ []) :
    shown style slots tight previous (n :: ns) =
      ⟨separator style tight previous n, markerAfter previous n, n⟩ ::
        shown style slots tight (some (n, markerAfter previous n)) ns := by
  rw [shown, if_neg (by simpa using h)]

/-- Blocks are written by writing those that show, each behind what separates it from the block
before it. -/
theorem flow_eq_flatMap (previous : Option (Node × Marker)) (ns : List Node) :
    flow style slots tight previous ns =
      (shown style slots tight previous ns).flatMap fun s => s.gap ++ s.text style slots := by
  induction previous, ns using flow_induction style slots with
  | nil => rfl
  | empty previous n ns hn ih => rw [flow_cons_of_empty hn, shown_cons_of_empty hn, ih]
  | shown previous n ns hn ih =>
    rw [flow_cons_of_shown hn, shown_cons_of_shown hn, ih, List.flatMap_cons]
    rfl

/-- Each block that shows is one of the blocks and comes to something. -/
theorem of_mem_shown {s : Shown} (h : s ∈ shown style slots tight previous ns) :
    s.node ∈ ns ∧ s.text style slots ≠ [] := by
  induction previous, ns using flow_induction style slots with
  | nil => exact absurd h List.not_mem_nil
  | empty previous n ns hn ih =>
    obtain ⟨hmem, htext⟩ := ih (shown_cons_of_empty hn ▸ h)
    exact ⟨List.mem_cons_of_mem n hmem, htext⟩
  | shown previous n ns hn ih =>
    rw [shown_cons_of_shown hn] at h
    rcases List.mem_cons.1 h with rfl | hlater
    · exact ⟨List.mem_cons_self, hn⟩
    · obtain ⟨hmem, htext⟩ := ih hlater
      exact ⟨List.mem_cons_of_mem n hmem, htext⟩

/-- The first block that shows follows from the block written before. -/
theorem follows_head?_shown {s : Shown} (h : s ∈ (shown style slots tight previous ns).head?) :
    s.Follows style tight previous := by
  induction previous, ns using flow_induction style slots with
  | nil => exact nomatch h
  | empty previous n ns hn ih => exact ih (shown_cons_of_empty hn ▸ h)
  | shown previous n ns hn =>
    rw [shown_cons_of_shown hn] at h
    obtain rfl := Option.some.inj h
    exact ⟨rfl, rfl⟩

/-- Every other block that shows follows from the one that shows before it. -/
theorem isChain_shown (previous : Option (Node × Marker)) (ns : List Node) :
    (shown style slots tight previous ns).IsChain fun s t =>
      t.Follows style tight (some s.block) := by
  induction previous, ns using flow_induction style slots with
  | nil => exact List.isChain_nil
  | empty previous n ns hn ih =>
    rw [shown_cons_of_empty hn]
    exact ih
  | shown previous n ns hn ih =>
    rw [shown_cons_of_shown hn, List.isChain_cons]
    exact ⟨fun t ht => follows_head?_shown ht, ih⟩

/-- The blocks that show are those that come to something by themselves. -/
theorem map_node_shown (h : style.BulletsShow) (previous : Option (Node × Marker))
    (ns : List Node) :
    (shown style slots tight previous ns).map Shown.node = ns.filter (shows style slots) := by
  induction previous, ns using flow_induction style slots with
  | nil => rfl
  | empty previous n ns hn ih =>
    have hshows : shows style slots n = false := (shows_eq_false_iff h _ n).2 hn
    rw [shown_cons_of_empty hn, List.filter_cons_of_neg (by simp [hshows]), ih]
  | shown previous n ns hn ih =>
    have hshows : ¬ shows style slots n = false := mt (shows_eq_false_iff h _ n).1 hn
    rw [shown_cons_of_shown hn, List.filter_cons_of_pos (by simpa using hshows), List.map_cons, ih]

/-- Blocks that come to nothing can be left out. -/
theorem shown_filter_shows (h : style.BulletsShow) (previous : Option (Node × Marker))
    (ns : List Node) :
    shown style slots tight previous (ns.filter (shows style slots)) =
      shown style slots tight previous ns := by
  induction previous, ns using flow_induction style slots with
  | nil => rfl
  | empty previous n ns hn ih =>
    have hshows : shows style slots n = false := (shows_eq_false_iff h _ n).2 hn
    rw [shown_cons_of_empty hn, List.filter_cons_of_neg (by simp [hshows]), ih]
  | shown previous n ns hn ih =>
    have hshows : ¬ shows style slots n = false := mt (shows_eq_false_iff h _ n).1 hn
    rw [List.filter_cons_of_pos (by simpa using hshows), shown_cons_of_shown hn,
      shown_cons_of_shown hn, ih]

/-! ## What is written for a list of blocks -/

/-- What is written for some blocks: one after the other, joined by line feeds. -/
structure Joined (style : Style) (slots : Slots) (written : List Char) (blocks : List Shown) :
    Prop where
  text : written = blocks.flatMap fun s => s.gap ++ s.text style slots
  /-- Each of them is something. -/
  shows : ∀ s ∈ blocks, s.text style slots ≠ []
  /-- Nothing is written before the first. -/
  first : ∀ s ∈ blocks.head?, s.gap = []
  /-- One or two line feeds are written between any two. -/
  between : ∀ s ∈ blocks.tail, s.gap = ['\n'] ∨ s.gap = ['\n', '\n']

theorem separator_some (style : Style) (tight : Bool) (previous : Node × Marker) (next : Node) :
    separator style tight (some previous) next = ['\n'] ∨
      separator style tight (some previous) next = ['\n', '\n'] := by
  rw [separator]
  split
  · exact .inr rfl
  · exact .inl rfl

/-- What is written for blocks is what is written for those that show. -/
theorem joined_flow (style : Style) (slots : Slots) (tight : Bool) (ns : List Node) :
    Joined style slots (flow style slots tight none ns) (shown style slots tight none ns) where
  text := flow_eq_flatMap none ns
  shows _ hs := (of_mem_shown hs).2
  first s hs := (follows_head?_shown hs).gap
  between t ht := by
    obtain ⟨k, hk⟩ := List.mem_iff_getElem?.1 ht
    rw [List.getElem?_tail] at hk
    obtain ⟨hlt, rfl⟩ := List.getElem?_eq_some_iff.1 hk
    have hchain :=
      List.isChain_iff_getElem.1 (@isChain_shown style slots tight none ns) k hlt
    rw [hchain.gap]
    exact separator_some style tight _ _

/-- **Blocks that come to nothing are invisible.**  If they are left out, the others are written as
before, with the same markers and with the same line feeds between them.  What is written are the
blocks that come to something, in order, with one or two line feeds between any two. -/
theorem flow_filter_shows (h : style.BulletsShow) (slots : Slots) (tight : Bool)
    (siblings : List Node) :
    flow style slots tight none (siblings.filter (shows style slots)) =
      flow style slots tight none siblings ∧
    shown style slots tight none (siblings.filter (shows style slots)) =
      shown style slots tight none siblings ∧
    (shown style slots tight none siblings).map Shown.node =
      siblings.filter (shows style slots) ∧
    Joined style slots (flow style slots tight none siblings)
      (shown style slots tight none siblings) ∧
    ∀ n, shows style slots n = false ↔ ComesToNothing style slots n := by
  have hshown : shown style slots tight none (siblings.filter (shows style slots)) =
      shown style slots tight none siblings := shown_filter_shows h none siblings
  refine ⟨?_, hshown, map_node_shown h none siblings, joined_flow style slots tight siblings,
    fun n => ?_⟩
  · rw [flow_eq_flatMap, hshown, ← flow_eq_flatMap]
  · rw [shows_eq_false_iff h .primary, write_eq_nil_iff h]

/-- Lists and paragraphs with blocks among them that come to nothing. -/
def blocksWithGaps : List Node := [
  .root [.paragraph []],
  .list false none false [{ children := [] }],
  .heading 1 [.text " \n"],
  .list false none false [],
  .list false none false [{ checked := some true, children := [] }],
  .paragraph [.text "a"],
  .table [[], []],
  .phrasing (.emphasis []),
  .paragraph [.text "b"],
  .tableCell []]

/-- Four of the blocks show. -/
theorem flow_filter_blocksWithGaps :
    Style.BulletsShow {} ∧
    flow {} {} true none blocksWithGaps = "*\n- [x]\na\n\nb".toList ∧
    flow {} {} true none (blocksWithGaps.filter (shows {} {})) =
      flow {} {} true none blocksWithGaps ∧
    (shown {} {} true none blocksWithGaps).map Shown.node = [
      .list false none false [{ children := [] }],
      .list false none false [{ checked := some true, children := [] }],
      .paragraph [.text "a"],
      .paragraph [.text "b"]] ∧
    Joined {} {} (flow {} {} true none blocksWithGaps) (shown {} {} true none blocksWithGaps) := by
  have hbullets : Style.BulletsShow {} := ⟨by decide, by decide⟩
  obtain ⟨hflow, -, hnodes, hjoined, -⟩ := flow_filter_shows hbullets {} true blocksWithGaps
  exact ⟨hbullets, by decide, hflow, hnodes, hjoined⟩

end Node

end DocExport
