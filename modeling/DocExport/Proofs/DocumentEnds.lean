import DocExport.Document.OfBlock
import DocExport.Proofs.ShownBlocks

/-!
# Ends of documents

A document is meant to end with a single line feed.  A block by itself gets it in the place of all
the line feeds that the block ends in; a whole document gets one more behind whatever its last
block ends in.  The two come to the same as long as that is no line feed, and there are only a few
blocks that it can be.

* **Main results.** `Layout.getLast?_hung_iff` and its like (which layouts end in a line feed),
  `Node.getLast?_write_iff` (which blocks do) and `Node.documentMarkdown_agrees_iff` (which
  documents end with a single line feed).
-/

namespace DocExport

/-! ## Ends of texts -/

namespace Text

/-- A text is empty or ends with exactly one line feed. -/
def EndedOnce (cs : List Char) : Prop :=
  cs = [] ∨ ∃ front, cs = front ++ ['\n'] ∧ front.getLast? ≠ some '\n'

/-- A text ends in an empty line: before its last line feed another ends the line before, with
nothing but a carriage return between the two. -/
def EndsInEmptyLine (cs : List Char) : Prop :=
  ∃ front line, cs = front ++ '\n' :: line ++ ['\n'] ∧ (line = [] ∨ line = ['\r'])

/-- A text with a line feed behind it, if there is anything to end. -/
def ended (cs : List Char) : List Char := if cs.isEmpty then [] else cs ++ ['\n']

theorem ended_inj {cs ds : List Char} : ended cs = ended ds ↔ cs = ds := by
  refine ⟨fun h => ?_, congrArg ended⟩
  by_cases hcs : cs = [] <;> by_cases hds : ds = [] <;> simp [ended, hcs, hds] at h
  · rw [hcs, hds]
  · exact h

/-- A text is ended with exactly one line feed if it does not end in one before. -/
theorem endedOnce_ended {cs : List Char} : EndedOnce (ended cs) ↔ cs.getLast? ≠ some '\n' := by
  by_cases hcs : cs = []
  · simp [hcs, ended, EndedOnce]
  · rw [ended, if_neg (by simpa using hcs), EndedOnce]
    constructor
    · rintro (hnil | ⟨front, heq, hfront⟩)
      · simp at hnil
      · rwa [List.append_cancel_right heq]
    · exact fun hlast => .inr ⟨cs, rfl, hlast⟩

theorem dropFinalBreaks_eq_self {cs : List Char} :
    dropFinalBreaks cs = cs ↔ cs.getLast? ≠ some '\n' := by
  rw [dropFinalBreaks_eq]
  refine ⟨fun h => ?_, dropEnd_eq_self⟩
  rw [← h]
  exact getLast?_dropEnd_ne '\n' cs

theorem getLast?_ne_of_not_mem {p : List Char} (h : '\n' ∉ p) : p.getLast? ≠ some '\n' :=
  fun hlast => h (List.mem_of_getLast? hlast)

theorem getLast?_trimEnd_ne (cs : List Char) : (trimEnd cs).getLast? ≠ some '\n' := by
  intro hlast
  have hnot := List.head?_dropWhile_not isBlank cs.reverse
  rw [trimEnd, List.getLast?_reverse] at hlast
  rw [hlast] at hnot
  exact Bool.false_ne_true (hnot.symm.trans rfl)

/-- Behind other texts and the line feeds that separate it from them, a text ends in a line feed if
it does so by itself or is empty. -/
theorem getLast?_intercalate_concat {sep : List Char} (hsep : sep.getLast? = some '\n')
    {front : List (List Char)} (hfront : front ≠ []) (last : List Char) :
    (List.intercalate sep (front ++ [last])).getLast? = some '\n' ↔
      last.getLast? = some '\n' ∨ last = [] := by
  obtain ⟨first, others, rfl⟩ := List.exists_cons_of_ne_nil hfront
  rw [List.cons_append, intercalate_cons, List.flatMap_append, List.flatMap_singleton,
    List.getLast?_append, List.getLast?_append, List.getLast?_append, hsep]
  cases hend : last.getLast? with
  | none => simp [List.getLast?_eq_none_iff.1 hend]
  | some c =>
    have hne : last ≠ [] := fun hnil => by simp [hnil] at hend
    simp [hne]

/-- Lines that do not end in line feeds do so put together if an empty one comes last behind
others. -/
theorem getLast?_intercalate_iff {ps : List (List Char)} (h : ∀ p ∈ ps, p.getLast? ≠ some '\n') :
    (List.intercalate ['\n'] ps).getLast? = some '\n' ↔ ps.tail.getLast? = some [] := by
  cases ps with
  | nil => simp
  | cons first others =>
    rw [List.tail_cons]
    rcases List.eq_nil_or_concat others with rfl | ⟨front, last, rfl⟩
    · simpa using h first List.mem_cons_self
    · have hlast : last.getLast? ≠ some '\n' := h last (by simp)
      rw [List.concat_eq_append, ← List.cons_append,
        getLast?_intercalate_concat rfl (List.cons_ne_nil first front), List.getLast?_concat,
        Option.some.injEq, or_iff_right hlast]

theorem exists_last_break {cs : List Char} (h : '\n' ∈ cs) :
    ∃ front back, cs = front ++ '\n' :: back ∧ '\n' ∉ back := by
  obtain ⟨back, front, hsplit, hback⟩ := List.eq_append_cons_of_mem (List.mem_reverse.2 h)
  refine ⟨front.reverse, back.reverse, ?_, by simpa using hback⟩
  rw [← List.reverse_reverse cs, hsplit]
  simp

theorem lines_of_last_break (front : List Char) {back : List Char} (h : '\n' ∉ back) :
    lines (front ++ '\n' :: back) =
      (pieces front).map dropReturn ++ if back.isEmpty then [] else [back] := by
  rw [lines, pieces_append_break, pieces_of_not_mem h]
  simp

/-- A line comes to nothing without its carriage return if it is no more than that. -/
theorem dropReturn_eq_nil {p : List Char} : dropReturn p = [] ↔ p = [] ∨ p = ['\r'] := by
  rw [dropReturn]
  split
  · rename_i hlast
    have hsplit : p.dropLast ++ ['\r'] = p := List.dropLast_append_getLast? _ hlast
    constructor
    · intro hnil
      rw [hnil] at hsplit
      exact .inr hsplit.symm
    · rintro (rfl | rfl) <;> rfl
  · rename_i hlast
    constructor
    · exact .inl
    · rintro (hnil | rfl)
      · exact hnil
      · exact absurd rfl hlast

/-- The last line of a text is empty, and not its only one, if the text ends in an empty line. -/
theorem getLast?_tail_lines {cs : List Char} :
    (lines cs).tail.getLast? = some [] ↔ EndsInEmptyLine cs := by
  have hended : ∀ {front line : List Char}, '\n' ∉ line →
      (lines (front ++ '\n' :: line ++ ['\n'])).tail.getLast? = some (dropReturn line) := by
    intro front line hline
    rw [lines_of_last_break _ List.not_mem_nil, pieces_append_break, pieces_of_not_mem hline]
    simp [pieces_ne_nil]
  constructor
  · intro hlast
    -- there are two lines at least, and so two line feeds to cut the text at
    by_cases hbreak : '\n' ∈ cs
    · obtain ⟨front, back, rfl, hback⟩ := exists_last_break hbreak
      have hlines := lines_of_last_break front hback
      cases back with
      | cons c back =>
        rw [hlines, List.tail_append_of_ne_nil (by simpa using pieces_ne_nil front)] at hlast
        simp at hlast
      | nil =>
        by_cases hfront : '\n' ∈ front
        · obtain ⟨before, line, rfl, hline⟩ := exists_last_break hfront
          rw [hended hline, Option.some.injEq, dropReturn_eq_nil] at hlast
          exact ⟨before, line, rfl, hlast⟩
        · rw [hlines, pieces_of_not_mem hfront] at hlast
          simp at hlast
    · rw [lines, pieces_of_not_mem hbreak] at hlast
      by_cases hcs : cs = [] <;> simp [hcs] at hlast
  · rintro ⟨front, line, rfl, hline⟩
    rw [hended, dropReturn_eq_nil.2 hline]
    rcases hline with rfl | rfl <;> decide

end Text

open Text

/-! ## Ends of layouts -/

namespace Layout

/-- A line that is moved to the right is empty only if it was. -/
theorem hungLine_eq_nil {width : Nat} {line : List Char} :
    hungLine width line = [] ↔ line = [] := by
  rw [hungLine]
  split
  · rename_i hempty
    exact iff_of_true rfl (List.isEmpty_iff.1 hempty)
  · rename_i hline
    have hne : line ≠ [] := by simpa using hline
    simp [hne]

theorem getLast?_map_hungLine {width : Nat} {ls : List (List Char)} :
    (ls.map (hungLine width)).getLast? = some [] ↔ ls.getLast? = some [] := by
  simp [List.getLast?_map, Option.map_eq_some_iff, hungLine_eq_nil]

/-- A quotation does not end in a line feed. -/
theorem getLast?_quoted_ne (content : List Char) : (quoted content).getLast? ≠ some '\n' := by
  by_cases hcontent : content = []
  · simp [hcontent, quoted]
  · have hfeed : ∀ p ∈ (lines content).map quotedLine, p.getLast? ≠ some '\n' :=
      List.forall_mem_map.2 fun line hline =>
        getLast?_ne_of_not_mem (not_mem_quotedLine (not_mem_of_mem_lines hline))
    rw [quoted, if_neg (by simpa using hcontent), ne_eq, getLast?_intercalate_iff hfeed]
    intro hlast
    obtain ⟨line, -, hline⟩ :=
      List.mem_map.1 (List.mem_of_mem_tail (List.mem_of_getLast? hlast))
    exact quotedLine_ne_nil line hline

/-- Content hung under a marker ends in a line feed if the content ends in an empty line. -/
theorem getLast?_hung_iff (marker box content : List Char) :
    (hung marker box content).getLast? = some '\n' ↔ EndsInEmptyLine content := by
  rw [← intercalate_itemLines, getLast?_intercalate_iff]
  · exact getLast?_map_hungLine.trans getLast?_tail_lines
  · rw [Adjacent.Group.toList, List.forall_mem_cons]
    refine ⟨getLast?_trimEnd_ne _, List.forall_mem_map.2 fun line hline => ?_⟩
    exact getLast?_ne_of_not_mem
      (not_mem_hungLine _ (not_mem_of_mem_lines (List.mem_of_mem_tail hline)))

theorem getLast?_indented_iff (code : List Char) :
    (indented code).getLast? = some '\n' ↔ EndsInEmptyLine code := by
  rw [indented, getLast?_intercalate_iff, ← List.map_tail]
  · exact getLast?_map_hungLine.trans getLast?_tail_lines
  · exact List.forall_mem_map.2 fun line hline =>
      getLast?_ne_of_not_mem (not_mem_hungLine 4 (not_mem_of_mem_lines hline))

theorem getLast?_fenced (style : Style) (language : Option String) (code : List Char) :
    (fenced style language code).getLast? = some (fenceChar style) := by
  rw [fenced, List.getLast?_append, fence, List.getLast?_replicate, if_neg (by omega)]
  rfl

/-- A heading does not end in a line feed. -/
theorem getLast?_headingMarkdown_ne (style : Style) (depth : Nat) (text : List Char) :
    (Node.headingMarkdown style depth text).getLast? ≠ some '\n' := by
  rw [Node.headingMarkdown]
  split
  · simp
  · rename_i hshows
    split
    · have hne : Escape.lineStarts text ≠ [] := by
        rw [ne_eq, Escape.lineStarts_eq_nil]
        rintro rfl
        exact hshows rfl
      rw [underlinedHeading, List.getLast?_append, List.getLast?_cons, List.getLast?_replicate,
        if_neg (by simpa using hne)]
      split <;> simp
    -- if the heading were trimmed to nothing, the space behind its signs would be the end
    · have htrimmed := getLast?_trimEnd_ne (trimStart (replace '\n' [' '] text))
      rw [signedHeading, List.getLast?_append, List.getLast?_cons, trim]
      cases hend : (trimEnd (trimStart (replace '\n' [' '] text))).getLast? with
      | none => simp
      | some c =>
        rw [hend] at htrimmed
        simpa using htrimmed

end Layout

/-- A table does not end in a line feed. -/
theorem Grid.getLast?_markdown_ne (rows : List (List (List Char))) :
    (markdown rows).getLast? ≠ some '\n' := by
  have hline : ∀ cells, (line cells).getLast? = some '|' := by
    intro cells
    rcases List.eq_nil_or_concat cells with rfl | ⟨front, last, rfl⟩
    · rfl
    · simp [line, List.getLast?_cons]
  have hlines : ∀ p ∈ lines rows, p.getLast? = some '|' := by
    cases rows with
    | nil => simp [lines]
    | cons header others =>
      rw [lines, List.forall_mem_cons, List.forall_mem_cons, List.forall_mem_map]
      exact ⟨hline _, hline _, fun _ _ => hline _⟩
  rw [markdown]
  split
  · simp
  · rw [ne_eq, getLast?_intercalate_iff fun p hp => by rw [hlines p hp]; decide]
    intro hlast
    simpa using hlines [] (List.mem_of_mem_tail (List.mem_of_getLast? hlast))

namespace Node

variable {style : Style} {slots : Slots} {tight : Bool} {m : Marker}

/-! ## Ends of blocks -/

/-- Blocks end as the last of them that shows. -/
theorem getLast?_flow (style : Style) (slots : Slots) (tight : Bool) (ns : List Node) :
    (flow style slots tight none ns).getLast? =
      (shown style slots tight none ns).getLast?.bind fun s => (s.text style slots).getLast? := by
  rw [flow_eq_flatMap]
  rcases List.eq_nil_or_concat (shown style slots tight none ns) with hnone | ⟨front, last, hsplit⟩
  · rw [hnone]
    rfl
  · have hlast : last ∈ shown style slots tight none ns := by
      rw [hsplit]
      simp
    obtain ⟨-, hshows⟩ := of_mem_shown hlast
    obtain ⟨c, hc⟩ := Option.ne_none_iff_exists'.1 (mt List.getLast?_eq_none_iff.1 hshows)
    rw [hsplit, List.concat_eq_append, List.flatMap_append, List.flatMap_singleton,
      List.getLast?_append, List.getLast?_append, List.getLast?_concat, Option.bind_some, hc]
    rfl

/-- An item ends in a line feed: what stands in it ends in an empty line. -/
def ItemEndsInBreak (style : Style) (slots : Slots) (item : ListItem Node) : Prop :=
  EndsInEmptyLine (flow style slots (!item.spread) none item.children)

/-- The blocks that are written with a line feed at their end. -/
inductive EndsInBreak (style : Style) (slots : Slots) : Marker → Node → Prop where
  /-- Of blocks one after another, the last that shows does. -/
  | root {m : Marker} {children : List Node} {last : Shown}
      (hlast : last ∈ (shown style slots false none children).getLast?)
      (h : EndsInBreak style slots last.marker last.node) :
      EndsInBreak style slots m (.root children)
  | paragraph {m : Marker} {content : List Inline}
      (hshows : allBlank (Inline.markdown style slots content) = false)
      (h : (Inline.markdown style slots content).getLast? = some '\n') :
      EndsInBreak style slots m (.paragraph content)
  | tableCell {m : Marker} {content : List Inline}
      (h : (Inline.markdown style slots content).getLast? = some '\n') :
      EndsInBreak style slots m (.tableCell content)
  | phrasing {m : Marker} {inline : Inline}
      (h : (inline.write style slots []).getLast? = some '\n') :
      EndsInBreak style slots m (.phrasing inline)
  | thematicBreak {m : Marker} (h : style.rule.toList.getLast? = some '\n') :
      EndsInBreak style slots m .thematicBreak
  | indentedCode {m : Marker} {language : Option String} {value : String}
      (hindented : (code language value).IsIndentedCode style) (h : EndsInEmptyLine value.toList) :
      EndsInBreak style slots m (.code language value)
  /-- The fences are rows of line feeds. -/
  | fencedCode {m : Marker} {language : Option String} {value : String}
      (hfenced : ¬ (code language value).IsIndentedCode style)
      (h : Layout.fenceChar style = '\n') : EndsInBreak style slots m (.code language value)
  | listItem {m : Marker} {item : ListItem Node} (h : ItemEndsInBreak style slots item) :
      EndsInBreak style slots m (.listItem item)
  | list {m : Marker} {ordered spread : Bool} {start : Option Nat} {items : List (ListItem Node)}
      {last : ListItem Node} (hlast : last ∈ items.getLast?)
      (h : ItemEndsInBreak style slots last) :
      EndsInBreak style slots m (.list ordered start spread items)
  /-- The last of several items comes to nothing, for which the bullet has to be blank. -/
  | emptyItem {m : Marker} {spread : Bool} {start : Option Nat} {items : List (ListItem Node)}
      {last : ListItem Node} (hlast : last ∈ items.getLast?) (hmany : 2 ≤ items.length)
      (h : writeItem style slots [style.bulletFor m] last = []) :
      EndsInBreak style slots m (.list false start spread items)

/-- The last item of a list is written behind the others. -/
theorem writeItems_concat (ordered : Bool) (number : Nat) (front : List (ListItem Node))
    (last : ListItem Node) :
    writeItems style slots m ordered number (front ++ [last]) =
      writeItems style slots m ordered number front ++
        [writeItem style slots (Layout.itemMarker style m ordered (number + front.length))
          last] := by
  induction front generalizing number with
  | nil => simp [writeItems]
  | cons item front ih =>
    rw [List.cons_append, writeItems, ih, writeItems, List.cons_append, List.length_cons,
      Nat.add_assoc, Nat.add_comm 1]

theorem getLast?_writeItem_iff (marker : List Char) (item : ListItem Node) :
    (writeItem style slots marker item).getLast? = some '\n' ↔
      ItemEndsInBreak style slots item := by
  rw [writeItem, Layout.getLast?_hung_iff, ItemEndsInBreak]

/-- A list ends in a line feed if its last item does, or comes to nothing behind another. -/
theorem getLast?_write_list_iff {ordered spread : Bool} {start : Option Nat}
    {items : List (ListItem Node)} {last : ListItem Node} (hlast : last ∈ items.getLast?) :
    (write style slots m (.list ordered start spread items)).getLast? = some '\n' ↔
      ItemEndsInBreak style slots last ∨
        2 ≤ items.length ∧ ordered = false ∧
          writeItem style slots [style.bulletFor m] last = [] := by
  obtain ⟨front, rfl⟩ : ∃ front, items = front ++ [last] :=
    ⟨_, (List.dropLast_append_getLast? _ hlast).symm⟩
  rw [write, writeItems_concat]
  by_cases hfront : front = []
  · rw [hfront, writeItems, List.nil_append, List.intercalate_singleton, getLast?_writeItem_iff]
    simp
  · have hmany : 2 ≤ (front ++ [last]).length := by
      have := List.length_pos_iff.2 hfront
      simp
      omega
    have hothers : writeItems style slots m ordered (start.getD 1) front ≠ [] := by
      cases front with
      | nil => exact absurd rfl hfront
      | cons item front => simp [writeItems]
    have hempty : writeItem style slots
          (Layout.itemMarker style m ordered (start.getD 1 + front.length)) last = [] ↔
        ordered = false ∧ writeItem style slots [style.bulletFor m] last = [] := by
      cases ordered with
      -- a number shows whatever follows it, so that only a bullet can be trimmed away
      | true =>
        rw [writeItem, Layout.itemMarker, if_pos rfl]
        exact iff_of_false (Layout.hung_ne_nil (Layout.allBlank_number _ _) _ _) (by simp)
      | false => exact (and_iff_right rfl).symm
    rw [getLast?_intercalate_concat (by split <;> rfl) hothers, getLast?_writeItem_iff, hempty,
      and_iff_right hmany]

mutual

/-- These are the blocks that are written with a line feed at their end.  Every line of a quotation
has its mark, and of what stands in an item only an empty last line matters. -/
theorem getLast?_write_iff (m : Marker) : ∀ n : Node,
    (write style slots m n).getLast? = some '\n' ↔ EndsInBreak style slots m n
  | .root children => by
    have hchildren := getLast?_write_iff_of_mem children
    rw [write, getLast?_flow, Option.bind_eq_some_iff]
    constructor
    · rintro ⟨last, hlast, hend⟩
      obtain ⟨hmem, -⟩ := of_mem_shown (List.mem_of_getLast? hlast)
      exact .root hlast ((hchildren _ hmem _).1 hend)
    · rintro (⟨hlast, hend⟩)
      obtain ⟨hmem, -⟩ := of_mem_shown (List.mem_of_getLast? hlast)
      exact ⟨_, hlast, (hchildren _ hmem _).2 hend⟩
  | .paragraph content => by
    rw [write, paragraphMarkdown]
    split
    · rename_i hblank
      refine iff_of_false (by simp) ?_
      rintro (_ | ⟨hshows, -⟩)
      exact Bool.false_ne_true (hshows.symm.trans hblank)
    · rename_i hshows
      rw [Escape.getLast?_lineStarts]
      exact ⟨.paragraph (Bool.eq_false_iff.2 hshows), fun | .paragraph _ hend => hend⟩
  | .heading depth content => by
    rw [write]
    exact iff_of_false (Layout.getLast?_headingMarkdown_ne _ _ _) nofun
  | .blockquote children => by
    rw [write]
    exact iff_of_false (Layout.getLast?_quoted_ne _) nofun
  | .list ordered start spread items => by
    cases hitems : items.getLast? with
    | none =>
      rw [List.getLast?_eq_none_iff.1 hitems, write, writeItems]
      refine iff_of_false (by simp) ?_
      rintro (_ | _ | _) <;> contradiction
    | some last =>
      rw [getLast?_write_list_iff hitems]
      constructor
      · rintro (hend | ⟨hmany, rfl, hend⟩)
        · exact .list hitems hend
        · exact .emptyItem hitems hmany hend
      · intro h
        cases h with
        | list hlast hend => exact .inl (Option.some.inj (hitems.symm.trans hlast) ▸ hend)
        | emptyItem hlast hmany hend =>
          exact .inr ⟨hmany, rfl, Option.some.inj (hitems.symm.trans hlast) ▸ hend⟩
  | .listItem item => by
    rw [write, getLast?_writeItem_iff]
    exact ⟨.listItem, fun | .listItem hend => hend⟩
  | .code language value => by
    rw [write, Layout.codeBlock]
    split
    · rename_i hindented
      rw [Layout.getLast?_indented_iff]
      exact ⟨.indentedCode hindented,
        fun | .indentedCode _ hend => hend | .fencedCode hfenced _ => absurd hindented hfenced⟩
    · rename_i hfenced
      rw [Layout.getLast?_fenced, Option.some.injEq]
      exact ⟨.fencedCode hfenced,
        fun | .fencedCode _ hend => hend | .indentedCode hindented _ => absurd hindented hfenced⟩
  | .thematicBreak => by
    rw [write]
    exact ⟨.thematicBreak, fun | .thematicBreak hend => hend⟩
  | .table rows => by
    rw [write]
    exact iff_of_false (Grid.getLast?_markdown_ne _) nofun
  | .tableRow cells => by
    rw [write]
    exact iff_of_false (Grid.getLast?_markdown_ne _) nofun
  | .tableCell content => by
    rw [write, Escape.getLast?_lineStarts]
    exact ⟨.tableCell, fun | .tableCell hend => hend⟩
  | .phrasing inline => by
    rw [write, Escape.getLast?_lineStarts]
    exact ⟨.phrasing, fun | .phrasing hend => hend⟩

theorem getLast?_write_iff_of_mem : ∀ ns : List Node, ∀ n ∈ ns, ∀ m : Marker,
    (write style slots m n).getLast? = some '\n' ↔ EndsInBreak style slots m n
  | [] => nofun
  | n :: ns =>
    List.forall_mem_cons.2 ⟨fun m => getLast?_write_iff m n, getLast?_write_iff_of_mem ns⟩

end

/-! ## Ends of documents -/

theorem markdown_eq_ended (style : Style) (slots : Slots) (n : Node) :
    markdown style slots n =
      String.ofList (ended (dropFinalBreaks (write style slots .primary n))) := rfl

theorem documentMarkdown_eq_ended (style : Style) (slots : Slots) (children : List Node) :
    documentMarkdown style slots children =
      String.ofList (ended (flow style slots false none children)) := rfl

theorem endedOnce_markdown (style : Style) (slots : Slots) (n : Node) :
    EndedOnce (markdown style slots n).toList := by
  rw [markdown_eq_ended, String.toList_ofList, endedOnce_ended, dropFinalBreaks_eq]
  exact getLast?_dropEnd_ne '\n' _

theorem getLast?_flow_iff (style : Style) (slots : Slots) (children : List Node) :
    (flow style slots false none children).getLast? = some '\n' ↔
      EndsInBreak style slots .primary (.root children) := by
  rw [← getLast?_write_iff, write]

theorem endedOnce_documentMarkdown_iff (style : Style) (slots : Slots) (children : List Node) :
    EndedOnce (documentMarkdown style slots children).toList ↔
      ¬ EndsInBreak style slots .primary (.root children) := by
  rw [documentMarkdown_eq_ended, String.toList_ofList, endedOnce_ended, ne_eq, getLast?_flow_iff]

theorem documentMarkdown_eq_markdown_iff (style : Style) (slots : Slots) (children : List Node) :
    documentMarkdown style slots children = markdown style slots (.root children) ↔
      ¬ EndsInBreak style slots .primary (.root children) := by
  rw [documentMarkdown_eq_ended, markdown_eq_ended, write, String.ofList_inj, ended_inj, eq_comm,
    dropFinalBreaks_eq_self, ne_eq, getLast?_flow_iff]

/-- **Where the two ways to write a document agree.**  As one block it is always ended with exactly
one line feed, or empty.  By its blocks it is written in the same way, and so ended, unless the last
of them that shows ends in a line feed itself.  Pages that have been loaded are converted, and then
written by their blocks. -/
theorem documentMarkdown_agrees_iff (style : Style) (slots : Slots) (children : List Node) :
    EndedOnce (markdown style slots (.root children)).toList ∧
    (documentMarkdown style slots children = markdown style slots (.root children) ↔
      ¬ EndsInBreak style slots .primary (.root children)) ∧
    (EndedOnce (documentMarkdown style slots children).toList ↔
      ¬ EndsInBreak style slots .primary (.root children)) ∧
    ∀ page : Block, page.kind.isPage = true → page.isReady = true →
      ∃ document read, Document.convert page = .ok (document, read) ∧
        (EndedOnce (documentMarkdown style read document.children).toList ↔
          ¬ EndsInBreak style read .primary (.root document.children)) := by
  refine ⟨endedOnce_markdown _ _ _, documentMarkdown_eq_markdown_iff _ _ _,
    endedOnce_documentMarkdown_iff _ _ _, fun page hpage hready => ?_⟩
  refine ⟨(Document.ofBlock page {}).1, (Document.ofBlock page {}).2, ?_,
    endedOnce_documentMarkdown_iff _ _ _⟩
  rw [Document.convert, hpage, hready]
  rfl

/-- A page on which a line that is broken at its end comes before a divider. -/
def dividedPage : Block where
  kind := .page
  children := [.ofRuns .text [{ text := "a\n" }] [], { kind := .divider }, { kind := .text }]

/-- The document is ended once, for the divider shows last. -/
theorem documentMarkdown_agrees_dividedPage :
    dividedPage.kind.isPage = true ∧ dividedPage.isReady = true ∧
    ∃ document read, Document.convert dividedPage = .ok (document, read) ∧
      (documentMarkdown {} read document.children).toList = "a\n\n\n***\n".toList ∧
      documentMarkdown {} read document.children = markdown {} read (.root document.children) ∧
      EndedOnce (documentMarkdown {} read document.children).toList := by
  have hpage : dividedPage.kind.isPage = true := rfl
  have hready : dividedPage.isReady = true := rfl
  obtain ⟨document, read, hconvert, hended⟩ :=
    (documentMarkdown_agrees_iff {} {} []).2.2.2 dividedPage hpage hready
  have hresult : Document.convert dividedPage = .ok (Document.ofBlock dividedPage {}) := rfl
  obtain ⟨rfl, rfl⟩ := Prod.mk.inj (Except.ok.inj (hconvert.symm.trans hresult))
  have hwritten : (documentMarkdown {} (Document.ofBlock dividedPage {}).2
      (Document.ofBlock dividedPage {}).1.children).toList = "a\n\n\n***\n".toList := by
    with_unfolding_all rfl
  have honce : EndedOnce (documentMarkdown {} (Document.ofBlock dividedPage {}).2
      (Document.ofBlock dividedPage {}).1.children).toList := by
    rw [hwritten]
    exact .inr ⟨"a\n\n\n***".toList, rfl, by decide⟩
  obtain ⟨-, hagrees, -, -⟩ := documentMarkdown_agrees_iff {} (Document.ofBlock dividedPage {}).2
    (Document.ofBlock dividedPage {}).1.children
  exact ⟨hpage, hready, _, _, hconvert, hwritten, hagrees.2 (hended.1 honce), honce⟩

/-- A line that is broken at its end. -/
def brokenLine : List Node := [.paragraph [.text "a\n"]]

/-- A page with that line. -/
def brokenPage : Block where
  kind := .page
  children := [.ofRuns .text [{ text := "a\n" }] []]

/-- By its blocks, a document of that line is ended twice, and so is the page. -/
theorem brokenLine_ends_twice :
    documentMarkdown {} {} brokenLine ≠ markdown {} {} (.root brokenLine) ∧
    (documentMarkdown {} {} brokenLine).toList = "a\n\n".toList ∧
    (markdown {} {} (.root brokenLine)).toList = "a\n".toList ∧
    ¬ EndedOnce (documentMarkdown {} {} brokenLine).toList ∧
    brokenPage.isReady = true ∧
    ∃ document read, Document.convert brokenPage = .ok (document, read) ∧
      document.children = brokenLine ∧
      ¬ EndedOnce (documentMarkdown {} read document.children).toList := by
  have hbreak : ∀ read, EndsInBreak {} read .primary (.root brokenLine) := fun read =>
    (getLast?_flow_iff {} read brokenLine).1 rfl
  have hpage : (Document.ofBlock brokenPage {}).1.children = brokenLine := by
    with_unfolding_all rfl
  refine ⟨?_, rfl, rfl, ?_, rfl, (Document.ofBlock brokenPage {}).1,
    (Document.ofBlock brokenPage {}).2, rfl, hpage, ?_⟩
  · rw [ne_eq, documentMarkdown_eq_markdown_iff]
    exact not_not_intro (hbreak _)
  · rw [endedOnce_documentMarkdown_iff]
    exact not_not_intro (hbreak _)
  · rw [endedOnce_documentMarkdown_iff, hpage]
    exact not_not_intro (hbreak _)

end Node

end DocExport
