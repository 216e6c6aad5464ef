import DocExport.Markdown.Flow
import DocExport.Proofs.Groups

/-!
# Lines of quotations and lists

A quotation and a list mark the lines of what they contain, and whatever these lines are, the
marks can be taken off again.  Every line of a quotation is a line of its content behind the
quotation's mark.  In a list, an item goes from a line that begins with something else than a
space to the next such line; its first line begins with its marker, and the others are moved to
the right by as much as the marker and a space take.

What is written is cut at its line feeds here, so that nothing of it is lost.

* **Main results.** `Layout.pieces_quoted` and `Layout.pieces_hung` (what the lines of a
  quotation and of an item are), `Node.itemsIn_list` (the items of a list are found again), and
  `Node.readBack_containers` (what is found in them is what was written there).
-/

namespace DocExport

namespace Text

/-! ## Lines of what shows -/

/-- A text that is not empty has lines. -/
theorem lines_ne_nil {cs : List Char} (h : cs ≠ []) : lines cs ≠ [] := by
  intro hnone
  rw [lines, List.append_eq_nil_iff, List.map_eq_nil_iff] at hnone
  obtain ⟨hended, hrest⟩ := hnone
  obtain ⟨p, hp⟩ : ∃ p, pieces cs = [p] := by
    cases hps : pieces cs with
    | nil => exact absurd hps (pieces_ne_nil cs)
    | cons p ps =>
      cases ps with
      | nil => exact ⟨p, rfl⟩
      | cons q ps => simp [hps] at hended
  have hcs := join_pieces cs
  rw [hp] at hcs hrest
  have hempty : p = [] := by simpa using hrest
  exact h (hcs.symm.trans hempty)

theorem not_mem_trimEnd {cs : List Char} (h : '\n' ∉ cs) : '\n' ∉ trimEnd cs := by
  intro hmem
  rw [← trimEnd_append_trailingBlanks cs] at h
  exact h (List.mem_append_left _ hmem)

end Text

/-! ## Markers that show -/

/-- No marker of a style is blank. -/
structure Style.MarkersShow (style : Style) : Prop where
  bullet : Text.isBlank style.bullet = false
  bulletNext : Text.isBlank style.bulletNext = false
  delimiter : Text.isBlank style.delimiter = false
  delimiterNext : Text.isBlank style.delimiterNext = false

instance (style : Style) : Decidable style.MarkersShow :=
  decidable_of_iff (Text.isBlank style.bullet = false ∧ Text.isBlank style.bulletNext = false ∧
      Text.isBlank style.delimiter = false ∧ Text.isBlank style.delimiterNext = false)
    ⟨fun ⟨hb, hb', hd, hd'⟩ => ⟨hb, hb', hd, hd'⟩,
      fun h => ⟨h.bullet, h.bulletNext, h.delimiter, h.delimiterNext⟩⟩

/-- Whether a line begins with something else than a space. -/
def startsItem (line : List Char) : Bool := line.head?.any (· != ' ')

namespace Layout

open Text

/-- A marker that begins an item: it ends in a character that shows, begins with something else
than a space and is all on one line. -/
structure IsMarker (marker : List Char) : Prop where
  ends : ∃ front last, marker = front ++ [last] ∧ isBlank last = false
  starts : startsItem marker = true
  noBreak : '\n' ∉ marker

/-- The markers of a style are markers if they show. -/
theorem isMarker_itemMarker {style : Style} (h : style.MarkersShow) (m : Marker) (ordered : Bool)
    (number : Nat) : IsMarker (itemMarker style m ordered number) := by
  have hbullet : isBlank (style.bulletFor m) = false := by
    cases m
    · exact h.bullet
    · exact h.bulletNext
  have hdelimiter : isBlank (style.delimiterFor m) = false := by
    cases m
    · exact h.delimiter
    · exact h.delimiterNext
  have hne : ∀ {c : Char}, isBlank c = false → c ≠ '\n' ∧ c ≠ ' ' := by
    intro c hc
    constructor <;> rintro rfl <;> exact absurd hc (by decide)
  cases ordered with
  | false =>
    refine ⟨⟨[], _, rfl, hbullet⟩, ?_, ?_⟩
    · simpa [itemMarker, startsItem] using (hne hbullet).2
    · simpa [itemMarker] using (hne hbullet).1.symm
  | true =>
    have hdigit : ∀ c ∈ Nat.toDigits 10 (min number maxNumber), c ≠ '\n' ∧ c ≠ ' ' := by
      intro c hc
      have := Nat.isDigit_of_mem_toDigits (by decide) (by decide) hc
      constructor <;> rintro rfl <;> exact absurd this (by decide)
    refine ⟨⟨_, _, rfl, hdelimiter⟩, ?_, ?_⟩
    · obtain ⟨c, digits, hdigits⟩ :=
        List.exists_cons_of_ne_nil (Nat.toDigits_ne_nil (n := min number maxNumber) (b := 10))
      have hc := hdigit c (hdigits ▸ List.mem_cons_self ..)
      simpa [itemMarker, startsItem, hdigits] using hc.2
    · rw [itemMarker, if_pos rfl, List.mem_append, List.mem_singleton, not_or]
      exact ⟨fun hmem => (hdigit _ hmem).1 rfl, (hne hdelimiter).1.symm⟩

/-! ## Quotations -/

theorem quotedLine_ne_nil (line : List Char) : quotedLine line ≠ [] := by
  rw [quotedLine]
  split <;> simp

theorem not_mem_quotedLine {line : List Char} (h : '\n' ∉ line) : '\n' ∉ quotedLine line := by
  rw [quotedLine]
  split <;> simp [h]

/-- The lines of a quotation are those of its content, each behind the quotation's mark. -/
theorem pieces_quoted {content : List Char} (h : content ≠ []) :
    pieces (quoted content) = (lines content).map quotedLine := by
  rw [quoted, if_neg (by simpa using h)]
  refine pieces_intercalate (by simpa using lines_ne_nil h) fun q hq => ?_
  obtain ⟨line, hline, rfl⟩ := List.mem_map.1 hq
  exact not_mem_quotedLine (not_mem_of_mem_lines hline)

/-! ## Items -/

/-- The lines of content hung under a marker. -/
def itemLines (marker box content : List Char) : Adjacent.Group (List Char) where
  head := trimEnd (marker ++ ' ' :: box ++ (lines content).headD [])
  tail := (lines content).tail.map (hungLine (marker.length + 1))

theorem not_mem_taskBox (checked : Option Bool) : '\n' ∉ taskBox checked := by
  rcases checked with - | - | - <;> decide

theorem not_mem_hungLine (width : Nat) {line : List Char} (h : '\n' ∉ line) :
    '\n' ∉ hungLine width line := by
  rw [hungLine]
  split <;> simp [h]

theorem intercalate_itemLines (marker box content : List Char) :
    List.intercalate ['\n'] (itemLines marker box content).toList = hung marker box content := by
  rw [Adjacent.Group.toList, intercalate_cons, hung, itemLines]
  cases lines content with
  | nil => simp
  | cons first others => simp [List.flatMap_map]

/-- The pieces of content hung under a marker are its lines. -/
theorem pieces_hung {marker box : List Char} (hmarker : '\n' ∉ marker) (hbox : '\n' ∉ box)
    (content : List Char) :
    pieces (hung marker box content) = (itemLines marker box content).toList := by
  have hlines : ∀ line ∈ lines content, '\n' ∉ line := fun _ => not_mem_of_mem_lines
  rw [← intercalate_itemLines]
  refine pieces_intercalate (List.cons_ne_nil _ _) (List.forall_mem_cons.2 ⟨?_, fun q hq => ?_⟩)
  · refine not_mem_trimEnd ?_
    cases hcontent : lines content with
    | nil => simp [hmarker, hbox]
    | cons first others =>
      have hfirst := hlines first (hcontent ▸ List.mem_cons_self ..)
      simp [hmarker, hbox, hfirst]
  · obtain ⟨line, hline, rfl⟩ := List.mem_map.1 hq
    exact not_mem_hungLine _ (hlines line (List.mem_of_mem_tail hline))

theorem drop_hungLine (width : Nat) (line : List Char) :
    (hungLine width line).drop width = line := by
  rw [hungLine]
  by_cases hempty : line.isEmpty = true
  · rw [if_pos hempty, List.isEmpty_iff.1 hempty, List.drop_nil]
  · rw [if_neg hempty]
    exact List.drop_left' List.length_replicate

/-- Lines that are an item: content under a marker with a box behind it, and then a gap. -/
structure IsItem (marker box content : List Char) (gap : List (List Char))
    (item : Adjacent.Group (List Char)) : Prop where
  /-- The item is where its marker is. -/
  begins : marker <+: item.head
  /-- Behind the marker, a space and the box stands the first line of the content, but for blanks
  at its end. -/
  first : ∃ blanks, allBlank blanks = true ∧
    item.head ++ blanks = marker ++ ' ' :: box ++ (lines content).headD []
  /-- The other lines are empty or moved to the right. -/
  indented : ∀ line ∈ item.tail, line = [] ∨ List.replicate (marker.length + 1) ' ' <+: line
  /-- Moved back, they are the other lines of the content. -/
  others : item.tail.map (List.drop (marker.length + 1)) = (lines content).tail ++ gap

/-- Content hung under a marker is an item. -/
theorem isItem_itemLines {marker : List Char} (h : IsMarker marker) (box content : List Char)
    {gap : List (List Char)} (hgap : ∀ line ∈ gap, line = []) :
    IsItem marker box content gap
      ⟨(itemLines marker box content).head, (itemLines marker box content).tail ++ gap⟩ where
  begins := by
    obtain ⟨front, last, hmarker, hlast⟩ := h.ends
    refine ⟨trimEnd (' ' :: box ++ (lines content).headD []), ?_⟩
    rw [itemLines, List.append_assoc, hmarker, ← trimEnd_append_of_shown front _ hlast]
  first := ⟨_, allBlank_trailingBlanks _, trimEnd_append_trailingBlanks _⟩
  indented := by
    intro line hline
    rcases List.mem_append.1 hline with hline | hline
    · obtain ⟨line, -, rfl⟩ := List.mem_map.1 hline
      rw [hungLine]
      split
      · exact Or.inl rfl
      · exact Or.inr (List.prefix_append _ _)
    · exact Or.inl (hgap line hline)
  others := by
    have hstays : gap.map (List.drop (marker.length + 1)) = gap := by
      refine List.map_congr_left (g := id) (fun line hline => ?_) |>.trans (List.map_id gap)
      rw [hgap line hline, List.drop_nil]
      rfl
    rw [List.map_append, hstays, itemLines, List.map_map]
    congr 1
    exact (List.map_congr_left fun line _ => drop_hungLine _ line).trans (List.map_id _)

end Layout

/-! ## Lists -/

namespace Node

open Text Layout

variable {style : Style} {slots : Slots} {m : Marker} {ordered spread : Bool}

/-- The items that a reader finds in the lines of a list: each goes from a line that begins with
something else than a space to the next such line. -/
def itemsIn (rows : List (List Char)) : List (Adjacent.Group (List Char)) :=
  Adjacent.groups (fun _ line => !startsItem line) rows

/-- What stands between an item and the items after it. -/
def gapBefore (spread : Bool) (items : List (ListItem Node)) : List (List Char) :=
  if spread = true ∧ items ≠ [] then [[]] else []

/-- The lines of a list, item by item; the first item has the given number. -/
def listLines (style : Style) (slots : Slots) (m : Marker) (ordered spread : Bool) (number : Nat) :
    List (ListItem Node) → List (Adjacent.Group (List Char))
  | [] => []
  | item :: items =>
      let lines := itemLines (itemMarker style m ordered number) (taskBox item.checked)
        (flow style slots (!item.spread) none item.children)
      ⟨lines.head, lines.tail ++ gapBefore spread items⟩ ::
        listLines style slots m ordered spread (number + 1) items

theorem eq_nil_of_mem_gapBefore {items : List (ListItem Node)} {line : List Char}
    (h : line ∈ gapBefore spread items) : line = [] := by
  rw [gapBefore] at h
  split at h
  · exact List.mem_singleton.1 h
  · exact absurd h List.not_mem_nil

/-- The pieces of items with line feeds between them are the lines of the items. -/
theorem pieces_writeItems (h : style.MarkersShow) (number : Nat) {items : List (ListItem Node)}
    (hne : items ≠ []) :
    pieces (List.intercalate (if spread then ['\n', '\n'] else ['\n'])
        (writeItems style slots m ordered number items)) =
      (listLines style slots m ordered spread number items).flatMap Adjacent.Group.toList := by
  induction items generalizing number with
  | nil => exact absurd rfl hne
  | cons item items ih =>
    have hitem : pieces (writeItem style slots (itemMarker style m ordered number) item) =
        (itemLines (itemMarker style m ordered number) (taskBox item.checked)
          (flow style slots (!item.spread) none item.children)).toList := by
      rw [writeItem]
      exact pieces_hung (isMarker_itemMarker h m ordered number).noBreak (not_mem_taskBox _) _
    rw [listLines, List.flatMap_cons, writeItems]
    cases items with
    | nil => simpa [gapBefore, listLines, writeItems, Adjacent.Group.toList] using hitem
    | cons next items =>
      have hrest := ih (number + 1) (List.cons_ne_nil _ _)
      rw [writeItems] at hrest ⊢
      rw [List.intercalate_cons_cons, List.append_assoc]
      cases spread with
      | false =>
        simp only [Bool.false_eq_true, if_false, List.singleton_append] at hrest ⊢
        rw [pieces_append_break, hitem, hrest]
        simp [gapBefore, Adjacent.Group.toList]
      | true =>
        simp only [if_true, List.cons_append, List.nil_append] at hrest ⊢
        rw [pieces_append_break, hitem, ← List.nil_append ('\n' :: _), pieces_append_break, hrest]
        simp [gapBefore, Adjacent.Group.toList, pieces]

/-- The lines of the item at each place of a list are an item under the marker for that place. -/
theorem isItem_of_getElem? (h : style.MarkersShow) {number k : Nat}
    {items : List (ListItem Node)} {item : ListItem Node} {found : Adjacent.Group (List Char)}
    (hitem : items[k]? = some item)
    (hfound : (listLines style slots m ordered spread number items)[k]? = some found) :
    IsItem (itemMarker style m ordered (number + k)) (taskBox item.checked)
      (flow style slots (!item.spread) none item.children)
      (if spread = true ∧ k + 1 < items.length then [[]] else []) found := by
  induction items generalizing number k with
  | nil => simp at hitem
  | cons next items ih =>
    cases k with
    | zero =>
      have hgap : gapBefore spread items =
          if spread = true ∧ 0 + 1 < (next :: items).length then [[]] else [] := by
        cases items <;> simp [gapBefore]
      rw [List.getElem?_cons_zero, Option.some.injEq] at hitem
      rw [listLines, List.getElem?_cons_zero, Option.some.injEq] at hfound
      rw [← hfound, ← hgap, hitem]
      exact isItem_itemLines (isMarker_itemMarker h m ordered number) _ _
        fun _ => eq_nil_of_mem_gapBefore
    | succ k =>
      rw [List.getElem?_cons_succ] at hitem
      rw [listLines, List.getElem?_cons_succ] at hfound
      have hlater := ih hitem hfound
      rw [Nat.add_assoc, Nat.add_comm 1 k] at hlater
      simpa [Nat.add_lt_add_iff_right] using hlater

theorem length_listLines (number : Nat) (items : List (ListItem Node)) :
    (listLines style slots m ordered spread number items).length = items.length := by
  induction items generalizing number with
  | nil => rfl
  | cons item items ih => rw [listLines, List.length_cons, List.length_cons, ih]

/-- The lines of an item begin with something else than a space, and then never again. -/
theorem startsItem_listLines (h : style.MarkersShow) {number : Nat} {items : List (ListItem Node)}
    {found : Adjacent.Group (List Char)}
    (hfound : found ∈ listLines style slots m ordered spread number items) :
    startsItem found.head = true ∧ ∀ line ∈ found.tail, startsItem line = false := by
  obtain ⟨k, hk⟩ := List.mem_iff_getElem?.1 hfound
  obtain ⟨hlt, -⟩ := List.getElem?_eq_some_iff.1 hk
  rw [length_listLines] at hlt
  have hitem := isItem_of_getElem? h (List.getElem?_eq_getElem hlt) hk
  constructor
  · obtain ⟨rest, hrest⟩ := hitem.begins
    have hmarker := (isMarker_itemMarker h m ordered (number + k)).starts
    rw [← hrest]
    cases hm : itemMarker style m ordered (number + k) with
    | nil => simp [hm, startsItem] at hmarker
    | cons c cs => simpa [hm, startsItem] using hmarker
  · intro line hline
    rcases hitem.indented line hline with rfl | ⟨rest, rfl⟩
    · rfl
    · rw [List.replicate_succ]
      rfl

/-- The lines of a list are those of its items. -/
theorem rows_list (h : style.MarkersShow) (start : Option Nat) (items : List (ListItem Node)) :
    rows (write style slots m (.list ordered start spread items)) =
      (listLines style slots m ordered spread (start.getD 1) items).flatMap
        Adjacent.Group.toList := by
  cases items with
  | nil => rfl
  | cons item items =>
    have hpieces : pieces (write style slots m (.list ordered start spread (item :: items))) =
        (listLines style slots m ordered spread (start.getD 1) (item :: items)).flatMap
          Adjacent.Group.toList := by
      rw [write]
      exact pieces_writeItems h (start.getD 1) (List.cons_ne_nil item items)
    -- the first line begins with a marker, so something has been written
    have hall : ∀ found ∈ listLines style slots m ordered spread (start.getD 1) (item :: items),
        startsItem found.head = true := fun found hfound => (startsItem_listLines h hfound).1
    have hstarts := hall _ (List.mem_cons_self ..)
    have hne : write style slots m (.list ordered start spread (item :: items)) ≠ [] := by
      intro hnone
      rw [hnone, listLines, List.flatMap_cons] at hpieces
      have hhead := (List.cons.inj hpieces).1
      rw [← hhead] at hstarts
      exact Bool.false_ne_true hstarts
    rw [rows, if_neg (by simpa using hne), hpieces]

/-- A reader finds the items of a list in its lines. -/
theorem itemsIn_list (h : style.MarkersShow) (start : Option Nat) (items : List (ListItem Node)) :
    itemsIn (rows (write style slots m (.list ordered start spread items))) =
      listLines style slots m ordered spread (start.getD 1) items := by
  rw [rows_list h, itemsIn]
  refine Adjacent.groups_flatMap_toList (fun found hfound => ?_) ?_
  · have htail : ∀ line ∈ found.tail, (!startsItem line) = true := by
      intro line hline
      rw [(startsItem_listLines h hfound).2 line hline]
      rfl
    refine List.Pairwise.isChain (List.pairwise_cons.2 ⟨fun line => htail line, ?_⟩)
    exact List.pairwise_of_forall_mem_list fun _ _ line hline => htail line hline
  · refine List.Pairwise.isChain (List.pairwise_of_forall_mem_list fun _ _ found hfound => ?_)
    rw [(startsItem_listLines h hfound).1]
    rfl

/-- Quotations and lists can be taken apart line by line, whatever they contain.  The lines of a
quotation are those of its content behind its mark.  In the lines of a list, one for each of
the items begins with something else than a space, and from each of them to the next a reader
finds the content of the item under its marker. -/
theorem readBack_containers (style : Style) (slots : Slots) (m : Marker) :
    (∀ children, flow style slots false none children ≠ [] →
      pieces (write style slots m (.blockquote children)) =
        (lines (flow style slots false none children)).map fun line =>
          if line = [] then ['>'] else '>' :: ' ' :: line) ∧
    (style.MarkersShow → ∀ ordered start spread (items : List (ListItem Node)) written,
      written = rows (write style slots m (.list ordered start spread items)) →
        (itemsIn written).length = items.length ∧
        written.filter startsItem = (itemsIn written).map Adjacent.Group.head ∧
        ∀ k item found, items[k]? = some item → (itemsIn written)[k]? = some found →
          IsItem (itemMarker style m ordered (start.getD 1 + k)) (taskBox item.checked)
            (flow style slots (!item.spread) none item.children)
            (if spread = true ∧ k + 1 < items.length then [[]] else []) found) := by
  refine ⟨fun children hshown => ?_, fun h ordered start spread items written hwritten => ?_⟩
  · rw [write, pieces_quoted hshown]
    refine List.map_congr_left fun line _ => ?_
    simp only [quotedLine, List.isEmpty_iff]
  · have hfound : itemsIn written = listLines style slots m ordered spread (start.getD 1) items :=
      hwritten ▸ itemsIn_list h start items
    rw [hfound]
    refine ⟨length_listLines _ _, ?_, fun k item found hitem hk => isItem_of_getElem? h hitem hk⟩
    rw [hwritten, rows_list h, List.filter_flatMap, List.map_eq_flatMap]
    refine List.flatMap_congr fun found hmem => ?_
    obtain ⟨hhead, htail⟩ := startsItem_listLines h hmem
    rw [Adjacent.Group.toList, List.filter_cons, if_pos hhead,
      List.filter_eq_nil_iff.2 fun line hline => by simp [htail line hline]]

/-- An item with a paragraph of two lines, and an item with code that looks like one. -/
def itemsWithLines : List (ListItem Node) :=
  [{ children := [.paragraph [.text "one\ntwo"]] },
    { checked := some true, children := [.code none "* three\n\n"] }]

/-- The items of a numbered list are found again under their numbers, and so are the lines of the
list in a quotation. -/
theorem readBack_itemsWithLines :
    flow {} {} false none [.list true (some 9) true itemsWithLines] ≠ [] ∧
      pieces (write {} {} .primary (.blockquote [.list true (some 9) true itemsWithLines])) =
        (lines (flow {} {} false none [.list true (some 9) true itemsWithLines])).map
          (fun line => if line = [] then ['>'] else '>' :: ' ' :: line) ∧
      Style.MarkersShow {} ∧
      (itemsIn (rows (write {} {} .primary (.list true (some 9) true itemsWithLines)))).length =
        2 ∧
      ∃ first second,
        itemsIn (rows (write {} {} .primary (.list true (some 9) true itemsWithLines))) =
          [first, second] ∧
        IsItem ['9', '.'] [] (flow {} {} true none [.paragraph [.text "one\ntwo"]]) [[]] first ∧
        IsItem ['1', '0', '.'] ['[', 'x', ']', ' ']
          (flow {} {} true none [.code none "* three\n\n"]) [] second := by
  have hshown : flow {} {} false none [.list true (some 9) true itemsWithLines] ≠ [] := by
    decide
  have hmarkers : Style.MarkersShow {} := by decide
  obtain ⟨hquoted, hlist⟩ := readBack_containers {} {} .primary
  obtain ⟨hlength, -, hitems⟩ := hlist hmarkers true (some 9) true itemsWithLines _ rfl
  refine ⟨hshown, hquoted _ hshown, hmarkers, hlength, ?_⟩
  obtain ⟨first, second, htwo⟩ := List.length_eq_two.1 hlength
  refine ⟨first, second, htwo, ?_, ?_⟩
  · exact hitems 0 _ first rfl (by rw [htwo]; rfl)
  · exact hitems 1 _ second rfl (by rw [htwo]; rfl)

end Node

end DocExport
