import DocExport.Markdown.Flow

/-!
# Blank lines in tight lists

Inside a tight list item blocks stand on directly following lines.  Text at the end of one block
then goes on in the next, if the next does not show that something new begins, unless a blank
line keeps the two apart.

* **Main results.** `Node.flow_append` (what has been written decides how the writing goes on),
  `Node.EndsOpen` and `Node.Resumes` (where a blank line is called for) and
  `Node.blankLine_iff_of_resumes` (where there is one: only between a text and a text or an
  underlined heading, not after a text that ends a quotation or a list).
-/

namespace DocExport.Node

variable {style : Style} {slots : Slots} {tight : Bool}

/-! ## Blocks that show -/

/-- The last block of a list that shows, with the marker it was written with; the block written
before the list if none of them does. -/
def lastShown (style : Style) (slots : Slots) (previous : Option (Node × Marker)) :
    List Node → Option (Node × Marker)
  | [] => previous
  | n :: ns =>
      let m := markerAfter previous n
      if (n.write style slots m).isEmpty then lastShown style slots previous ns
      else lastShown style slots (some (n, m)) ns

theorem flow_cons_of_shown {previous : Option (Node × Marker)} {n : Node} {ns : List Node}
    (h : n.write style slots (markerAfter previous n) ≠ []) :
    flow style slots tight previous (n :: ns) =
      separator style tight previous n ++ n.write style slots (markerAfter previous n) ++
        flow style slots tight (some (n, markerAfter previous n)) ns := by
  rw [flow, if_neg (by simpa using h), List.append_assoc]

theorem lastShown_cons_of_empty {previous : Option (Node × Marker)} {n : Node} {ns : List Node}
    (h : n.write style slots (markerAfter previous n) = []) :
    lastShown style slots previous (n :: ns) = lastShown style slots previous ns := by
  rw [lastShown, if_pos (by simp [h])]

theorem lastShown_cons_of_shown {previous : Option (Node × Marker)} {n : Node} {ns : List Node}
    (h : n.write style slots (markerAfter previous n) ≠ []) :
    lastShown style slots previous (n :: ns) =
      lastShown style slots (some (n, markerAfter previous n)) ns := by
  rw [lastShown, if_neg (by simpa using h)]

/-- What is true of no blocks is true of all blocks, if it is true of a block and others whenever it
is true of the others: after the block written before if this one comes to nothing, and after this
one if it shows. -/
theorem flow_induction (style : Style) (slots : Slots)
    {motive : Option (Node × Marker) → List Node → Prop} (nil : ∀ previous, motive previous [])
    (empty : ∀ previous n ns, n.write style slots (markerAfter previous n) = [] →
      motive previous ns → motive previous (n :: ns))
    (shown : ∀ previous n ns, n.write style slots (markerAfter previous n) ≠ [] →
      motive (some (n, markerAfter previous n)) ns → motive previous (n :: ns))
    (previous : Option (Node × Marker)) (ns : List Node) : motive previous ns := by
  induction ns generalizing previous with
  | nil => exact nil previous
  | cons n ns ih =>
    by_cases hn : n.write style slots (markerAfter previous n) = []
    · exact empty previous n ns hn (ih previous)
    · exact shown previous n ns hn (ih _)

/-- Blocks after others are written as after the last of those that shows. -/
theorem flow_append (previous : Option (Node × Marker)) (xs ys : List Node) :
    flow style slots tight previous (xs ++ ys) =
      flow style slots tight previous xs ++
        flow style slots tight (lastShown style slots previous xs) ys := by
  induction previous, xs using flow_induction style slots with
  | nil => rfl
  | empty previous n ns hn ih =>
    rw [List.cons_append, flow_cons_of_empty hn, flow_cons_of_empty hn, lastShown_cons_of_empty hn,
      ih]
  | shown previous n ns hn ih =>
    rw [List.cons_append, flow_cons_of_shown hn, flow_cons_of_shown hn, lastShown_cons_of_shown hn,
      ih, List.append_assoc _ (flow ..)]

/-- What blocks come to ends with the last of them that shows, or is nothing. -/
theorem flow_eq_nil_or_append {previous : Option (Node × Marker)} {ns : List Node} {a : Node}
    {m : Marker} (h : lastShown style slots previous ns = some (a, m)) :
    (previous = some (a, m) ∧ flow style slots tight previous ns = []) ∨
      ∃ before, flow style slots tight previous ns = before ++ a.write style slots m := by
  induction previous, ns using flow_induction style slots with
  | nil => exact Or.inl ⟨h, rfl⟩
  | empty previous n ns hn ih =>
    rw [lastShown_cons_of_empty hn] at h
    rw [flow_cons_of_empty hn]
    exact ih h
  | shown previous n ns hn ih =>
    rw [lastShown_cons_of_shown hn] at h
    rw [flow_cons_of_shown hn]
    right
    rcases ih h with ⟨hlast, hflow⟩ | ⟨before, hflow⟩
    · cases hlast
      exact ⟨_, by rw [hflow, List.append_nil]⟩
    · exact ⟨_, by rw [hflow, ← List.append_assoc]⟩

/-! ## Where text goes on -/

/-- The writing of a block ends in a paragraph that the next line could go on with. -/
inductive EndsOpen (style : Style) (slots : Slots) : Node → Prop where
  | paragraph (content : List Inline) : EndsOpen style slots (.paragraph content)
  | phrasing (inline : Inline) : EndsOpen style slots (.phrasing inline)
  | blockquote {children : List Node} {last : Node} {m : Marker}
      (shown : lastShown style slots none children = some (last, m))
      (last_open : EndsOpen style slots last) : EndsOpen style slots (.blockquote children)
  | listItem {item : ListItem Node} {last : Node} {m : Marker}
      (shown : lastShown style slots none item.children = some (last, m))
      (last_open : EndsOpen style slots last) : EndsOpen style slots (.listItem item)
  | list {ordered spread : Bool} {start : Option Nat} {items : List (ListItem Node)}
      {last : ListItem Node} (shown : items.getLast? = some last)
      (last_open : EndsOpen style slots (.listItem last)) :
      EndsOpen style slots (.list ordered start spread items)

/-- A heading that is written as text with a line under it. -/
def IsSetext (style : Style) (slots : Slots) : Node → Prop
  | .heading depth content =>
      style.heading = .setext ∧ Layout.headingDepth depth ≤ 2 ∧
        '\n' ∉ Inline.markdown style slots content
  | _ => False

/-- A code block that is written without fences. -/
def IsIndentedCode (style : Style) : Node → Prop
  | .code language value =>
      style.codeBlock = .indented ∧ language = none ∧ ¬ Text.allBlank value.toList
  | _ => False

/-- Nothing stands behind the marker of an item on its first line. -/
def StartsEmpty (style : Style) (slots : Slots) (item : ListItem Node) : Prop :=
  Text.allBlank (Layout.taskBox item.checked ++
    (Text.lines (flow style slots (!item.spread) none item.children)).headD []) = true

/-- A block that cannot begin on the line after a paragraph: an ordered list whose first number
is not one, a list whose first item starts with an empty line, and a rule that would underline
the text. -/
def CannotInterrupt (style : Style) (slots : Slots) : Node → Prop
  | .list ordered start _ items =>
      (ordered = true ∧ items ≠ [] ∧ min (start.getD 1) Layout.maxNumber ≠ 1) ∨
        ∃ first ∈ items.head?, StartsEmpty style slots first
  | .thematicBreak => style.rule ≠ "" ∧ ∀ c ∈ style.rule.toList, c = '-'
  | _ => False

/-- On the line directly after `a`, the block `b` would go on with the paragraph at the end
of `a`. -/
inductive Resumes (style : Style) (slots : Slots) (a b : Node) : Prop where
  | text (last_open : a.EndsOpen style slots)
      (next : b.isTextual = true ∨ b.IsSetext style slots ∨ b.IsIndentedCode style)
  | interrupt (textual : a.isTextual = true) (next : b.CannotInterrupt style slots)

/-- A heading written with a line under it is one that a blank line is kept for. -/
theorem isUnderlined_of_isSetext {n : Node} (h : n.IsSetext style slots) :
    n.isUnderlined style = true := by
  cases n with
  | heading depth content =>
    obtain ⟨hstyle, hdepth, -⟩ := h
    rw [Layout.headingDepth] at hdepth
    rw [isUnderlined, hstyle, Bool.and_eq_true, decide_eq_true_eq]
    exact ⟨rfl, by omega⟩
  | _ => exact h.elim

/-- A heading that would go on with a paragraph is written with a line under it if the style and
its depth ask for one. -/
theorem isSetext_of_isUnderlined {a b : Node} (h : Resumes style slots a b)
    (hunder : b.isUnderlined style = true) : b.IsSetext style slots := by
  cases b with
  | heading depth content =>
    rcases h with ⟨-, htext | hsetext | hcode⟩ | ⟨-, hnext⟩
    · simp [isTextual] at htext
    · exact hsetext
    · exact hcode.elim
    · exact hnext.elim
  | _ => simp [isUnderlined] at hunder

/-- In a tight list, of two neighbours that show, where the second would go on with the
paragraph at the end of the first, there is a blank line between them exactly if the first is
itself a text and the second is a text or a heading with a line under it. -/
theorem blankLine_iff_of_resumes {front back : List Node} {a b : Node} {m : Marker}
    (ha : lastShown style slots none front = some (a, m))
    (hb : b.write style slots (markerAfter (some (a, m)) b) ≠ [])
    (h : Resumes style slots a b) :
    (∃ before, flow style slots true none front = before ++ a.write style slots m) ∧
      flow style slots true none (front ++ b :: back) =
        flow style slots true none front ++
          (separator style true (some (a, m)) b ++
            b.write style slots (markerAfter (some (a, m)) b) ++
              flow style slots true (some (b, markerAfter (some (a, m)) b)) back) ∧
      (separator style true (some (a, m)) b = ['\n', '\n'] ↔
        a.isTextual = true ∧ (b.isTextual = true ∨ b.IsSetext style slots)) := by
  refine ⟨?_, ?_, ?_⟩
  · rcases flow_eq_nil_or_append ha with ⟨hnone, -⟩ | hbefore
    · cases hnone
    · exact hbefore
  · rw [flow_append, ha, flow_cons_of_shown hb]
  · have hunder : b.isUnderlined style = true ↔ b.IsSetext style slots :=
      ⟨isSetext_of_isUnderlined h, isUnderlined_of_isSetext⟩
    have hneeds : separator style true (some (a, m)) b = ['\n', '\n'] ↔
        needsBlankLine style a b = true := by
      cases hab : needsBlankLine style a b <;> simp [separator, hab]
    rw [hneeds, needsBlankLine, Bool.and_eq_true, Bool.or_eq_true, hunder]

/-- Two paragraphs of a tight list item stand apart. -/
theorem blankLine_between_paragraphs :
    lastShown {} {} none [.paragraph [.text "a"]] =
        some (.paragraph [.text "a"], .primary) ∧
      write {} {} (markerAfter (some (.paragraph [.text "a"], .primary))
        (.paragraph [.text "b"])) (.paragraph [.text "b"]) ≠ [] ∧
      Resumes {} {} (.paragraph [.text "a"]) (.paragraph [.text "b"]) ∧
      separator {} true (some (.paragraph [.text "a"], .primary)) (.paragraph [.text "b"]) =
        ['\n', '\n'] := by
  have ha : lastShown {} {} none [.paragraph [.text "a"]] =
      some (.paragraph [.text "a"], .primary) := by rfl
  have hb : write {} {} (markerAfter (some (.paragraph [.text "a"], .primary))
      (.paragraph [.text "b"])) (.paragraph [.text "b"]) ≠ [] := by decide
  have h : Resumes {} {} (.paragraph [.text "a"]) (.paragraph [.text "b"]) :=
    Resumes.text (EndsOpen.paragraph _) (Or.inl rfl)
  obtain ⟨-, -, hiff⟩ := @blankLine_iff_of_resumes {} {} _ [] _ _ _ ha hb h
  exact ⟨ha, hb, h, hiff.2 ⟨rfl, Or.inl rfl⟩⟩

/-- A paragraph after a quotation of a paragraph goes on in the quotation. -/
theorem paragraph_resumes_quotation :
    lastShown {} {} none [.blockquote [.paragraph [.text "a"]]] =
        some (.blockquote [.paragraph [.text "a"]], .primary) ∧
      Resumes {} {} (.blockquote [.paragraph [.text "a"]]) (.paragraph [.text "b"]) ∧
      flow {} {} true none [.blockquote [.paragraph [.text "a"]], .paragraph [.text "b"]] =
        ['>', ' ', 'a', '\n', 'b'] := by
  refine ⟨rfl, Resumes.text ?_ (Or.inl rfl), rfl⟩
  exact EndsOpen.blockquote (m := .primary) (by rfl) (EndsOpen.paragraph [.text "a"])

end DocExport.Node
