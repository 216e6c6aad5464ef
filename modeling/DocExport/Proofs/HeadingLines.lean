import DocExport.Proofs.StyledText

/-!
# Headings read back

A reader of a heading on one line takes the row of signs off its front, and the spaces after it.  A
row of signs at its end is taken off as well, as long as a space stands before it or it is all that
is left.  The writer escapes what is special inside a line, and signs are not: a heading whose text
ends in such a row loses it, and every other heading is read back.

* **Main results.** `Heading.withoutClosing_text` and `Escape.unescape_text` (the reader finds the
  same ends in the escaped text as in the text itself), `Heading.read?_signedHeading` (what is read,
  whatever the text) and `Node.read?_heading_iff` (which headings are read as they were).
-/

namespace DocExport

open Text

/-! ## Escaped text -/

namespace Escape

/-- The special characters of a text are escaped, and taking the backslashes away gives the text
back. -/
theorem unescape_text (cs : List Char) : unescape (text cs) = cs := by
  rw [unescape, signs_text, List.map_map]
  exact List.map_id cs

/-- Escaping goes along with dropping characters that are not special from the end of a text. -/
theorem text_dropped {p : Char → Bool} (h : ∀ c, p c = true → isSpecial c = false)
    (cs : List Char) :
    ((text cs).reverse.dropWhile p).reverse = text (cs.reverse.dropWhile p).reverse := by
  refine reverse_dropWhile_flatMap (fun c hc => ?_) (fun c => ?_) cs
  · rw [h c hc]
    rfl
  · by_cases hc : isSpecial c = true
    · exact ⟨['\\'], by rw [if_pos hc]; rfl⟩
    · exact ⟨[], by rw [if_neg hc]; rfl⟩

theorem dropEnd_text {c : Char} (hc : isSpecial c = false) (cs : List Char) :
    dropEnd c (text cs) = text (dropEnd c cs) :=
  text_dropped (fun x hx => by rwa [beq_iff_eq.1 hx]) cs

/-- Blanks are not escaped at the front of a text. -/
theorem trimStart_text (cs : List Char) : trimStart (text cs) = text (trimStart cs) := by
  induction cs with
  | nil => rfl
  | cons c cs ih =>
    by_cases hc : isBlank c = true
    · rw [text_cons_of_plain (isSpecial_of_isBlank hc)]
      simpa [trimStart, hc] using ih
    · have hkept : trimStart (c :: cs) = c :: cs := by simp [trimStart, hc]
      rw [hkept]
      cases hspecial : isSpecial c with
      | true =>
        have hbackslash : isBlank '\\' = false := by decide
        simp [text_cons_of_special hspecial, trimStart, hbackslash]
      | false => simp [text_cons_of_plain hspecial, trimStart, hc]

theorem trim_text (cs : List Char) : trim (text cs) = text (trim cs) := by
  rw [trim, trimStart_text]
  exact text_dropped (fun c hc => isSpecial_of_isBlank hc) _

/-- Neither are line feeds, nor the spaces that take their place. -/
theorem replace_text (cs : List Char) :
    replace '\n' [' '] (text cs) = text (replace '\n' [' '] cs) := by
  induction cs with
  | nil => rfl
  | cons c cs ih =>
    by_cases hfeed : c = '\n'
    · subst hfeed
      rw [text_cons_of_plain rfl, replace_cons_self, replace_cons_self, text_append, ih]
      rfl
    · rw [replace_cons_of_ne hfeed]
      cases hspecial : isSpecial c with
      | true =>
        rw [text_cons_of_special hspecial, text_cons_of_special hspecial,
          replace_cons_of_ne (by decide), replace_cons_of_ne hfeed, ih]
      | false =>
        rw [text_cons_of_plain hspecial, text_cons_of_plain hspecial, replace_cons_of_ne hfeed, ih]

end Escape

/-! ## Reading -/

namespace Heading

/-- A heading that is read off a line. -/
structure Reading where
  /-- How many signs it begins with. -/
  depth : Nat
  text : List Char
  deriving DecidableEq, Repr

/-- What is left of a line without the signs that close it: a row of signs at its end that is all
there is or that a space stands before. -/
def withoutClosing (body : List Char) : List Char :=
  let front := dropEnd '#' body
  if front = [] ∨ front.getLast? = some ' ' then dropEnd ' ' front else body

/-- The heading that a line is.  One to six signs open it, and a space or nothing follows them. -/
def read? (line : List Char) : Option Reading :=
  let depth := (line.takeWhile (· == '#')).length
  let rest := line.dropWhile (· == '#')
  if (1 ≤ depth ∧ depth ≤ 6) ∧ (rest = [] ∨ rest.head? = some ' ') then
    some ⟨depth, Escape.unescape (withoutClosing (dropEnd ' ' (rest.dropWhile (· == ' '))))⟩
  else none

/-- A text on one line, with a space for every line feed and none at its ends. -/
def oneLine (cs : List Char) : List Char :=
  dropEnd ' ' ((replace '\n' [' '] cs).dropWhile (· == ' '))

/-- Whether a text ends in signs that close a heading: in a row of signs that is all there is or
that a space stands before. -/
def EndsClosed (cs : List Char) : Prop :=
  ∃ front n, cs = front ++ List.replicate (n + 1) '#' ∧ (front = [] ∨ front.getLast? = some ' ')

/-! ## Signs at the end -/

/-- An escaped text begins with a backslash or like the text. -/
theorem head?_text_ne {c : Char} {cs : List Char} (h : cs.head? ≠ some c) (hc : c ≠ '\\') :
    (Escape.text cs).head? ≠ some c := by
  cases cs with
  | nil => exact h
  | cons x cs =>
    cases hx : Escape.isSpecial x with
    | true => simpa [Escape.text_cons_of_special hx] using Ne.symm hc
    | false => simpa [Escape.text_cons_of_plain hx] using h

/-- The reader finds the same closing signs in an escaped text as in the text itself. -/
theorem withoutClosing_text (cs : List Char) :
    withoutClosing (Escape.text cs) = Escape.text (withoutClosing cs) := by
  have hsign : dropEnd '#' (Escape.text cs) = Escape.text (dropEnd '#' cs) :=
    Escape.dropEnd_text rfl cs
  unfold withoutClosing
  simp only [hsign, Escape.text_eq_nil, Escape.getLast?_text]
  split
  · exact Escape.dropEnd_text rfl _
  · rfl

/-- A text that does not end in a space keeps all of itself exactly if it does not end in signs
that close a heading. -/
theorem withoutClosing_eq_self_iff {cs : List Char} (hend : cs.getLast? ≠ some ' ') :
    withoutClosing cs = cs ↔ ¬ EndsClosed cs := by
  constructor
  · rintro hself ⟨front, n, rfl, hfront⟩
    have hsigns : dropEnd '#' (front ++ List.replicate (n + 1) '#') = front := by
      rw [dropEnd_append fun c hc => List.eq_of_mem_replicate hc]
      rcases List.eq_nil_or_concat front with rfl | ⟨before, c, rfl⟩
      · rfl
      · have hspace : c = ' ' := by simpa using hfront
        rw [List.concat_eq_append, dropEnd_concat]
        rw [hspace]
        decide
    have hshorter : (dropEnd ' ' front).length ≤ front.length := by
      have hlength := congrArg List.length (dropEnd_append_ending ' ' front)
      rw [List.length_append] at hlength
      omega
    rw [withoutClosing, hsigns, if_pos hfront] at hself
    have hlength := congrArg List.length hself
    rw [List.length_append, List.length_replicate] at hlength
    omega
  · intro hopen
    have hsplit : dropEnd '#' cs ++ ending '#' cs = cs := dropEnd_append_ending '#' cs
    have hrow : ending '#' cs = List.replicate (ending '#' cs).length '#' :=
      List.eq_replicate_of_mem fun c hc => eq_of_mem_ending hc
    rw [withoutClosing]
    split
    · rename_i hfront
      -- there is no row of signs, for it would close the heading
      cases hcount : (ending '#' cs).length with
      | succ n =>
        refine absurd ⟨dropEnd '#' cs, n, ?_, hfront⟩ hopen
        rw [← hcount, ← hrow, hsplit]
      | zero =>
        rw [List.length_eq_zero_iff.1 hcount, List.append_nil] at hsplit
        rw [hsplit] at hfront ⊢
        rcases hfront with rfl | hspace
        · rfl
        · exact absurd hspace hend
    · rfl

/-! ## Texts on one line -/

/-- A text whose blanks are spaces is trimmed by dropping spaces. -/
theorem trim_eq_of_spaces {cs : List Char} (h : ∀ c ∈ cs, isBlank c = true → c = ' ') :
    trim cs = dropEnd ' ' (cs.dropWhile (· == ' ')) := by
  have hstart : ∀ ds : List Char, (∀ c ∈ ds, isBlank c = true → c = ' ') →
      ds.dropWhile isBlank = ds.dropWhile (· == ' ') := by
    intro ds hds
    induction ds with
    | nil => rfl
    | cons c ds ih =>
      obtain ⟨hc, hrest⟩ := List.forall_mem_cons.1 hds
      by_cases hspace : c = ' '
      · subst hspace
        simpa [List.dropWhile_cons, isBlank] using ih hrest
      · have hblank : isBlank c = false := Bool.eq_false_iff.2 fun hblank => hspace (hc hblank)
        simp [hblank, hspace]
  rw [trim, trimEnd, trimStart, hstart cs h, hstart]
  · rfl
  · intro c hc
    exact h c (List.dropWhile_subset _ (List.mem_reverse.1 hc))

theorem trim_replace {cs : List Char} (h : ∀ c ∈ cs, isBlank c = true → c = ' ' ∨ c = '\n') :
    trim (replace '\n' [' '] cs) = oneLine cs := by
  refine trim_eq_of_spaces fun c hc hblank => ?_
  rcases mem_of_mem_replace hc with hspace | ⟨hmem, hfeed⟩
  · exact List.mem_singleton.1 hspace
  · exact (h c hmem hblank).resolve_right hfeed

theorem head?_oneLine_ne (cs : List Char) : (oneLine cs).head? ≠ some ' ' :=
  head?_dropEnd_ne (head?_dropWhile_ne ' ' _)

theorem getLast?_oneLine_ne (cs : List Char) : (oneLine cs).getLast? ≠ some ' ' :=
  getLast?_dropEnd_ne ' ' _

/-! ## Headings on one line -/

/-- A reader finds the depth of a heading and its text without the signs that close it. -/
theorem read?_signedHeading {depth : Nat} (hdepth : 1 ≤ depth ∧ depth ≤ 6) {cs : List Char}
    (hblanks : ∀ c ∈ cs, isBlank c = true → c = ' ' ∨ c = '\n') :
    read? (Layout.signedHeading depth (Escape.text cs)) =
      some ⟨depth, withoutClosing (oneLine cs)⟩ := by
  have hline : Layout.signedHeading depth (Escape.text cs) =
      List.replicate depth '#' ++ ' ' :: Escape.text (oneLine cs) := by
    rw [Layout.signedHeading, Escape.replace_text, Escape.trim_text, trim_replace hblanks]
  have hspace : (' ' :: Escape.text (oneLine cs)).head? ≠ some '#' := by simp
  have hfront : (' ' :: Escape.text (oneLine cs)).dropWhile (· == ' ') =
      Escape.text (oneLine cs) :=
    dropWhile_replicate_append (head?_text_ne (head?_oneLine_ne cs) (by decide)) 1
  have hend : dropEnd ' ' (Escape.text (oneLine cs)) = Escape.text (oneLine cs) := by
    rw [Escape.dropEnd_text rfl, dropEnd_eq_self (getLast?_oneLine_ne cs)]
  rw [hline, read?, takeWhile_replicate_append hspace, dropWhile_replicate_append hspace,
    List.length_replicate, if_pos ⟨hdepth, .inr rfl⟩, hfront, hend, withoutClosing_text,
    Escape.unescape_text]

end Heading

/-! ## Headings of text -/

namespace Inline

/-- Texts one after another are escaped together. -/
theorem writeAll_texts (style : Style) (slots : Slots) (before : List Char)
    (texts : List String) :
    writeAll style slots before (texts.map .text) =
      before ++ Escape.text (texts.flatMap String.toList) := by
  induction texts generalizing before with
  | nil => simp [writeAll, Escape.text]
  | cons t texts ih =>
    have hlink : startsWithLink (texts.map .text) = false := by cases texts <;> rfl
    rw [List.map_cons, writeAll, hlink, Bool.and_false, if_neg Bool.false_ne_true, ih, write,
      List.flatMap_cons, Escape.text_append, List.append_assoc]

end Inline

namespace Node

/-- **A heading of text on one line is read back, with its depth, exactly if its text does not end
in signs that close it.**  What is read is the text with spaces for its line feeds and without the
spaces around it. -/
theorem read?_heading_iff (style : Style) (slots : Slots) (m : Marker) (depth : Nat)
    {texts : List String} (hshows : allBlank (texts.flatMap String.toList) = false)
    (hblanks : ∀ c ∈ texts.flatMap String.toList, isBlank c = true → c = ' ' ∨ c = '\n')
    (hsigned : style.heading = .setext → 2 < depth ∨ '\n' ∈ texts.flatMap String.toList) :
    Heading.read? (write style slots m (.heading depth (texts.map .text))) =
        some ⟨Layout.headingDepth depth, Heading.oneLine (texts.flatMap String.toList)⟩ ↔
      ¬ Heading.EndsClosed (Heading.oneLine (texts.flatMap String.toList)) := by
  let cs := texts.flatMap String.toList
  have hdepth : 1 ≤ Layout.headingDepth depth ∧ Layout.headingDepth depth ≤ 6 := by
    unfold Layout.headingDepth
    omega
  have htext : Inline.markdown style slots (texts.map .text) = Escape.text cs :=
    Inline.writeAll_texts style slots [] texts
  have hwritten : write style slots m (.heading depth (texts.map .text)) =
      Layout.signedHeading (Layout.headingDepth depth) (Escape.text cs) := by
    have hshown : ¬ allBlank (Escape.text cs) = true :=
      Bool.eq_false_iff.1 ((Escape.Spells.of_text cs).shows hshows)
    rw [write, htext, headingMarkdown, if_neg hshown, if_neg]
    rintro ⟨hsetext, hupper, hfeed⟩
    rcases hsigned hsetext with hdeep | hmem
    · unfold Layout.headingDepth at hupper
      omega
    · exact hfeed (List.mem_flatMap.2 ⟨'\n', hmem, List.mem_singleton.2 rfl⟩)
  rw [hwritten, Heading.read?_signedHeading hdepth hblanks, Option.some.injEq,
    Heading.Reading.mk.injEq, and_iff_right rfl,
    Heading.withoutClosing_eq_self_iff (Heading.getLast?_oneLine_ne cs)]

/-- Texts that together begin and end with signs and hold backslashes. -/
def signedTexts : List String := [" # \\#\n", "* a", "\\# ##b# "]

/-- The heading of such texts is read back, in a style that underlines other headings. -/
theorem read?_heading_signedTexts :
    allBlank (signedTexts.flatMap String.toList) = false ∧
    (∀ c ∈ signedTexts.flatMap String.toList, isBlank c = true → c = ' ' ∨ c = '\n') ∧
    (Style.heading { heading := .setext } = .setext →
      2 < 9 ∨ '\n' ∈ signedTexts.flatMap String.toList) ∧
    Heading.read? (write { heading := .setext } {} .primary
        (.heading 9 (signedTexts.map .text))) =
      some ⟨6, "# \\# * a\\# ##b#".toList⟩ := by
  have hshows : allBlank (signedTexts.flatMap String.toList) = false := by decide
  have hspaces : (signedTexts.flatMap String.toList).all
      (fun c => !isBlank c || c == ' ' || c == '\n') = true := by decide
  have hblanks : ∀ c ∈ signedTexts.flatMap String.toList,
      isBlank c = true → c = ' ' ∨ c = '\n' := by
    intro c hc hblank
    simpa [hblank] using List.all_eq_true.1 hspaces c hc
  have hsigned : Style.heading { heading := .setext } = .setext →
      2 < 9 ∨ '\n' ∈ signedTexts.flatMap String.toList := fun _ => .inl (by decide)
  have hopen : ¬ Heading.EndsClosed (Heading.oneLine (signedTexts.flatMap String.toList)) := by
    rw [← Heading.withoutClosing_eq_self_iff (Heading.getLast?_oneLine_ne _)]
    decide
  exact ⟨hshows, hblanks, hsigned,
    (read?_heading_iff { heading := .setext } {} .primary 9 hshows hblanks hsigned).2 hopen⟩

/-- A letter and a sign after it: the sign closes the heading and is not read. -/
theorem letterAndSign_loses_sign :
    write {} {} .primary (.heading 1 [.text "a #"]) = "# a #".toList ∧
      Heading.read? (write {} {} .primary (.heading 1 [.text "a #"])) =
        some ⟨1, "a".toList⟩ ∧
      Heading.oneLine "a #".toList = "a #".toList := by
  decide

end Node

end DocExport
