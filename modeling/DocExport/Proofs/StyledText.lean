import DocExport.Markdown.Flow
import DocExport.Proofs.Reading

/-!
# Styled text read back

Text is rewritten three times before it is Markdown.  Special characters are escaped, blanks are
moved out of the marks around them, and what would open a block at the start of a line is escaped as
well.  A reader undoes all of it in two steps: marks are deleted, and then backslashes are taken off
the characters that they escape.

Behind this stands what it means that some Markdown *spells* a text: it is made of marks, of
escaped punctuation and of characters that mean nothing by themselves.  Each of the three layers
only puts together or takes apart what spells a text, and never between a backslash and the
character after it.

* **Main results.** `Spells.split` (where such a text can be taken apart), `Spells.lineStarts`
  (escaping the starts of lines keeps what is spelled), `Spells.reads` (what is spelled is read) and
  `Node.reads_paragraph` (a paragraph of styled text reads as its text).
-/

namespace DocExport

open Text

/-! ## Reading -/

namespace Escape

/-- The punctuation characters of ASCII, the only ones that a backslash escapes. -/
def isPunctuation (c : Char) : Bool :=
  let n := c.toNat
  (0x21 ≤ n && n ≤ 0x2F) || (0x3A ≤ n && n ≤ 0x40) || (0x5B ≤ n && n ≤ 0x60) ||
    (0x7B ≤ n && n ≤ 0x7E)

/-- A character as a reader finds it. -/
structure Sign where
  char : Char
  /-- Whether a backslash escapes it. -/
  escaped : Bool
  deriving DecidableEq, Repr

/-- How a sign is written. -/
def Sign.spelling (s : Sign) : List Char := if s.escaped then ['\\', s.char] else [s.char]

/-- The characters that marks are made of. -/
def isMarkChar (c : Char) : Bool := c == '*' || c == '~'

/-- Whether a sign belongs to a mark. -/
def Sign.isMark (s : Sign) : Bool := !s.escaped && isMarkChar s.char

/-- The signs of a text: a backslash escapes the punctuation after it, and every other character
stands for itself. -/
def signs : List Char → List Sign
  | [] => []
  | [c] => [⟨c, false⟩]
  | c :: d :: cs =>
      if c = '\\' ∧ isPunctuation d then ⟨d, true⟩ :: signs cs else ⟨c, false⟩ :: signs (d :: cs)

/-- The signs of a text but for its marks. -/
def plainSigns (cs : List Char) : List Sign := (signs cs).filter fun s => !s.isMark

/-- A text without its marks: every star and every tilde that is not escaped is deleted. -/
def dropMarks (cs : List Char) : List Char := (plainSigns cs).flatMap Sign.spelling

/-- A text in which every escaped character stands for itself. -/
def unescape (cs : List Char) : List Char := (signs cs).map Sign.char

/-- Some Markdown reads as a text: without its marks and backslashes it is the text, and every
special character of the text is escaped in it. -/
structure Reads (written text : List Char) : Prop where
  read : unescape (dropMarks written) = text
  /-- Deleting the marks leaves all other signs, which are the characters of the text. -/
  signs : signs (dropMarks written) = plainSigns written
  escaped : ∀ s ∈ plainSigns written, isSpecial s.char = true → s.escaped = true

theorem signs_escaped {c : Char} (h : isPunctuation c = true) (cs : List Char) :
    signs ('\\' :: c :: cs) = ⟨c, true⟩ :: signs cs := by
  rw [signs, if_pos ⟨rfl, h⟩]

theorem signs_cons_of_ne {c : Char} (h : c ≠ '\\') (cs : List Char) :
    signs (c :: cs) = ⟨c, false⟩ :: signs cs := by
  cases cs with
  | nil => rfl
  | cons d cs => rw [signs, if_neg fun hc => h hc.1]

/-! ## Characters -/

theorem isPunctuation_of_isSpecial {c : Char} (h : isSpecial c = true) :
    isPunctuation c = true := by
  simp only [isSpecial, Bool.or_eq_true, beq_iff_eq] at h
  rcases h with ((((((rfl | rfl) | rfl) | rfl) | rfl) | rfl) | rfl) | rfl <;> rfl

theorem isSpecial_of_isMarkChar {c : Char} (h : isMarkChar c = true) :
    isSpecial c = true ∧ c ≠ '\\' := by
  simp only [isMarkChar, Bool.or_eq_true, beq_iff_eq] at h
  rcases h with rfl | rfl <;> exact ⟨rfl, by decide⟩

theorem plain_of_opensBlock {c : Char} (h : opensBlock c = true) :
    isPunctuation c = true ∧ isSpecial c = false := by
  simp only [opensBlock, Bool.or_eq_true, beq_iff_eq] at h
  rcases h with (((rfl | rfl) | rfl) | rfl) | rfl <;> exact ⟨rfl, rfl⟩

theorem plain_of_closesNumber {c : Char} (h : closesNumber c = true) :
    isPunctuation c = true ∧ isSpecial c = false := by
  simp only [closesNumber, Bool.or_eq_true, beq_iff_eq] at h
  rcases h with rfl | rfl <;> exact ⟨rfl, rfl⟩

theorem isPunctuation_of_isBlank {c : Char} (h : isBlank c = true) : isPunctuation c = false := by
  simp only [isBlank, Bool.or_eq_true, Bool.and_eq_true, decide_eq_true_eq, beq_iff_eq] at h
  simp only [isPunctuation, Bool.or_eq_false_iff, Bool.and_eq_false_iff, decide_eq_false_iff_not]
  omega

theorem isSpecial_of_isBlank {c : Char} (h : isBlank c = true) : isSpecial c = false :=
  Bool.eq_false_iff.2 fun hspecial =>
    Bool.eq_false_iff.1 (isPunctuation_of_isBlank h) (isPunctuation_of_isSpecial hspecial)

theorem ne_backslash {c : Char} (h : isSpecial c = false) : c ≠ '\\' := by
  rintro rfl
  exact Bool.false_ne_true h.symm

/-- An escaped text is read as its characters, and the special ones are escaped. -/
theorem signs_text (cs : List Char) : signs (text cs) = cs.map fun c => ⟨c, isSpecial c⟩ := by
  induction cs with
  | nil => rfl
  | cons c cs ih =>
    cases hc : isSpecial c with
    | true =>
      rw [text_cons_of_special hc, signs_escaped (isPunctuation_of_isSpecial hc), ih, List.map_cons,
        hc]
    | false =>
      rw [text_cons_of_plain hc, signs_cons_of_ne (ne_backslash hc), ih, List.map_cons, hc]

/-! ## Signs that are no marks -/

theorem plainSigns_mark {c : Char} (h : isMarkChar c = true) (cs : List Char) :
    plainSigns (c :: cs) = plainSigns cs := by
  rw [plainSigns, signs_cons_of_ne (isSpecial_of_isMarkChar h).2, List.filter_cons_of_neg]
  · rfl
  · simp [Sign.isMark, h]

theorem plainSigns_escaped {c : Char} (h : isPunctuation c = true) (cs : List Char) :
    plainSigns ('\\' :: c :: cs) = ⟨c, true⟩ :: plainSigns cs := by
  rw [plainSigns, signs_escaped h, List.filter_cons_of_pos rfl]
  rfl

theorem plainSigns_plain {c : Char} (h : isSpecial c = false) (cs : List Char) :
    plainSigns (c :: cs) = ⟨c, false⟩ :: plainSigns cs := by
  have hmark : isMarkChar c = false := Bool.eq_false_iff.2 fun hmark =>
    Bool.eq_false_iff.1 h (isSpecial_of_isMarkChar hmark).1
  rw [plainSigns, signs_cons_of_ne (ne_backslash h), List.filter_cons_of_pos]
  · rfl
  · simp [Sign.isMark, hmark]

/-! ## Spelling -/

/-- Some Markdown spells a text. -/
inductive Spells : List Char → List Char → Prop where
  | nil : Spells [] []
  /-- A mark spells nothing. -/
  | mark {c : Char} {w t : List Char} (hc : isMarkChar c = true) :
      Spells w t → Spells (c :: w) t
  | escaped {c : Char} {w t : List Char} (hc : isPunctuation c = true) :
      Spells w t → Spells ('\\' :: c :: w) (c :: t)
  | plain {c : Char} {w t : List Char} (hc : isSpecial c = false) :
      Spells w t → Spells (c :: w) (c :: t)

namespace Spells

variable {w w' t t' : List Char}

theorem append (h : Spells w t) (h' : Spells w' t') : Spells (w ++ w') (t ++ t') := by
  induction h with
  | nil => exact h'
  | mark hc _ ih => exact .mark hc ih
  | escaped hc _ ih => exact .escaped hc ih
  | plain hc _ ih => exact .plain hc ih

/-- What spells a text can be taken apart, but not between a backslash and punctuation. -/
theorem split (h : Spells (w ++ w') t)
    (hcut : ∀ w₀, w = w₀ ++ ['\\'] → ∀ c ∈ w'.head?, isPunctuation c = false) :
    ∃ t₁ t₂, t = t₁ ++ t₂ ∧ Spells w t₁ ∧ Spells w' t₂ := by
  -- the cut stays where it is while one sign after the other is taken off the front
  generalize hv : w ++ w' = v at h
  induction h generalizing w with
  | nil =>
    obtain ⟨rfl, rfl⟩ := List.append_eq_nil_iff.1 hv
    exact ⟨[], [], rfl, .nil, .nil⟩
  | @mark c v t hc hspells ih =>
    rcases w with _ | ⟨a, w⟩
    · obtain rfl : w' = c :: v := hv
      exact ⟨[], t, rfl, .nil, .mark hc hspells⟩
    · obtain ⟨rfl, rfl⟩ := List.cons.inj hv
      obtain ⟨t₁, t₂, rfl, h₁, h₂⟩ := ih (fun w₀ h => hcut (a :: w₀) (congrArg _ h)) rfl
      exact ⟨t₁, t₂, rfl, .mark hc h₁, h₂⟩
  | @escaped c v t hc hspells ih =>
    rcases w with _ | ⟨a, _ | ⟨b, w⟩⟩
    · obtain rfl : w' = '\\' :: c :: v := hv
      exact ⟨[], c :: t, rfl, .nil, .escaped hc hspells⟩
    · obtain ⟨rfl, rfl⟩ := List.cons.inj hv
      exact absurd hc (Bool.eq_false_iff.1 (hcut [] rfl c rfl))
    · obtain ⟨rfl, hrest⟩ := List.cons.inj hv
      obtain ⟨rfl, rfl⟩ := List.cons.inj hrest
      obtain ⟨t₁, t₂, rfl, h₁, h₂⟩ := ih (fun w₀ h => hcut ('\\' :: b :: w₀) (by rw [h]; rfl)) rfl
      exact ⟨b :: t₁, t₂, rfl, .escaped hc h₁, h₂⟩
  | @plain c v t hc hspells ih =>
    rcases w with _ | ⟨a, w⟩
    · obtain rfl : w' = c :: v := hv
      exact ⟨[], c :: t, rfl, .nil, .plain hc hspells⟩
    · obtain ⟨rfl, rfl⟩ := List.cons.inj hv
      obtain ⟨t₁, t₂, rfl, h₁, h₂⟩ := ih (fun w₀ h => hcut (a :: w₀) (congrArg _ h)) rfl
      exact ⟨a :: t₁, t₂, rfl, .plain hc h₁, h₂⟩

theorem split_after (h : Spells (w ++ w') t) (hw : '\\' ∉ w) :
    ∃ t₁ t₂, t = t₁ ++ t₂ ∧ Spells w t₁ ∧ Spells w' t₂ :=
  h.split fun w₀ hlast => absurd (hlast ▸ List.mem_append_right w₀ List.mem_cons_self) hw

theorem of_cons {c : Char} (hc : isSpecial c = false) (h : Spells (c :: w) t) :
    ∃ t', t = c :: t' ∧ Spells w t' := by
  cases h with
  | mark hmark => exact absurd (isSpecial_of_isMarkChar hmark).1 (Bool.eq_false_iff.1 hc)
  | escaped => exact nomatch hc
  | plain _ h => exact ⟨_, rfl, h⟩

theorem eq_of_plain (h : Spells w t) (hw : ∀ c ∈ w, isSpecial c = false) : t = w := by
  induction w generalizing t with
  | nil => cases h; rfl
  | cons c w ih =>
    obtain ⟨t', rfl, h'⟩ := h.of_cons (hw c List.mem_cons_self)
    rw [ih h' fun d hd => hw d (List.mem_cons_of_mem _ hd)]

theorem shows (h : Spells w t) (ht : allBlank t = false) : allBlank w = false := by
  refine Bool.eq_false_iff.2 fun hw => Bool.eq_false_iff.1 ht ?_
  rwa [h.eq_of_plain fun c hc => isSpecial_of_isBlank (List.all_eq_true.1 hw c hc)]

theorem of_marks {delimiter : List Char} (h : delimiter.all isMarkChar = true) :
    Spells delimiter [] := by
  induction delimiter with
  | nil => exact .nil
  | cons c cs ih =>
    rw [List.all_cons, Bool.and_eq_true] at h
    exact .mark h.1 (ih h.2)

/-- A text with its special characters escaped spells the text. -/
theorem of_text (cs : List Char) : Spells (text cs) cs := by
  induction cs with
  | nil => exact .nil
  | cons c cs ih =>
    cases hc : isSpecial c with
    | true =>
      rw [text_cons_of_special hc]
      exact .escaped (isPunctuation_of_isSpecial hc) ih
    | false =>
      rw [text_cons_of_plain hc]
      exact .plain hc ih

/-! ### Marks -/

theorem not_mem_of_allBlank {cs : List Char} (h : allBlank cs = true) : '\\' ∉ cs :=
  fun hmem => Bool.false_ne_true (List.all_eq_true.1 h _ hmem)

/-- What spells a text still does when what shows of it is put between marks. -/
theorem surround {delimiter : List Char} (hdelimiter : delimiter.all isMarkChar = true)
    (h : Spells w t) (hshows : allBlank w = false) :
    Spells (leadingBlanks w ++ delimiter ++ trim w ++ delimiter ++ trailingBlanks w) t := by
  have hmarks : Spells delimiter [] := of_marks hdelimiter
  rw [← trimmed_between_of_shows hshows] at h
  obtain ⟨t₁₂, t₃, rfl, h₁₂, h₃⟩ := h.split fun w₀ _ c hc =>
    isPunctuation_of_isBlank
      (List.all_eq_true.1 (allBlank_trailingBlanks w) c (List.mem_of_mem_head? hc))
  obtain ⟨t₁, t₂, rfl, h₁, h₂⟩ := h₁₂.split_after (not_mem_of_allBlank (allBlank_leadingBlanks w))
  simpa using (((h₁.append hmarks).append h₂).append hmarks).append h₃

/-- Drawing a mark around what was written last keeps what is spelled. -/
theorem enclose {delimiter : List Char} (hdelimiter : delimiter.all isMarkChar = true)
    (before : List Char) (h : Spells w t) :
    ∃ w', DocExport.enclose delimiter before (before ++ w) = before ++ w' ∧ Spells w' t := by
  have hinner : (before ++ w).drop before.length = w := List.drop_left
  by_cases hblank : allBlank w = true
  · exact ⟨w, enclose_of_blank (hinner.symm ▸ hblank), h⟩
  · refine ⟨_, ?_, h.surround hdelimiter (Bool.eq_false_iff.2 hblank)⟩
    simp only [DocExport.enclose, hinner, if_neg hblank, List.take_left, List.append_assoc]

/-! ### Starts of lines -/

theorem escape_at {c : Char} (h : Spells (w ++ c :: w') t) (hw : '\\' ∉ w)
    (hc : isPunctuation c = true ∧ isSpecial c = false) : Spells (w ++ '\\' :: c :: w') t := by
  obtain ⟨t₁, t₂, rfl, h₁, h₂⟩ := h.split_after hw
  obtain ⟨t₃, rfl, h₃⟩ := h₂.of_cons hc.2
  exact h₁.append (.escaped hc.1 h₃)

/-- A backslash where a line would open a block keeps what the line spells. -/
theorem marker (h : Spells w t) : Spells (marker w) t := by
  cases w with
  | nil => exact h
  | cons c w =>
    rw [Escape.marker]
    split
    · rename_i hc
      exact h.escape_at (w := []) List.not_mem_nil (plain_of_opensBlock hc)
    · split
      · -- a number: the backslash goes between it and what closes it
        have hline : (c :: w).takeWhile Char.isDigit ++ (c :: w).dropWhile Char.isDigit = c :: w :=
          List.takeWhile_append_dropWhile
        split
        · exact h
        · rename_i p rest hafter
          split
          · rename_i hp
            rw [← hline, hafter] at h
            exact h.escape_at (fun hmem => absurd (List.all_eq_true.1 List.all_takeWhile _ hmem)
              (by decide)) (plain_of_closesNumber hp)
          · exact h
      · exact h

/-- So does doing it after the spaces that the line begins with. -/
theorem lineStart (h : Spells w t) : Spells (lineStart w) t := by
  rw [Escape.lineStart]
  split
  · have hline : indentation w ++ w.dropWhile (· == ' ') = w := List.takeWhile_append_dropWhile
    rw [← hline] at h
    obtain ⟨t₁, t₂, rfl, h₁, h₂⟩ := h.split_after fun hmem =>
      absurd (List.all_eq_true.1 List.all_takeWhile _ hmem) (by decide)
    exact h₁.append h₂.marker
  · exact h

/-- Escaping the starts of all lines keeps what is spelled. -/
theorem lineStarts (h : Spells w t) : Spells (lineStarts w) t := by
  have hpieces : ∀ (ps : List (List Char)) (t : List Char), Spells (join ps) t →
      Spells (join (ps.map Escape.lineStart)) t := by
    intro ps
    induction ps with
    | nil => exact fun t h => h
    | cons p ps ih =>
      intro t h
      cases ps with
      | nil => exact h.lineStart
      | cons q qs =>
        obtain ⟨t₁, t₂, rfl, h₁, h₂⟩ := h.split (w := p) fun w₀ _ c hc => by
          obtain rfl : '\n' = c := Option.some.inj hc
          rfl
        obtain ⟨t₃, rfl, h₃⟩ := h₂.of_cons rfl
        exact h₁.lineStart.append (.plain rfl (ih t₃ h₃))
  rw [Escape.lineStarts, mapPieces]
  exact hpieces _ _ (by rwa [join_pieces])

/-! ### Reading what is spelled -/

/-- What spells a text reads as that text. -/
theorem reads (h : Spells w t) : Reads w t := by
  induction h with
  | nil => exact ⟨rfl, rfl, fun s hs => absurd hs List.not_mem_nil⟩
  | @mark c w t hc _ ih =>
    have hplain : plainSigns (c :: w) = plainSigns w := plainSigns_mark hc w
    refine ⟨?_, ?_, ?_⟩
    · rw [dropMarks, hplain]
      exact ih.read
    · rw [dropMarks, hplain]
      exact ih.signs
    · rw [hplain]
      exact ih.escaped
  | @escaped c w t hc _ ih =>
    have hplain : plainSigns ('\\' :: c :: w) = ⟨c, true⟩ :: plainSigns w := plainSigns_escaped hc w
    have hmarks : dropMarks ('\\' :: c :: w) = '\\' :: c :: dropMarks w := by
      rw [dropMarks, hplain]
      rfl
    refine ⟨?_, ?_, ?_⟩
    · rw [hmarks, unescape, signs_escaped hc, List.map_cons]
      exact congrArg (c :: ·) ih.read
    · rw [hmarks, signs_escaped hc, ih.signs, hplain]
    · rw [hplain]
      exact List.forall_mem_cons.2 ⟨fun _ => rfl, ih.escaped⟩
  | @plain c w t hc _ ih =>
    have hne : c ≠ '\\' := ne_backslash hc
    have hplain : plainSigns (c :: w) = ⟨c, false⟩ :: plainSigns w := plainSigns_plain hc w
    have hmarks : dropMarks (c :: w) = c :: dropMarks w := by
      rw [dropMarks, hplain]
      rfl
    refine ⟨?_, ?_, ?_⟩
    · rw [hmarks, unescape, signs_cons_of_ne hne, List.map_cons]
      exact congrArg (c :: ·) ih.read
    · rw [hmarks, signs_cons_of_ne hne, ih.signs, hplain]
    · rw [hplain]
      exact List.forall_mem_cons.2
        ⟨fun hspecial => absurd hspecial (Bool.eq_false_iff.1 hc), ih.escaped⟩

/-- What spells a text without the line feeds at its end, and then one, spells the text up to the
line feeds at its end. -/
theorem dropFinalBreaks (h : Spells w t) :
    ∃ t', Spells (dropFinalBreaks w ++ ['\n']) t' ∧
      Text.dropFinalBreaks t' = Text.dropFinalBreaks t := by
  rw [← dropEnd_append_ending '\n' w] at h
  obtain ⟨t₁, t₂, rfl, h₁, h₂⟩ := h.split fun w₀ _ c hc => by
    obtain rfl := eq_of_mem_ending (List.mem_of_mem_head? hc)
    rfl
  have hbreaks : t₂ = ending '\n' w := h₂.eq_of_plain fun c hc => eq_of_mem_ending hc ▸ rfl
  refine ⟨t₁ ++ ['\n'], h₁.append (.plain rfl .nil), ?_⟩
  rw [hbreaks, dropFinalBreaks_eq, dropFinalBreaks_eq,
    dropEnd_append fun c hc => eq_of_mem_ending hc,
    dropEnd_append fun c hc => List.mem_singleton.1 hc]

end Spells

end Escape

/-! ## Inlines -/

/-- The character that a glyph shows, if it is a character of plain text. -/
def Glyph.textChar? : Glyph → Option Char
  | .text c => some c
  | _ => none

namespace Inline

mutual

/-- Whether an inline is text with nothing but marks around it. -/
def isStyledText : Inline → Bool
  | .text _ => true
  | .emphasis xs | .strong xs | .delete xs => allStyledText xs
  | _ => false

/-- Whether all of some inlines are such text. -/
def allStyledText : List Inline → Bool
  | [] => true
  | x :: xs => isStyledText x && allStyledText xs

end

/-- The text of some inlines, whatever is around it. -/
def textOf (xs : List Inline) : List Char := (glyphsAll xs).filterMap Glyph.textChar?

theorem startsWithLink_of_allStyledText {xs : List Inline} (h : allStyledText xs = true) :
    startsWithLink xs = false := by
  cases xs with
  | nil => rfl
  | cons x xs => cases x <;> first | rfl | exact nomatch h

mutual

/-- Styled text that follows something is written so that it spells its text. -/
theorem spells_write (slots : Slots) (before : List Char) : ∀ x : Inline, x.isStyledText = true →
    ∃ w, x.write {} slots before = before ++ w ∧
      Escape.Spells w (x.glyphs.filterMap Glyph.textChar?)
  | .text value, _ => by
    refine ⟨Escape.text value.toList, by rw [write], ?_⟩
    have htext : (glyphs (.text value)).filterMap Glyph.textChar? = value.toList := by
      rw [glyphs, List.filterMap_map]
      exact List.filterMap_some
    rw [htext]
    exact .of_text _
  | .emphasis xs, h => by
    obtain ⟨w, hw, hspells⟩ := spells_writeAll slots before xs h
    rw [write, hw]
    exact hspells.enclose rfl before
  | .strong xs, h => by
    obtain ⟨w, hw, hspells⟩ := spells_writeAll slots before xs h
    rw [write, hw]
    exact hspells.enclose rfl before
  | .delete xs, h => by
    obtain ⟨w, hw, hspells⟩ := spells_writeAll slots before xs h
    rw [write, hw]
    exact hspells.enclose rfl before

/-- So are several inlines. -/
theorem spells_writeAll (slots : Slots) (before : List Char) : ∀ xs : List Inline,
    allStyledText xs = true →
      ∃ w, writeAll {} slots before xs = before ++ w ∧ Escape.Spells w (textOf xs)
  | [], _ => ⟨[], (List.append_nil before).symm, .nil⟩
  | x :: xs, h => by
    obtain ⟨hx, hxs⟩ := Bool.and_eq_true_iff.1 h
    obtain ⟨w, hw, hspells⟩ := spells_write slots before x hx
    obtain ⟨w', hw', hspells'⟩ := spells_writeAll slots (before ++ w) xs hxs
    refine ⟨w ++ w', ?_, ?_⟩
    · rw [writeAll, startsWithLink_of_allStyledText hxs, Bool.and_false, if_neg Bool.false_ne_true,
        hw, hw', List.append_assoc]
    · rw [textOf, glyphsAll, List.filterMap_append]
      exact hspells.append hspells'

end

theorem spells_markdown (slots : Slots) {xs : List Inline} (h : allStyledText xs = true) :
    Escape.Spells (markdown {} slots xs) (textOf xs) := by
  obtain ⟨w, hw, hspells⟩ := spells_writeAll slots [] xs h
  rw [markdown, hw]
  exact hspells

end Inline

/-! ## Paragraphs -/

namespace Node

/-- A paragraph of styled text that shows reads as its text, and every special character of the text
is escaped in it.  By itself it ends in one line feed, however many its text ends in. -/
theorem reads_paragraph (slots : Slots) (m : Marker) {xs : List Inline}
    (hstyled : Inline.allStyledText xs = true) (hshows : allBlank (Inline.textOf xs) = false) :
    Escape.Reads (write {} slots m (.paragraph xs)) (Inline.textOf xs) ∧
    ∃ text, Escape.Reads (markdown {} slots (.paragraph xs)).toList text ∧
      dropFinalBreaks text = dropFinalBreaks (Inline.textOf xs) := by
  have hspells : Escape.Spells (Inline.markdown {} slots xs) (Inline.textOf xs) :=
    Inline.spells_markdown slots hstyled
  have hwritten : ∀ m, write {} slots m (.paragraph xs) =
      Escape.lineStarts (Inline.markdown {} slots xs) := by
    intro m
    rw [write, paragraphMarkdown, if_neg (Bool.eq_false_iff.1 (hspells.shows hshows))]
  have hlines : Escape.Spells (Escape.lineStarts (Inline.markdown {} slots xs))
      (Inline.textOf xs) := hspells.lineStarts
  refine ⟨?_, ?_⟩
  · rw [hwritten]
    exact hlines.reads
  · obtain ⟨text, htext, hbreaks⟩ := hlines.dropFinalBreaks
    have hends : dropFinalBreaks (write {} slots .primary (.paragraph xs)) ≠ [] := by
      rw [hwritten]
      exact dropFinalBreaks_ne_nil (hlines.shows hshows)
    refine ⟨text, ?_, hbreaks⟩
    rw [markdown, if_neg (by simpa using hends), String.toList_ofList, hwritten]
    exact htext.reads

/-- Text with blanks and special characters at the ends of its marks and its lines. -/
def starredLines : List Inline := [
  .text "1. a*b\n",
  .emphasis [.text " # \\_ ", .strong [.text " "], .delete [.text "~x "]],
  .text "\n2) y\n\n"]

/-- Such text is read back. -/
theorem reads_starredLines :
    Inline.allStyledText starredLines = true ∧
    allBlank (Inline.textOf starredLines) = false ∧
    Inline.textOf starredLines = "1. a*b\n # \\_  ~x \n2) y\n\n".toList ∧
    Escape.Reads (write {} {} .primary (.paragraph starredLines))
      (Inline.textOf starredLines) ∧
    ∃ text, Escape.Reads (markdown {} {} (.paragraph starredLines)).toList text ∧
      dropFinalBreaks text = dropFinalBreaks (Inline.textOf starredLines) := by
  have hstyled : Inline.allStyledText starredLines = true := by decide
  have hshows : allBlank (Inline.textOf starredLines) = false := by decide
  obtain ⟨hreads, hends⟩ := reads_paragraph {} .primary hstyled hshows
  exact ⟨hstyled, hshows, by decide, hreads, hends⟩

example : write {} {} .primary (.paragraph starredLines) =
    "1\\. a\\*b\n *# \\\\\\_  ~~\\~x~~* \n2\\) y\n\n".toList := by decide

end Node

end DocExport
