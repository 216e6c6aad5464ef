import DocExport.Proofs.WrittenLetters

/-!
# Exclamation marks before links

An exclamation mark directly before the bracket that opens a link makes the link an image, unless a
backslash escapes it.  A backslash before the exclamation mark may itself be escaped, so that it is
the reading from the front that decides, and what is written next to each other can only be read
apart where nothing is left to escape.

* **Main results.** `Escape.signs_append` (where a text can be read apart),
  `Letter.hasBareLink_append_iff` (which links of two texts become images),
  `Letter.hasBareLink_enclose` (marks around links change nothing) and `Letter.Torn.enclose` (but
  they tear an exclamation mark from its backslash).
-/

namespace DocExport

open Text

/-! ## Signs that are escaped by what stands before them -/

namespace Escape

/-- Whether the punctuation that comes next is escaped: a text ends in a backslash that is not
escaped itself. -/
def escapesNext (cs : List Char) : Bool := (signs cs).getLast? == some ⟨'\\', false⟩

/-- The last sign of a text shows its last character. -/
theorem map_char_getLast?_signs (cs : List Char) :
    (signs cs).getLast?.map Sign.char = cs.getLast? := by
  fun_induction signs cs with
  | case1 => rfl
  | case2 c => rfl
  | case3 c d cs h ih =>
    rw [List.getLast?_cons, List.getLast?_cons_cons, List.getLast?_cons, ← ih]
    cases (signs cs).getLast? <;> rfl
  | case4 c d cs h ih =>
    rw [List.getLast?_cons, List.getLast?_cons_cons, ← ih]
    cases hlast : (signs (d :: cs)).getLast? with
    | none =>
      rw [hlast, List.getLast?_cons] at ih
      exact absurd ih (by simp)
    | some s => rfl

theorem escapesNext_of_getLast? {cs : List Char} (h : cs.getLast? ≠ some '\\') :
    escapesNext cs = false := by
  refine beq_eq_false_iff_ne.2 fun hlast => h ?_
  rw [← map_char_getLast?_signs, hlast]
  rfl

/-- A text can be read apart where nothing escapes what comes next. -/
theorem signs_append {as : List Char} (h : escapesNext as = false) (bs : List Char) :
    signs (as ++ bs) = signs as ++ signs bs := by
  fun_induction signs as with
  | case1 => rfl
  | case2 c =>
    have hc : c ≠ '\\' := by
      rintro rfl
      exact absurd h (by decide)
    exact signs_cons_of_ne hc bs
  | case3 c d cs hescaped ih =>
    have hrest : escapesNext cs = false := by
      refine beq_eq_false_iff_ne.2 fun hlast => beq_eq_false_iff_ne.1 h ?_
      rw [signs, if_pos hescaped, List.getLast?_cons, hlast]
      rfl
    rw [List.cons_append, List.cons_append, signs, if_pos hescaped, ih hrest, List.cons_append]
  | case4 c d cs hplain ih =>
    have hrest : escapesNext (d :: cs) = false := by
      refine beq_eq_false_iff_ne.2 fun hlast => beq_eq_false_iff_ne.1 h ?_
      rw [signs, if_neg hplain, List.getLast?_cons, hlast]
      rfl
    rw [List.cons_append, List.cons_append, signs, if_neg hplain, ← List.cons_append, ih hrest,
      List.cons_append]

/-- What is written later decides what comes next. -/
theorem escapesNext_append {as : List Char} (h : escapesNext as = false) (bs : List Char) :
    escapesNext (as ++ bs) = escapesNext bs := by
  rw [escapesNext, signs_append h, List.getLast?_append]
  cases hlast : (signs bs).getLast? with
  | none =>
    rw [escapesNext, hlast]
    exact h
  | some s =>
    rw [escapesNext, hlast]
    rfl

/-- An escaped text leaves nothing to escape. -/
theorem escapesNext_text (cs : List Char) : escapesNext (text cs) = false := by
  rw [escapesNext, signs_text, List.getLast?_map]
  cases cs.getLast? with
  | none => rfl
  | some c =>
    refine beq_eq_false_iff_ne.2 fun hc => ?_
    simp only [Option.map_some, Option.some.injEq, Sign.mk.injEq] at hc
    obtain ⟨rfl, hspecial⟩ := hc
    exact absurd hspecial (by decide)

end Escape

/-! ## Links that become images -/

namespace Letter

open Escape (escapesNext)

/-- An exclamation mark that no backslash escapes is written last. -/
def EndsBare (ls : List Letter) : Prop :=
  ∃ front, ls = front ++ [.plain '!'] ∧ escapesNext (spell front) = false

/-- Directly before a bracket that opens a link stands an exclamation mark that no backslash
escapes, so that the link is an image. -/
def HasBareLink (ls : List Letter) : Prop :=
  ∃ front back, ls = front ++ .plain '!' :: .opening :: back ∧ escapesNext (spell front) = false

/-- Whatever is written last, it is neither a backslash nor an exclamation mark. -/
def EndsQuiet (ls : List Letter) : Prop := ∀ c ∈ (spell ls).getLast?, c ≠ '\\' ∧ c ≠ '!'

variable {as bs ls : List Letter}

/-- A link that becomes an image does so before the cut, at the cut or after it. -/
theorem hasBareLink_append_iff : HasBareLink (as ++ bs) ↔
    HasBareLink as ∨ (EndsBare as ∧ bs.head? = some .opening) ∨
      ∃ front back, bs = front ++ .plain '!' :: .opening :: back ∧
        escapesNext (spell (as ++ front)) = false := by
  constructor
  · rintro ⟨front, back, h, hfront⟩
    rcases List.append_eq_append_iff.1 h with ⟨c, rfl, hbs⟩ | ⟨c, rfl, hc⟩
    · exact .inr (.inr ⟨c, back, hbs, hfront⟩)
    · rcases c with _ | ⟨a, _ | ⟨b, c⟩⟩
      · exact .inr (.inr ⟨[], back, hc.symm, by simpa using hfront⟩)
      · obtain ⟨rfl, rfl⟩ := List.cons.inj hc
        exact .inr (.inl ⟨⟨front, rfl, hfront⟩, rfl⟩)
      · obtain ⟨rfl, hrest⟩ := List.cons.inj hc
        obtain ⟨rfl, -⟩ := List.cons.inj hrest
        exact .inl ⟨front, c, rfl, hfront⟩
  · rintro (⟨front, back, rfl, hfront⟩ | ⟨⟨front, rfl, hfront⟩, hhead⟩ |
      ⟨front, back, rfl, hfront⟩)
    · exact ⟨front, back ++ bs, by simp, hfront⟩
    · obtain ⟨back, rfl⟩ := List.head?_eq_some_iff.1 hhead
      exact ⟨front, back, by simp, hfront⟩
    · exact ⟨as ++ front, back, by simp, hfront⟩

theorem not_hasBareLink (h : .opening ∉ ls) : ¬ HasBareLink ls := by
  rintro ⟨front, back, rfl, -⟩
  exact h (by simp)

theorem hasBareLink_append_plain (h : .opening ∉ bs) : HasBareLink (as ++ bs) ↔ HasBareLink as := by
  rw [hasBareLink_append_iff]
  refine or_iff_left ?_
  rintro (⟨-, hhead⟩ | ⟨front, back, rfl, -⟩)
  · exact h (List.mem_of_mem_head? hhead)
  · exact h (by simp)

theorem hasBareLink_append (h : escapesNext (spell as) = false) : HasBareLink (as ++ bs) ↔
    HasBareLink as ∨ (EndsBare as ∧ bs.head? = some .opening) ∨ HasBareLink bs := by
  rw [hasBareLink_append_iff]
  simp only [spell_append, Escape.escapesNext_append h, HasBareLink]

/-! ### Quiet ends -/

theorem EndsQuiet.append (h : EndsQuiet bs) (hne : bs ≠ []) (as : List Letter) :
    EndsQuiet (as ++ bs) := by
  have hspell : spell bs ≠ [] := by simpa [spell] using hne
  rw [EndsQuiet, spell_append, List.getLast?_append_of_ne_nil _ hspell]
  exact h

theorem EndsQuiet.escapesNext (h : EndsQuiet ls) : Escape.escapesNext (spell ls) = false :=
  Escape.escapesNext_of_getLast? fun hlast => (h _ hlast).1 rfl

theorem EndsQuiet.not_bang (h : EndsQuiet ls) : (spell ls).getLast? ≠ some '!' :=
  fun hlast => (h _ hlast).2 rfl

theorem EndsBare.getLast? (h : EndsBare ls) : (spell ls).getLast? = some '!' := by
  obtain ⟨front, rfl, -⟩ := h
  simp [spell, char]

/-- Blanks end quietly. -/
theorem endsQuiet_of_blank (h : allBlank (spell ls) = true) : EndsQuiet ls := by
  intro c hc
  have hblank : isBlank c = true := List.all_eq_true.1 h c (List.mem_of_getLast? hc)
  constructor
  · rintro rfl
    exact absurd hblank (by decide)
  · rintro rfl
    exact absurd hblank (by decide)

/-- The characters of marks end quietly. -/
theorem endsQuiet_of_marks {cs : List Char} (h : cs.all Escape.isMarkChar = true) :
    EndsQuiet (plainly cs) := by
  intro c hc
  rw [spell_plainly] at hc
  have hmark : Escape.isMarkChar c = true := List.all_eq_true.1 h c (List.mem_of_getLast? hc)
  refine ⟨(Escape.isSpecial_of_isMarkChar hmark).2, ?_⟩
  rintro rfl
  exact absurd hmark (by decide)

theorem opening_not_mem_of_blank (h : allBlank (spell ls) = true) : .opening ∉ ls := by
  intro hmem
  have hblank : isBlank '[' = true := List.all_eq_true.1 h _ (List.mem_map_of_mem hmem)
  exact absurd hblank (by decide)

/-- After what ends quietly and has no links, only what follows matters. -/
theorem hasBareLink_quiet_append (h : EndsQuiet as) (hplain : .opening ∉ as) :
    HasBareLink (as ++ bs) ↔ HasBareLink bs := by
  rw [hasBareLink_append h.escapesNext]
  constructor
  · rintro (has | ⟨hbare, -⟩ | hbs)
    · exact absurd has (not_hasBareLink hplain)
    · exact absurd hbare.getLast? h.not_bang
    · exact hbs
  · exact fun hbs => .inr (.inr hbs)

/-! ### Marks -/

variable {delimiter : List Char}

theorem endsQuiet_append_delimiter (hdelimiter : delimiter ≠ [])
    (hmarks : delimiter.all Escape.isMarkChar = true) (as : List Letter) :
    EndsQuiet (as ++ plainly delimiter) :=
  (endsQuiet_of_marks hmarks).append (by simpa [plainly] using hdelimiter) as

theorem enclose_nil (delimiter : List Char) (ls : List Letter) : enclose delimiter [] ls =
    if allBlank (spell ls) then ls else surround delimiter ls := by
  simp [enclose]

/-- Between delimiters, the same links become images. -/
theorem hasBareLink_enclose (hdelimiter : delimiter ≠ [])
    (hmarks : delimiter.all Escape.isMarkChar = true) :
    HasBareLink (enclose delimiter [] ls) ↔ HasBareLink ls := by
  rw [enclose_nil]
  split
  · rfl
  · rename_i hshows
    obtain ⟨lead, mid, trail, hls, hlead, -, htrail, hsurround⟩ :=
      surround_cut delimiter (Bool.eq_false_iff.2 hshows)
    have hleads : allBlank (spell lead) = true := hlead ▸ allBlank_leadingBlanks _
    have htrails : .opening ∉ trail :=
      opening_not_mem_of_blank (htrail ▸ allBlank_trailingBlanks _)
    have hopens : .opening ∉ lead := opening_not_mem_of_blank hleads
    have hmid : HasBareLink (lead ++ mid ++ trail) ↔ HasBareLink mid := by
      rw [hasBareLink_append_plain htrails,
        hasBareLink_quiet_append (endsQuiet_of_blank hleads) hopens]
    rw [hsurround, hls, hmid, hasBareLink_append_plain htrails,
      hasBareLink_append_plain (opening_not_mem_plainly _), hasBareLink_quiet_append]
    · exact endsQuiet_append_delimiter hdelimiter hmarks lead
    · simp [hopens, opening_not_mem_plainly]

/-- What shows ends quietly when delimiters are drawn around it. -/
theorem endsQuiet_surround (hdelimiter : delimiter ≠ [])
    (hmarks : delimiter.all Escape.isMarkChar = true) (hshows : allBlank (spell ls) = false) :
    EndsQuiet (surround delimiter ls) := by
  obtain ⟨lead, mid, trail, -, -, -, htrail, hsurround⟩ := surround_cut delimiter hshows
  rw [hsurround]
  by_cases hnil : trail = []
  · rw [hnil, List.append_nil]
    exact endsQuiet_append_delimiter hdelimiter hmarks _
  · refine (endsQuiet_of_blank ?_).append hnil _
    rw [htrail]
    exact allBlank_trailingBlanks _

/-- So does everything else. -/
theorem endsQuiet_enclose (hdelimiter : delimiter ≠ [])
    (hmarks : delimiter.all Escape.isMarkChar = true) (ls : List Letter) :
    EndsQuiet (enclose delimiter [] ls) := by
  rw [enclose_nil]
  split
  · rename_i hblank
    exact endsQuiet_of_blank hblank
  · rename_i hshows
    exact endsQuiet_surround hdelimiter hmarks (Bool.eq_false_iff.2 hshows)

/-- The bracket of a link is never the first letter of a mark. -/
theorem head?_enclose (hdelimiter : delimiter ≠ []) (ls : List Letter) :
    (enclose delimiter [] ls).head? ≠ some .opening := by
  intro hhead
  rw [enclose_nil] at hhead
  split at hhead
  · rename_i hblank
    exact opening_not_mem_of_blank hblank (List.mem_of_mem_head? hhead)
  · rename_i hshows
    obtain ⟨lead, mid, trail, -, hlead, -, -, hsurround⟩ :=
      surround_cut delimiter (Bool.eq_false_iff.2 hshows)
    have hfront : lead ++ plainly delimiter ≠ [] := by simp [plainly, hdelimiter]
    have hopens : .opening ∉ lead ++ plainly delimiter := by
      have hleads : .opening ∉ lead :=
        opening_not_mem_of_blank (hlead ▸ allBlank_leadingBlanks _)
      simp [hleads, opening_not_mem_plainly]
    rw [hsurround, List.append_assoc, List.append_assoc, List.head?_append_of_ne_nil _ hfront]
      at hhead
    exact hopens (List.mem_of_mem_head? hhead)

/-! ### Exclamation marks that are escaped too early -/

/-- An exclamation mark that was escaped for the sake of a link: the backslash and the exclamation
mark are torn apart by marks that have been drawn in between. -/
def Torn (marks : List Char) (ls : List Letter) : Prop :=
  ∃ rest, ls = plainly ('\\' :: (marks ++ ['!'])) ++ .opening :: rest

theorem Torn.ne_nil {marks : List Char} (h : Torn marks ls) : ls ≠ [] := by
  obtain ⟨rest, rfl⟩ := h
  simp

theorem Torn.shows {marks : List Char} (h : Torn marks ls) :
    allBlank (spell (ls.drop 1)) = false := by
  obtain ⟨rest, rfl⟩ := h
  refine Bool.eq_false_iff.2 fun hblank => opening_not_mem_of_blank hblank ?_
  simp [plainly]

theorem Torn.enclose_eq {marks : List Char} (h : Torn marks ls) (delimiter : List Char) :
    Letter.enclose delimiter [.plain '!'] ls = ls.take 1 ++ surround delimiter (ls.drop 1) := by
  have hshows : allBlank (spell (ls.drop [Letter.plain '!'].length)) = false := h.shows
  exact enclose_of_shows delimiter hshows

/-- A mark that is drawn after the backslash tears the two apart. -/
theorem Torn.enclose {marks : List Char} (hmarks : marks.all Escape.isMarkChar = true)
    (h : Torn marks ls) : Torn (delimiter ++ marks) (enclose delimiter [.plain '!'] ls) := by
  rw [h.enclose_eq]
  have hshows := h.shows
  obtain ⟨rest, rfl⟩ := h
  have hinner : (plainly ('\\' :: (marks ++ ['!'])) ++ .opening :: rest).drop 1 =
      plainly (marks ++ ['!']) ++ .opening :: rest := rfl
  rw [hinner] at hshows
  obtain ⟨lead, mid, trail, hcut, hlead, -, htrail, hsurround⟩ := surround_cut delimiter hshows
  -- nothing blank stands at the front, and the bracket is not among the blanks at the end
  have hnolead : lead = [] := by
    have hfirst : leadingBlanks (spell (plainly (marks ++ ['!']) ++ .opening :: rest)) = [] := by
      rw [spell_append, spell_plainly]
      cases marks with
      | nil => rfl
      | cons c cs =>
        have hc : Escape.isMarkChar c = true := List.all_eq_true.1 hmarks c List.mem_cons_self
        have hblank : isBlank c = false := Bool.eq_false_iff.2 fun hblank =>
          Bool.eq_false_iff.1 (Escape.isSpecial_of_isBlank hblank)
            (Escape.isSpecial_of_isMarkChar hc).1
        simp [leadingBlanks, hblank]
    rw [hfirst] at hlead
    exact List.map_eq_nil_iff.1 hlead
  have htrails : .opening ∉ trail := opening_not_mem_of_blank (htrail ▸ allBlank_trailingBlanks _)
  obtain ⟨rest', rfl⟩ : ∃ rest', mid = plainly (marks ++ ['!']) ++ .opening :: rest' := by
    rw [hnolead, List.nil_append] at hcut
    rcases List.append_eq_append_iff.1 hcut with ⟨c, rfl, hc⟩ | ⟨c, hplain, rfl⟩
    · rcases c with _ | ⟨a, c⟩
      · obtain rfl : .opening :: rest = trail := hc
        exact absurd List.mem_cons_self htrails
      · obtain ⟨rfl, -⟩ := List.cons.inj hc
        exact ⟨c, rfl⟩
    · exact absurd (by simp) htrails
  refine ⟨rest' ++ plainly delimiter ++ trail, ?_⟩
  rw [hinner, hsurround, hnolead]
  simp [plainly]

/-- The mark ends quietly. -/
theorem Torn.endsQuiet_enclose {marks : List Char} (hdelimiter : delimiter ≠ [])
    (hall : delimiter.all Escape.isMarkChar = true) (h : Torn marks ls) :
    EndsQuiet (Letter.enclose delimiter [.plain '!'] ls) := by
  have hquiet : EndsQuiet (surround delimiter (ls.drop 1)) :=
    endsQuiet_surround hdelimiter hall h.shows
  rw [h.enclose_eq]
  refine hquiet.append (fun hnil => ?_) _
  obtain ⟨lead, mid, trail, -, -, -, -, hsurround⟩ := surround_cut delimiter h.shows
  rw [hsurround] at hnil
  simp [plainly, hdelimiter] at hnil

theorem Torn.hasBareLink {marks : List Char} (hne : marks ≠ [])
    (hmarks : marks.all Escape.isMarkChar = true) (h : Torn marks ls) (front : List Letter) :
    HasBareLink (front ++ ls) := by
  obtain ⟨rest, rfl⟩ := h
  refine ⟨front ++ [.plain '\\'] ++ plainly marks, rest, by simp [plainly], ?_⟩
  exact (endsQuiet_append_delimiter hne hmarks _).escapesNext

end Letter

end DocExport
