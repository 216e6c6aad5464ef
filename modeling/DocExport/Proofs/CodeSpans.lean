import DocExport.Markdown.Phrasing

/-!
# Code spans read back

A reader of code inside a line counts the backticks that it begins with and looks for the next row
of exactly as many.  If what stands between the two rows begins and ends with a space, and is more
than spaces, the reader takes one space off either end.  The writer makes use of this: spaces
keep apart code and delimiters where both are backticks.  It does not provide for code that itself
begins and ends with a space, which loses the two.

* **Main results.** `CodeSpan.body?_append` (no row of backticks in the code is taken for the
  closing one), `CodeSpan.read?_codeSpan` (what is read, whatever the code) and
  `Inline.read?_code_iff` (which code is read as it was).
-/

namespace DocExport

open Text

namespace CodeSpan

/-! ## Reading -/

/-- What stands before the next row of exactly `width` backticks, and what stands after that row,
where `ticks` backticks have been read directly before. -/
def body? (width ticks : Nat) : List Char → Option (List Char × List Char)
  | [] => if ticks = width then some ([], []) else none
  | c :: cs =>
      if c = '\x60' then body? width (ticks + 1) cs
      else if ticks = width then some ([], c :: cs)
      else
        (body? width 0 cs).map fun (body, after) =>
          (List.replicate ticks '\x60' ++ c :: body, after)

/-- Whether some code begins and ends with a space and is more than spaces. -/
def isSpaced (code : List Char) : Bool :=
  code.head? == some ' ' && code.getLast? == some ' ' && code.any (· != ' ')

/-- What a reader takes for the code between two rows: one space is taken off either end of what
is spaced. -/
def unspaced (body : List Char) : List Char :=
  if isSpaced body then body.tail.dropLast else body

/-- The code of a span that a text begins with, and what follows the span. -/
def read? (cs : List Char) : Option (List Char × List Char) :=
  let width := (cs.takeWhile (· == '\x60')).length
  if width = 0 then none
  else
    (body? width 0 (cs.dropWhile (· == '\x60'))).map fun (body, after) => (unspaced body, after)

/-! ## Rows of backticks -/

/-- A row is closed by what does not go on with it. -/
theorem body?_row {width ticks n : Nat} {after : List Char} (h : ticks + n = width)
    (hafter : after.head? ≠ some '\x60') :
    body? width ticks (List.replicate n '\x60' ++ after) = some ([], after) := by
  induction n generalizing ticks with
  | zero =>
    have hticks : ticks = width := h
    cases after with
    | nil => simp [body?, hticks]
    | cons c cs =>
      have hc : c ≠ '\x60' := fun hc => hafter (congrArg some hc)
      simp [body?, hc, hticks]
  | succ n ih =>
    rw [List.replicate_succ, List.cons_append, body?, if_pos rfl]
    exact ih (by omega)

/-- Shorter rows are passed over together with the character after them. -/
theorem body?_append {width ticks : Nat} {body : List Char} {c : Char} (hc : c ≠ '\x60')
    (h : longestRunAfter '\x60' ticks body < width) (cs : List Char) :
    body? width ticks (body ++ c :: cs) =
      (body? width 0 cs).map fun (later, after) =>
        (List.replicate ticks '\x60' ++ body ++ c :: later, after) := by
  induction body generalizing ticks with
  | nil =>
    have hticks : ticks ≠ width := Nat.ne_of_lt h
    simp [body?, hc, hticks]
  | cons x body ih =>
    rw [longestRunAfter] at h
    by_cases hx : x = '\x60'
    · subst hx
      rw [if_pos rfl] at h
      rw [List.cons_append, body?, if_pos rfl, ih h, List.replicate_succ']
      simp
    · rw [if_neg hx, Nat.max_lt] at h
      have hticks : ticks ≠ width := Nat.ne_of_lt h.1
      rw [List.cons_append, body?, if_neg hx, if_neg hticks, ih h.2]
      simp [Function.comp_def]

/-- What does not end in a backtick, and holds no row as long as the delimiters, is what stands
between them. -/
theorem body?_delimited {width : Nat} {body after : List Char}
    (hlast : ∃ front c, body = front ++ [c] ∧ c ≠ '\x60') (h : longestRun '\x60' body < width)
    (hafter : after.head? ≠ some '\x60') :
    body? width 0 (body ++ (List.replicate width '\x60' ++ after)) = some (body, after) := by
  obtain ⟨front, c, rfl, hc⟩ := hlast
  have hfront : longestRun '\x60' front < width := by
    refine Nat.lt_of_le_of_lt ?_ h
    exact longestRun_le_of_infix '\x60' (List.prefix_append front [c]).isInfix
  rw [List.append_assoc, List.singleton_append, body?_append hc hfront,
    body?_row (Nat.zero_add width) hafter]
  simp

/-! ## What is written -/

/-- The spaces that keep code apart from its delimiters. -/
def gap (code : List Char) : List Char :=
  if code.head? = some '\x60' ∨ code.getLast? = some '\x60' then [' '] else []

theorem longestRunAfter_append_space (ticks : Nat) (cs : List Char) :
    longestRunAfter '\x60' ticks (cs ++ [' ']) = longestRunAfter '\x60' ticks cs := by
  induction cs generalizing ticks with
  | nil => simp [longestRunAfter]
  | cons c cs ih =>
    rw [List.cons_append, longestRunAfter, longestRunAfter, ih, ih]

theorem longestRun_gap (code : List Char) :
    longestRun '\x60' (gap code ++ code ++ gap code) = longestRun '\x60' code := by
  unfold gap
  split
  · simp [longestRun, longestRunAfter, longestRunAfter_append_space]
  · simp

/-- What stands between the delimiters ends in something else than a backtick. -/
theorem last_gap {code : List Char} (h : code ≠ []) :
    ∃ front c, gap code ++ code ++ gap code = front ++ [c] ∧ c ≠ '\x60' := by
  by_cases hticks : code.head? = some '\x60' ∨ code.getLast? = some '\x60'
  · exact ⟨gap code ++ code, ' ', by rw [gap, if_pos hticks], by decide⟩
  · refine ⟨code.dropLast, code.getLast h, ?_, ?_⟩
    · rw [gap, if_neg hticks, List.nil_append, List.append_nil, List.dropLast_concat_getLast]
    · intro hlast
      apply hticks
      right
      rw [List.getLast?_eq_some_getLast h, hlast]

/-- It begins with something else, too. -/
theorem head_gap {code : List Char} (h : code ≠ []) :
    ∃ c back, gap code ++ code ++ gap code = c :: back ∧ c ≠ '\x60' := by
  by_cases hticks : code.head? = some '\x60' ∨ code.getLast? = some '\x60'
  · exact ⟨' ', code ++ gap code, by simp [gap, if_pos hticks], by decide⟩
  · obtain ⟨c, cs, rfl⟩ := List.exists_cons_of_ne_nil h
    refine ⟨c, cs, by rw [gap, if_neg hticks, List.nil_append, List.append_nil], ?_⟩
    intro hc
    exact hticks (.inl (congrArg some hc))

/-- The spaces that were put around the code are taken off, and if there are none, the code is
what a reader makes of it. -/
theorem unspaced_gap (code : List Char) :
    unspaced (gap code ++ code ++ gap code) = unspaced code := by
  by_cases hticks : code.head? = some '\x60' ∨ code.getLast? = some '\x60'
  · have hmem : '\x60' ∈ code := by
      rcases hticks with h | h
      · exact List.mem_of_head? h
      · exact List.mem_of_getLast? h
    have hspaced : isSpaced (' ' :: code ++ [' ']) = true := by
      have hlast : (' ' :: code ++ [' ']).getLast? = some ' ' := List.getLast?_concat
      have hshows : (' ' :: code ++ [' ']).any (· != ' ') = true :=
        List.any_eq_true.2 ⟨'\x60', by simp [hmem], rfl⟩
      rw [isSpaced, hlast, hshows]
      rfl
    have hcode : isSpaced code = false := by
      rcases hticks with h | h <;> simp [isSpaced, h]
    rw [gap, if_pos hticks, List.singleton_append, unspaced, if_pos hspaced, unspaced, hcode]
    simp
  · rw [gap, if_neg hticks, List.nil_append, List.append_nil]

/-- A reader of a code span finds the code less a space at either end if it is spaced, and what
follows the span. -/
theorem read?_codeSpan {code after : List Char} (hcode : code ≠ [])
    (hafter : after.head? ≠ some '\x60') :
    read? (codeSpan code ++ after) = some (unspaced code, after) := by
  let width := longestRun '\x60' code + 1
  let body := gap code ++ code ++ gap code
  have hbody : body? width 0 (body ++ (List.replicate width '\x60' ++ after)) =
      some (body, after) :=
    body?_delimited (last_gap hcode) (by rw [longestRun_gap]; omega) hafter
  have hhead : (body ++ (List.replicate width '\x60' ++ after)).head? ≠ some '\x60' := by
    obtain ⟨c, back, hcons, hc⟩ := head_gap hcode
    simpa [body, hcons] using hc
  have hwritten : codeSpan code ++ after =
      List.replicate width '\x60' ++ (body ++ (List.replicate width '\x60' ++ after)) := by
    simp [codeSpan, gap, width, body]
  rw [hwritten, read?, takeWhile_replicate_append hhead, dropWhile_replicate_append hhead,
    List.length_replicate, if_neg (Nat.succ_ne_zero _), hbody]
  show some (unspaced body, after) = some (unspaced code, after)
  rw [unspaced_gap]

/-- A reader makes of code what it is exactly if it is not spaced. -/
theorem unspaced_eq_self_iff (code : List Char) :
    unspaced code = code ↔ isSpaced code = false := by
  unfold unspaced
  by_cases h : isSpaced code = true
  · have hcode : code ≠ [] := by
      rintro rfl
      exact nomatch h
    have hshorter : code.tail.dropLast.length ≠ code.length := by
      have := List.length_pos_iff.2 hcode
      rw [List.length_dropLast, List.length_tail]
      omega
    rw [if_pos h, h]
    exact ⟨fun heq => absurd (congrArg List.length heq) hshorter, fun h => nomatch h⟩
  · rw [if_neg h, Bool.eq_false_iff.2 h]
    simp

end CodeSpan

/-! ## Code inside a line -/

namespace Inline

/-- **Code is read back, with what follows it, exactly if it does not begin and end with a space,
unless it is nothing but spaces.** -/
theorem read?_code_iff (style : Style) (slots : Slots) (before after : List Char) {value : String}
    (hvalue : value.toList ≠ []) (hafter : after.head? ≠ some '\x60') :
    ∃ span, write style slots before (.code value) = before ++ span ∧
      (CodeSpan.read? (span ++ after) = some (value.toList, after) ↔
        ¬ (value.toList.head? = some ' ' ∧ value.toList.getLast? = some ' ' ∧
          ∃ c ∈ value.toList, c ≠ ' ')) := by
  refine ⟨codeSpan value.toList, by rw [write], ?_⟩
  rw [CodeSpan.read?_codeSpan hvalue hafter, Option.some.injEq, Prod.mk.injEq,
    and_iff_left rfl, CodeSpan.unspaced_eq_self_iff, CodeSpan.isSpaced, ← Bool.not_eq_true]
  simp [and_assoc]

/-- Code that holds backticks, begins with one and ends with a space. -/
def tickedLetter : String := "\x60 a\x60\x60 "

/-- Such code is read back, although it stands between backticks and next to others. -/
theorem read?_code_tickedLetter :
    tickedLetter.toList ≠ [] ∧ ",\x60".toList.head? ≠ some '\x60' ∧
    ∃ span, write {} {} "b\x60".toList (.code tickedLetter) = "b\x60".toList ++ span ∧
      CodeSpan.read? (span ++ ",\x60".toList) = some (tickedLetter.toList, ",\x60".toList) := by
  have hvalue : tickedLetter.toList ≠ [] := by decide
  have hafter : ",\x60".toList.head? ≠ some '\x60' := by decide
  obtain ⟨span, hspan, hread⟩ := read?_code_iff {} {} "b\x60".toList ",\x60".toList hvalue hafter
  exact ⟨hvalue, hafter, span, hspan, hread.2 (by decide)⟩

/-- A letter between two spaces loses them. -/
theorem spacedLetter_loses_spaces :
    markdown {} {} [.code " a "] = "\x60 a \x60".toList ∧
      CodeSpan.read? (markdown {} {} [.code " a "]) = some ("a".toList, []) := by
  decide

end Inline

end DocExport
