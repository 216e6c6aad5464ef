import DocExport.Text.Blank
import DocExport.Text.Chars

/-!
# Lines

A text can be cut at its line feeds in two ways.  The *pieces* are what stands between line
feeds, so that joining them with line feeds gives the text back (`join_pieces`).  The *lines*
are what a reader sees: a line feed ends a line rather than separating two, so a text that
ends in one has no empty last line, and a carriage return directly before the line feed
belongs to the line's end.

* **Main results.** `join_pieces` (cutting into pieces loses nothing), `pieces_append_break`
  (a line feed parts pieces), `pieces_intercalate` and `pieces_join` (lines put together are cut
  into the same lines), `pieces_mapPieces` (what is done to each piece is done to the pieces), and
  `not_mem_of_mem_pieces` and `not_mem_of_mem_lines` (no piece and no line holds a line feed).
-/

namespace DocExport.Text

/-! ## Pieces -/

/-- What stands between the line feeds of a text; there is always at least one piece. -/
def pieces : List Char → List (List Char)
  | [] => [[]]
  | c :: cs =>
      if c = '\n' then [] :: pieces cs
      else
        match pieces cs with
        | [] => [[c]]
        | p :: ps => (c :: p) :: ps

/-- Put pieces back together with a line feed between any two. -/
def join : List (List Char) → List Char
  | [] => []
  | [p] => p
  | p :: ps => p ++ '\n' :: join ps

/-- Change every piece of a text on its own. -/
def mapPieces (f : List Char → List Char) (cs : List Char) : List Char :=
  join ((pieces cs).map f)

theorem pieces_ne_nil (cs : List Char) : pieces cs ≠ [] := by
  cases cs with
  | nil => simp [pieces]
  | cons c cs =>
    by_cases hc : c = '\n'
    · simp [pieces, hc]
    · cases hp : pieces cs <;> simp [pieces, hc, hp]

/-- Joining the pieces of a text gives the text back. -/
theorem join_pieces (cs : List Char) : join (pieces cs) = cs := by
  induction cs with
  | nil => rfl
  | cons c cs ih =>
    have hne := pieces_ne_nil cs
    by_cases hc : c = '\n'
    · cases hp : pieces cs with
      | nil => exact absurd hp hne
      | cons p ps =>
        rw [hp] at ih
        rw [pieces, if_pos hc, hp, join, ih, List.nil_append, hc]
        exact List.cons_ne_nil _ _
    · cases hp : pieces cs with
      | nil => exact absurd hp hne
      | cons p ps =>
        rw [hp] at ih
        simp only [pieces, if_neg hc, hp]
        cases ps with
        | nil => exact congrArg (c :: ·) ih
        | cons q qs => exact congrArg (c :: ·) ih

/-- Every piece is a part of what the pieces are put together to. -/
theorem infix_join_of_mem {p : List Char} {ps : List (List Char)} (hp : p ∈ ps) :
    p <:+: join ps := by
  induction ps with
  | nil => exact absurd hp List.not_mem_nil
  | cons q ps ih =>
    cases ps with
    | nil => exact List.mem_singleton.1 hp ▸ List.infix_refl q
    | cons r rs =>
      rcases List.mem_cons.1 hp with rfl | hlater
      · exact (List.prefix_append p _).isInfix
      · exact ((ih hlater).trans (List.suffix_cons '\n' _).isInfix).trans
          (List.suffix_append q _).isInfix

theorem infix_of_mem_pieces {cs p : List Char} (hp : p ∈ pieces cs) : p <:+: cs := by
  have h := infix_join_of_mem hp
  rwa [join_pieces] at h

/-- No piece holds a line feed. -/
theorem not_mem_of_mem_pieces {cs p : List Char} (hp : p ∈ pieces cs) : '\n' ∉ p := by
  induction cs generalizing p with
  | nil => simp_all [pieces]
  | cons c cs ih =>
    by_cases hc : c = '\n'
    · simp only [pieces, hc, if_pos, List.mem_cons] at hp
      rcases hp with rfl | hp
      · simp
      · exact ih hp
    · cases hq : pieces cs with
      | nil => exact absurd hq (pieces_ne_nil cs)
      | cons q qs =>
        simp only [pieces, hc, if_neg, hq, not_false_eq_true, List.mem_cons] at hp
        rcases hp with rfl | hp
        · have := ih (p := q) (by simp [hq])
          simp only [List.mem_cons, not_or]
          exact ⟨fun h => hc h.symm, this⟩
        · exact ih (by simp [hq, hp])

theorem pieces_of_not_mem {p : List Char} (h : '\n' ∉ p) : pieces p = [p] := by
  induction p with
  | nil => rfl
  | cons c p ih =>
    rw [List.mem_cons, not_or] at h
    rw [pieces, if_neg (Ne.symm h.1), ih h.2]

/-- A line feed parts the pieces of what stands before it from those of what stands after it. -/
theorem pieces_append_break (as bs : List Char) :
    pieces (as ++ '\n' :: bs) = pieces as ++ pieces bs := by
  induction as with
  | nil => simp [pieces]
  | cons c as ih =>
    by_cases hc : c = '\n'
    · rw [List.cons_append, pieces, if_pos hc, pieces, if_pos hc, ih, List.cons_append]
    · cases hp : pieces as with
      | nil => exact absurd hp (pieces_ne_nil as)
      | cons p ps =>
        rw [List.cons_append, pieces, if_neg hc, ih, pieces, if_neg hc, hp]
        rfl

/-- The lines of a written text as they stand between its line feeds; an empty text has none. -/
def rows (cs : List Char) : List (List Char) := if cs.isEmpty then [] else pieces cs

theorem join_rows (cs : List Char) : join (rows cs) = cs := by
  cases cs with
  | nil => rfl
  | cons c cs => exact join_pieces (c :: cs)

/-- Lines after one another, each behind a line feed, are the pieces again. -/
theorem pieces_append_flatMap {p : List Char} {ps : List (List Char)} (hp : '\n' ∉ p)
    (hps : ∀ q ∈ ps, '\n' ∉ q) : pieces (p ++ ps.flatMap fun q => '\n' :: q) = p :: ps := by
  induction ps generalizing p with
  | nil => rw [List.flatMap_nil, List.append_nil, pieces_of_not_mem hp]
  | cons q ps ih =>
    rw [List.flatMap_cons, List.cons_append, pieces_append_break, pieces_of_not_mem hp,
      ih (hps q (List.mem_cons_self ..)) fun q hq => hps q (List.mem_cons_of_mem _ hq)]
    rfl

theorem intercalate_cons (sep p : List Char) (ps : List (List Char)) :
    List.intercalate sep (p :: ps) = p ++ ps.flatMap fun q => sep ++ q := by
  induction ps generalizing p with
  | nil => simp
  | cons q ps ih => rw [List.intercalate_cons_cons, ih, List.flatMap_cons, List.append_assoc,
      List.append_assoc]

/-- Lines with a line feed between any two of them are the pieces again. -/
theorem pieces_intercalate {ps : List (List Char)} (hne : ps ≠ []) (hps : ∀ q ∈ ps, '\n' ∉ q) :
    pieces (List.intercalate ['\n'] ps) = ps := by
  obtain ⟨p, ps, rfl⟩ := List.exists_cons_of_ne_nil hne
  rw [intercalate_cons]
  exact pieces_append_flatMap (hps p List.mem_cons_self) fun q hq =>
    hps q (List.mem_cons_of_mem _ hq)

/-- Pieces that are put together are found again. -/
theorem pieces_join {ps : List (List Char)} (hne : ps ≠ []) (hps : ∀ q ∈ ps, '\n' ∉ q) :
    pieces (join ps) = ps := by
  induction ps with
  | nil => exact absurd rfl hne
  | cons p ps ih =>
    obtain ⟨hp, hrest⟩ := List.forall_mem_cons.1 hps
    cases ps with
    | nil => exact pieces_of_not_mem hp
    | cons q qs =>
      rw [join, pieces_append_break, pieces_of_not_mem hp, ih (List.cons_ne_nil q qs) hrest]
      · rfl
      · exact List.cons_ne_nil q qs

/-- Changing every piece on its own changes the pieces, if it brings no line feed into them. -/
theorem pieces_mapPieces {f : List Char → List Char} (hf : ∀ p, '\n' ∉ p → '\n' ∉ f p)
    (cs : List Char) : pieces (mapPieces f cs) = (pieces cs).map f := by
  refine pieces_join (by simpa using pieces_ne_nil cs) fun q hq => ?_
  obtain ⟨p, hp, rfl⟩ := List.mem_map.1 hq
  exact hf p (not_mem_of_mem_pieces hp)

/-- A text ends as it did if each of its pieces does. -/
theorem getLast?_mapPieces {f : List Char → List Char} (hf : ∀ p, (f p).getLast? = p.getLast?)
    (cs : List Char) : (mapPieces f cs).getLast? = cs.getLast? := by
  have hjoin : ∀ ps : List (List Char), (join (ps.map f)).getLast? = (join ps).getLast? := by
    intro ps
    induction ps with
    | nil => rfl
    | cons p ps ih =>
      cases ps with
      | nil => exact hf p
      | cons q qs =>
        have hmapped : join ((p :: q :: qs).map f) = f p ++ '\n' :: join ((q :: qs).map f) := rfl
        rw [hmapped, join, List.getLast?_append, List.getLast?_append, List.getLast?_cons,
          List.getLast?_cons, ih]
        · rfl
        · exact List.cons_ne_nil q qs
  rw [mapPieces, hjoin, join_pieces]

/-! ## Lines -/

/-- A piece that a line feed ended, without the carriage return it may end in. -/
def dropReturn (p : List Char) : List Char :=
  if p.getLast? = some '\r' then p.dropLast else p

/-- The lines of a text: every piece ended by a line feed, less a final carriage return, and
then whatever follows the last line feed, if anything does. -/
def lines (cs : List Char) : List (List Char) :=
  let ps := pieces cs
  let rest := ps.getLastD []
  ps.dropLast.map dropReturn ++ (if rest.isEmpty then [] else [rest])

/-- No line holds a line feed. -/
theorem not_mem_of_mem_lines {cs line : List Char} (h : line ∈ lines cs) : '\n' ∉ line := by
  have hreturn : ∀ p : List Char, '\n' ∉ p → '\n' ∉ dropReturn p := by
    intro p hp
    rw [dropReturn]
    split
    · exact fun hmem => hp (List.dropLast_subset p hmem)
    · exact hp
  rw [lines] at h
  rcases List.mem_append.1 h with hended | hrest
  · obtain ⟨p, hp, rfl⟩ := List.mem_map.1 hended
    exact hreturn p (not_mem_of_mem_pieces (List.dropLast_subset _ hp))
  · split at hrest
    · exact absurd hrest List.not_mem_nil
    · have hlast : (pieces cs).getLastD [] ∈ pieces cs := by
        rw [List.getLastD_eq_getLast?, List.getLast?_eq_some_getLast (pieces_ne_nil cs)]
        exact List.getLast_mem _
      rw [List.mem_singleton.1 hrest]
      exact not_mem_of_mem_pieces hlast

/-- A text less one line feed at its end, if it has one. -/
def dropFinalBreak (cs : List Char) : List Char :=
  if cs.getLast? = some '\n' then cs.dropLast else cs

/-- A text less every line feed at its end. -/
def dropFinalBreaks (cs : List Char) : List Char :=
  (cs.reverse.dropWhile (· == '\n')).reverse

theorem dropFinalBreaks_eq (cs : List Char) : dropFinalBreaks cs = dropEnd '\n' cs := rfl

/-- Dropping the line feeds at the end of a text brings no new piece. -/
theorem mem_pieces_of_dropFinalBreaks {cs p : List Char} (h : p ∈ pieces (dropFinalBreaks cs)) :
    p ∈ pieces cs := by
  have hsplit := dropEnd_append_ending '\n' cs
  rw [← dropFinalBreaks_eq] at hsplit
  rw [← hsplit]
  cases hend : ending '\n' cs with
  | nil => rwa [List.append_nil]
  | cons c rest =>
    have hc : c = '\n' := eq_of_mem_ending (hend ▸ List.mem_cons_self)
    rw [hc, pieces_append_break]
    exact List.mem_append_left _ h

theorem dropFinalBreaks_ne_nil {cs : List Char} (h : allBlank cs = false) :
    dropFinalBreaks cs ≠ [] := by
  intro hnil
  apply Bool.eq_false_iff.1 h
  rw [← dropEnd_append_ending '\n' cs, ← dropFinalBreaks_eq, hnil, List.nil_append]
  exact List.all_eq_true.2 fun c hc => eq_of_mem_ending hc ▸ rfl

end DocExport.Text
