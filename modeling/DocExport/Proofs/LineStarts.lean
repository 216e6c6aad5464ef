import DocExport.Markdown.Flow
import Mathlib.Data.List.Forall2

/-!
# Starts of lines

At the start of a line, after at most three spaces, a sign can open a heading, a quotation, a list
or an underline, and digits can be the number of a list item.  Text must not do so by accident.  Its
lines are therefore escaped once they are written, whatever marks, code, formulas and links have
brought to their starts.

* **Main results.** `Escape.marker_of_opener` (where the backslash goes), `Escape.pieces_lineStarts`
  and `Escape.escapes_lineStart` (a text is escaped line by line, and how), and
  `Node.opensNothing_of_isInlines` (no line of inline content opens a block).
-/

namespace DocExport

open Text

namespace Escape

variable {line cs : List Char}

/-! ## Lines that open a block -/

/-- What opens a block: a sign, or digits and what makes them the number of a list item. -/
inductive Opener : List Char → Prop where
  | sign {c : Char} {rest : List Char} (hc : c ∈ ['#', '>', '+', '-', '=']) : Opener (c :: rest)
  | number {digits rest : List Char} {p : Char} (hne : digits ≠ [])
      (hdigits : ∀ d ∈ digits, d.isDigit = true) (hp : p = '.' ∨ p = ')') :
      Opener (digits ++ p :: rest)

/-- A line that opens a block: it begins with at most three spaces and then with what opens one. -/
def OpensBlock (line : List Char) : Prop :=
  ∃ k rest, k ≤ 3 ∧ line = List.replicate k ' ' ++ rest ∧ Opener rest

/-- No line of a text opens a block. -/
def OpensNothing (cs : List Char) : Prop := ∀ line ∈ pieces cs, ¬ OpensBlock line

/-- How a line is escaped: where it opens a block one backslash is put before one of its
characters, and otherwise it stays as it is. -/
inductive Escapes : List Char → List Char → Prop where
  | kept {line : List Char} (h : ¬ OpensBlock line) : Escapes line line
  | escaped {front back : List Char} {c : Char} (h : OpensBlock (front ++ c :: back)) :
      Escapes (front ++ c :: back) (front ++ '\\' :: c :: back)

theorem opensBlock_iff_mem {c : Char} : opensBlock c = true ↔ c ∈ ['#', '>', '+', '-', '='] := by
  simp [opensBlock, or_assoc]

theorem closesNumber_iff {p : Char} : closesNumber p = true ↔ p = '.' ∨ p = ')' := by
  simp [closesNumber]

/-- No digit is a sign that opens a block, nor a space, nor what closes a number. -/
theorem isDigit_ne {d : Char} (hd : d.isDigit = true) :
    opensBlock d = false ∧ d ≠ ' ' ∧ closesNumber d = false := by
  refine ⟨Bool.eq_false_iff.2 fun h => ?_, ?_, Bool.eq_false_iff.2 fun h => ?_⟩
  · rw [opensBlock_iff_mem] at h
    simp only [List.mem_cons, List.not_mem_nil, or_false] at h
    rcases h with rfl | rfl | rfl | rfl | rfl <;> exact absurd hd (by decide)
  · rintro rfl
    exact absurd hd (by decide)
  · rcases closesNumber_iff.1 h with rfl | rfl <;> exact absurd hd (by decide)

/-- What opens a block does not begin with a space. -/
theorem Opener.head?_ne (h : Opener cs) : cs.head? ≠ some ' ' := by
  cases h with
  | sign hc =>
    rintro hspace
    obtain rfl := Option.some.inj hspace
    exact absurd hc (by decide)
  | @number digits rest p hne hdigits hp =>
    obtain ⟨d, ds, rfl⟩ := List.exists_cons_of_ne_nil hne
    intro hspace
    exact (isDigit_ne (hdigits d List.mem_cons_self)).2.1 (Option.some.inj hspace)

theorem Opener.ne_nil (h : Opener cs) : cs ≠ [] := by
  cases h <;> simp

/-- Whether a line opens a block shows where its indentation ends. -/
theorem opensBlock_iff :
    OpensBlock line ↔ (indentation line).length ≤ 3 ∧ Opener (line.dropWhile (· == ' ')) := by
  constructor
  · rintro ⟨k, rest, hk, rfl, hopener⟩
    rw [indentation, takeWhile_replicate_append hopener.head?_ne,
      dropWhile_replicate_append hopener.head?_ne, List.length_replicate]
    exact ⟨hk, hopener⟩
  · rintro ⟨hk, hopener⟩
    refine ⟨_, _, hk, ?_, hopener⟩
    have hspaces : indentation line = List.replicate (indentation line).length ' ' :=
      List.eq_replicate_of_mem fun c hc => beq_iff_eq.1 (List.all_eq_true.1 List.all_takeWhile c hc)
    rw [← hspaces, indentation, List.takeWhile_append_dropWhile]

/-! ## Escaping one line -/

theorem takeWhile_isDigit {digits rest : List Char} {c : Char}
    (hdigits : ∀ d ∈ digits, d.isDigit = true) (hc : c.isDigit = false) :
    (digits ++ c :: rest).takeWhile Char.isDigit = digits ∧
      (digits ++ c :: rest).dropWhile Char.isDigit = c :: rest := by
  rw [List.takeWhile_append_of_pos hdigits, List.dropWhile_append_of_pos hdigits]
  simp [hc]

/-- A backslash behind digits keeps them from opening a block. -/
theorem not_opener_escaped {digits rest : List Char} (hdigits : ∀ d ∈ digits, d.isDigit = true) :
    ¬ Opener (digits ++ '\\' :: rest) := by
  intro h
  generalize heq : digits ++ '\\' :: rest = cs at h
  cases h with
  | @sign c rest' hc =>
    cases digits with
    | nil =>
      obtain rfl := (List.cons.inj heq).1
      exact absurd hc (by decide)
    | cons d ds =>
      obtain rfl := (List.cons.inj heq).1
      rw [← opensBlock_iff_mem, (isDigit_ne (hdigits d List.mem_cons_self)).1] at hc
      exact Bool.false_ne_true hc
  | @number digits' rest' p hne hdigits' hp =>
    -- the digits end where something else begins, and that is not a backslash on one side only
    have hclose : p.isDigit = false :=
      Bool.eq_false_iff.2 fun hd => by
        rw [← closesNumber_iff, (isDigit_ne hd).2.2] at hp
        exact Bool.false_ne_true hp
    have hafter := congrArg (List.dropWhile Char.isDigit) heq
    rw [(takeWhile_isDigit hdigits (by decide)).2, (takeWhile_isDigit hdigits' hclose).2] at hafter
    obtain rfl := (List.cons.inj hafter).1
    rcases hp with hp | hp <;> exact absurd hp (by decide)

/-- What opens no block is left as it is. -/
theorem marker_of_not_opener (h : ¬ Opener cs) : marker cs = cs := by
  cases cs with
  | nil => rfl
  | cons c rest =>
    rw [marker]
    split
    · rename_i hc
      exact absurd (Opener.sign (opensBlock_iff_mem.1 hc)) h
    · split
      · rename_i hc
        split
        · rfl
        · rename_i p after hafter
          split
          · rename_i hp
            have hsplit : (c :: rest).takeWhile Char.isDigit ++ p :: after = c :: rest := by
              rw [← hafter, List.takeWhile_append_dropWhile]
            refine absurd ?_ h
            rw [← hsplit]
            refine Opener.number ?_ (List.all_eq_true.1 List.all_takeWhile) (closesNumber_iff.1 hp)
            simp [hc]
          · rfl
      · rfl

/-- What opens a block is escaped behind its digits, if it has any, and then opens none. -/
theorem marker_of_opener (h : Opener cs) :
    ∃ front c back, cs = front ++ c :: back ∧ marker cs = front ++ '\\' :: c :: back ∧
      ∀ d ∈ front, d.isDigit = true := by
  cases h with
  | @sign c rest hc =>
    refine ⟨[], c, rest, rfl, ?_, fun d hd => absurd hd List.not_mem_nil⟩
    rw [marker, if_pos (opensBlock_iff_mem.2 hc), List.nil_append]
  | @number digits rest p hne hdigits hp =>
    refine ⟨digits, p, rest, rfl, ?_, hdigits⟩
    obtain ⟨d, ds, rfl⟩ := List.exists_cons_of_ne_nil hne
    have hd := hdigits d List.mem_cons_self
    have hclose : p.isDigit = false := by
      rcases hp with rfl | rfl <;> rfl
    obtain ⟨hfront, hback⟩ := @takeWhile_isDigit (d :: ds) rest p hdigits hclose
    rw [List.cons_append] at hfront hback ⊢
    rw [marker, if_neg (Bool.eq_false_iff.1 (isDigit_ne hd).1), if_pos hd, hback, hfront]
    exact if_pos (closesNumber_iff.2 hp)

theorem lineStart_eq_self (h : ¬ OpensBlock line) : lineStart line = line := by
  rw [lineStart]
  split
  · rename_i hindent
    rw [marker_of_not_opener fun hopener => h (opensBlock_iff.2 ⟨hindent, hopener⟩), indentation,
      List.takeWhile_append_dropWhile]
  · rfl

/-- Escaping a line puts at most one backslash into it. -/
theorem escapes_lineStart (line : List Char) : Escapes line (lineStart line) := by
  by_cases h : OpensBlock line
  · obtain ⟨hindent, hopener⟩ := opensBlock_iff.1 h
    obtain ⟨front, c, back, hsplit, hmarker, -⟩ := marker_of_opener hopener
    have hline : line = (indentation line ++ front) ++ c :: back := by
      rw [List.append_assoc, ← hsplit, indentation, List.takeWhile_append_dropWhile]
    have hescaped : lineStart line = (indentation line ++ front) ++ '\\' :: c :: back := by
      rw [lineStart, if_pos hindent, hmarker, List.append_assoc]
    rw [hescaped]
    conv => arg 1; rw [hline]
    exact .escaped (hline ▸ h)
  · rw [lineStart_eq_self h]
    exact .kept h

/-- No line opens a block once it is escaped. -/
theorem not_opensBlock_lineStart (line : List Char) : ¬ OpensBlock (lineStart line) := by
  by_cases h : OpensBlock line
  · obtain ⟨hindent, hopener⟩ := opensBlock_iff.1 h
    obtain ⟨front, c, back, -, hmarker, hdigits⟩ := marker_of_opener hopener
    have hhead : (front ++ '\\' :: c :: back).head? ≠ some ' ' := by
      cases front with
      | nil => simp
      | cons d ds => simpa using (isDigit_ne (hdigits d List.mem_cons_self)).2.1
    have hspaces : indentation line = List.replicate (indentation line).length ' ' :=
      List.eq_replicate_of_mem fun c hc => beq_iff_eq.1 (List.all_eq_true.1 List.all_takeWhile c hc)
    rw [lineStart, if_pos hindent, hmarker, opensBlock_iff, hspaces,
      dropWhile_replicate_append hhead]
    exact fun hopens => not_opener_escaped hdigits hopens.2
  · rwa [lineStart_eq_self h]

/-! ## Escaping all lines -/

/-- Escaping brings no line feed into a line. -/
theorem Escapes.not_mem {escaped : List Char} (h : Escapes line escaped) (hline : '\n' ∉ line) :
    '\n' ∉ escaped := by
  cases h with
  | kept => exact hline
  | escaped =>
    rw [List.mem_append, not_or] at hline
    rw [List.mem_append, List.mem_cons, not_or, not_or]
    exact ⟨hline.1, by decide, hline.2⟩

theorem Escapes.getLast?_eq {escaped : List Char} (h : Escapes line escaped) :
    escaped.getLast? = line.getLast? := by
  cases h with
  | kept => rfl
  | escaped => simp

/-- The lines of an escaped text are those of the text, each of them escaped. -/
theorem pieces_lineStarts (cs : List Char) :
    pieces (lineStarts cs) = (pieces cs).map lineStart :=
  pieces_mapPieces (fun line => (escapes_lineStart line).not_mem) cs

theorem getLast?_lineStarts (cs : List Char) : (lineStarts cs).getLast? = cs.getLast? :=
  getLast?_mapPieces (fun line => (escapes_lineStart line).getLast?_eq) cs

theorem lineStarts_eq_nil : lineStarts cs = [] ↔ cs = [] := by
  rw [← List.getLast?_eq_none_iff, getLast?_lineStarts, List.getLast?_eq_none_iff]

theorem opensNothing_lineStarts (cs : List Char) : OpensNothing (lineStarts cs) := by
  intro line hline
  rw [pieces_lineStarts] at hline
  obtain ⟨p, -, rfl⟩ := List.mem_map.1 hline
  exact not_opensBlock_lineStart p

theorem lineStarts_eq_self (h : OpensNothing cs) : lineStarts cs = cs := by
  have hlines : (pieces cs).map lineStart = pieces cs :=
    (List.map_congr_left fun line hline => lineStart_eq_self (h line hline)).trans (List.map_id _)
  rw [lineStarts, mapPieces, hlines, join_pieces]

theorem not_opensBlock_nil : ¬ OpensBlock [] := by
  rw [opensBlock_iff]
  exact fun h => h.2.ne_nil rfl

/-- A text of which no line opens a block does not get one by what is done to its end when it is
written by itself. -/
theorem OpensNothing.ended (h : OpensNothing cs) :
    OpensNothing (dropFinalBreaks cs ++ ['\n']) := by
  intro line hline
  rw [pieces_append_break] at hline
  rcases List.mem_append.1 hline with hkept | hlast
  · exact h line (mem_pieces_of_dropFinalBreaks hkept)
  · rw [List.mem_singleton.1 hlast]
    exact not_opensBlock_nil

end Escape

/-! ## Blocks of text -/

namespace Node

open Escape

/-- Whether a block is inline content only: a paragraph, a cell on its own or inlines among
blocks. -/
def isInlines : Node → Bool
  | .paragraph _ | .tableCell _ | .phrasing _ => true
  | _ => false

/-- Inline content is nothing or is written with the starts of its lines escaped. -/
theorem write_of_isInlines {n : Node} (h : n.isInlines = true) (style : Style) (slots : Slots)
    (m : Marker) : ∃ text, write style slots m n = lineStarts text := by
  cases n with
  | paragraph content =>
    rw [write, paragraphMarkdown]
    split
    · exact ⟨[], rfl⟩
    · exact ⟨_, rfl⟩
  | tableCell content => exact ⟨_, by rw [write]⟩
  | phrasing inline => exact ⟨_, by rw [write]⟩
  | _ => exact nomatch h

/-- **No line of inline content opens a block**, whatever it is made of and in every style, and this
takes no more than it has to.  Escaping a text goes line by line, puts one backslash into each line
that would open a block and leaves the other lines alone, and a text that is escaped already stays
as it is. -/
theorem opensNothing_of_isInlines {n : Node} (h : n.isInlines = true) (style : Style)
    (slots : Slots) (m : Marker) :
    OpensNothing (write style slots m n) ∧
    OpensNothing (markdown style slots n).toList ∧
    ∀ cs, List.Forall₂ Escapes (pieces cs) (pieces (lineStarts cs)) ∧
      lineStarts (lineStarts cs) = lineStarts cs := by
  have hopens : ∀ m, OpensNothing (write style slots m n) := by
    intro m
    obtain ⟨text, htext⟩ := write_of_isInlines h style slots m
    rw [htext]
    exact opensNothing_lineStarts text
  refine ⟨hopens m, ?_, fun cs => ⟨?_, lineStarts_eq_self (opensNothing_lineStarts cs)⟩⟩
  · rw [markdown, String.toList_ofList]
    split
    · intro line hline
      rw [List.mem_singleton.1 hline]
      exact not_opensBlock_nil
    · exact (hopens .primary).ended
  · rw [pieces_lineStarts]
    induction pieces cs with
    | nil => exact .nil
    | cons line lines ih => exact .cons (escapes_lineStart line) ih

/-- Inlines that bring to the starts of their lines what opens a block. -/
def openingInlines : List Inline := [
  .text "   # a\n",
  .emphasis [.text " 12) b\n", .strong [.text "= c"]],
  .math "\n- d\n    > e",
  .link (.known "") none none [.text "f\n7."]]

/-- None of them does once they are written. -/
theorem opensNothing_openingInlines :
    isInlines (.paragraph openingInlines) = true ∧
    write {} {} .primary (.paragraph openingInlines) =
      "   \\# a\n *12) b\n**= c***$$\n\\- d\n    > e$$[f\n7\\.](<>)".toList ∧
    OpensNothing (write {} {} .primary (.paragraph openingInlines)) ∧
    OpensNothing (markdown {} {} (.paragraph openingInlines)).toList ∧
    List.Forall₂ Escapes (pieces "+\n\n1.2".toList) (pieces (lineStarts "+\n\n1.2".toList)) ∧
    lineStarts (lineStarts "+\n\n1.2".toList) = lineStarts "+\n\n1.2".toList := by
  have h : isInlines (.paragraph openingInlines) = true := rfl
  obtain ⟨hwritten, hended, hescapes⟩ := opensNothing_of_isInlines h {} {} .primary
  obtain ⟨hlines, htwice⟩ := hescapes "+\n\n1.2".toList
  exact ⟨h, by decide, hwritten, hended, hlines, htwice⟩

end Node

end DocExport
