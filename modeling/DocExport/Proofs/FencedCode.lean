import DocExport.Document.OfBlock
import DocExport.Markdown.Flow

/-!
# Fenced code read back

A reader of fenced code looks at one line after the other.  The first line is a row of fence
characters and, after it, what the code is said to be.  The code then goes on until a line closes
it that holds nothing but a row of fence characters at least as long.  Whatever the code is, no
line of it does, so the reader finds all of it.

* **Main results.** `closes_eq_false_of_mem_pieces` (no line of code closes it),
  `read?_fenced` (what is written between fences is read back) and
  `Node.read?_write_code` (the same of code blocks, and of those that blocks of code become).
-/

namespace DocExport

open Text

/-! ## Reading -/

namespace Fence

/-- The row of `c`s that a line begins with. -/
def row (c : Char) (line : List Char) : List Char := line.takeWhile (· == c)

/-- What follows the row of `c`s that a line begins with. -/
def afterRow (c : Char) (line : List Char) : List Char := line.dropWhile (· == c)

/-- Whether a line closes code that a row of `width` fence characters opens: after at most three
spaces it is a row at least as wide, and then nothing but spaces. -/
def closes (c : Char) (width : Nat) (line : List Char) : Bool :=
  let marks := line.dropWhile (· == ' ')
  decide ((Escape.indentation line).length ≤ 3) && decide (width ≤ (row c marks).length) &&
    (afterRow c marks).all (· == ' ')

/-- The lines before the first one that closes the code, and those after it. -/
def body? (c : Char) (width : Nat) :
    List (List Char) → Option (List (List Char) × List (List Char))
  | [] => none
  | line :: later =>
      if closes c width line then some ([], later)
      else (body? c width later).map fun (body, after) => (line :: body, after)

/-- What a reader finds of fenced code. -/
structure Reading where
  /-- How wide the opening fence is. -/
  width : Nat
  /-- What follows the opening fence on its line. -/
  info : List Char
  code : List Char
  /-- The lines after the closing fence. -/
  after : List (List Char)
  deriving DecidableEq, Repr

/-- Fenced code read off the lines that begin with it, where `c` is the fence character.  Fewer than
three of them open nothing, and code that is never closed is not read. -/
def read? (c : Char) : List (List Char) → Option Reading
  | [] => none
  | opening :: later =>
      let width := (row c opening).length
      if width < 3 then none
      else
        (body? c width later).map fun (body, after) =>
          { width, info := afterRow c opening, code := join body, after }

/-! ## Rows -/

theorem row_replicate_append {c : Char} {n : Nat} {rest : List Char} (h : c ∉ rest) :
    row c (List.replicate n c ++ rest) = List.replicate n c :=
  takeWhile_replicate_append (fun hhead => h (List.mem_of_head? hhead)) n

theorem afterRow_replicate_append {c : Char} {n : Nat} {rest : List Char} (h : c ∉ rest) :
    afterRow c (List.replicate n c ++ rest) = rest :=
  dropWhile_replicate_append (fun hhead => h (List.mem_of_head? hhead)) n

theorem length_row_le (c : Char) (line : List Char) : (row c line).length ≤ longestRun c line := by
  have hrow : row c line = List.replicate (row c line).length c :=
    List.eq_replicate_of_mem fun x hx => beq_iff_eq.1 (List.all_eq_true.1 List.all_takeWhile x hx)
  have hpart : row c line <:+: line := (List.takeWhile_prefix _).isInfix
  calc (row c line).length = longestRun c (row c line) := by
        rw [hrow, longestRun_replicate, List.length_replicate]
    _ ≤ longestRun c line := longestRun_le_of_infix c hpart

/-! ## Closing lines -/

/-- A fence closes what no longer fence opened. -/
theorem closes_replicate {c : Char} (hc : c ≠ ' ') {width n : Nat} (h : width ≤ n) :
    closes c width (List.replicate n c) = true := by
  have hspaces : (List.replicate n c).dropWhile (· == ' ') = List.replicate n c := by
    cases n with
    | zero => rfl
    | succ n => exact List.dropWhile_cons_of_neg (by simpa using hc)
  have hnothing : c ∉ ([] : List Char) := List.not_mem_nil
  have hrow : row c (List.replicate n c) = List.replicate n c := by
    simpa using row_replicate_append (n := n) hnothing
  have hafter : afterRow c (List.replicate n c) = [] := by
    simpa using afterRow_replicate_append (n := n) hnothing
  have hindent : Escape.indentation (List.replicate n c) = [] := by
    cases n with
    | zero => rfl
    | succ n => exact List.takeWhile_cons_of_neg (by simpa using hc)
  simp [closes, hspaces, hrow, hafter, hindent, h]

theorem le_longestRun_of_closes {c : Char} {width : Nat} {line : List Char}
    (h : closes c width line = true) : width ≤ longestRun c line := by
  simp only [closes, Bool.and_eq_true, decide_eq_true_eq] at h
  obtain ⟨⟨-, hwidth⟩, -⟩ := h
  calc width ≤ (row c (line.dropWhile (· == ' '))).length := hwidth
    _ ≤ longestRun c (line.dropWhile (· == ' ')) := length_row_le c _
    _ ≤ longestRun c line := longestRun_le_of_infix c (List.dropWhile_suffix _).isInfix

/-- No line of some code closes it after a fence that is longer than any row in the code. -/
theorem closes_eq_false_of_mem_pieces {c : Char} {width : Nat} {code line : List Char}
    (hwidth : longestRun c code < width) (hline : line ∈ pieces code) :
    closes c width line = false := by
  refine Bool.eq_false_iff.2 fun hcloses => ?_
  have hle : longestRun c line ≤ longestRun c code :=
    longestRun_le_of_infix c (infix_of_mem_pieces hline)
  have := le_longestRun_of_closes hcloses
  omega

/-- A reader takes lines that do not close the code up to the one that does. -/
theorem body?_append {c : Char} {width : Nat} {body : List (List Char)} {closing : List Char}
    (hbody : ∀ line ∈ body, closes c width line = false) (hclosing : closes c width closing = true)
    (after : List (List Char)) :
    body? c width (body ++ closing :: after) = some (body, after) := by
  induction body with
  | nil => rw [List.nil_append, body?, if_pos hclosing]
  | cons line body ih =>
    have hline : closes c width line = false := hbody line List.mem_cons_self
    rw [List.cons_append, body?, if_neg (Bool.eq_false_iff.1 hline),
      ih fun later hlater => hbody later (List.mem_cons_of_mem _ hlater)]
    rfl

/-! ## Code between fences -/

/-- The lines that fenced code is written on. -/
theorem pieces_fenced {style : Style} {language : Option String} (code : List Char)
    (hfence : Layout.fenceChar style ≠ '\n') (hinfo : '\n' ∉ (language.getD "").toList) :
    pieces (Layout.fenced style language code) =
      (Layout.fence style code ++ (language.getD "").toList) ::
        (rows code ++ [Layout.fence style code]) := by
  have hmarks : '\n' ∉ Layout.fence style code :=
    fun h => hfence (List.eq_of_mem_replicate h).symm
  have hopening : '\n' ∉ Layout.fence style code ++ (language.getD "").toList := by
    rw [List.mem_append]
    exact fun h => h.elim hmarks hinfo
  cases code with
  | nil =>
    rw [Layout.fenced, List.isEmpty_nil, if_pos rfl, List.append_nil, List.append_assoc,
      List.singleton_append, pieces_append_break, pieces_of_not_mem hopening,
      pieces_of_not_mem hmarks]
    rfl
  | cons x xs =>
    rw [Layout.fenced, List.isEmpty_cons, if_neg Bool.false_ne_true, List.append_assoc,
      List.append_assoc _ ['\n'], List.singleton_append, pieces_append_break,
      List.append_assoc (x :: xs), List.singleton_append, pieces_append_break,
      pieces_of_not_mem hopening, pieces_of_not_mem hmarks]
    rfl

/-- What is written between fences is read back, with the lines that follow it. -/
theorem read?_fenced {style : Style} {language : Option String} (code : List Char)
    (hfence : isBlank (Layout.fenceChar style) = false) (hbreak : '\n' ∉ (language.getD "").toList)
    (hmark : Layout.fenceChar style ∉ (language.getD "").toList) (after : List (List Char)) :
    read? (Layout.fenceChar style) (pieces (Layout.fenced style language code) ++ after) =
      some ⟨(Layout.fence style code).length, (language.getD "").toList, code, after⟩ := by
  have hspace : Layout.fenceChar style ≠ ' ' := ne_of_isBlank_eq_false hfence (by decide)
  have hfeed : Layout.fenceChar style ≠ '\n' := ne_of_isBlank_eq_false hfence (by decide)
  have hwide : 3 ≤ (Layout.fence style code).length := by
    rw [Layout.fence, List.length_replicate]
    omega
  have hrow : row (Layout.fenceChar style)
      (Layout.fence style code ++ (language.getD "").toList) = Layout.fence style code :=
    row_replicate_append hmark
  have hinfo : afterRow (Layout.fenceChar style)
      (Layout.fence style code ++ (language.getD "").toList) = (language.getD "").toList :=
    afterRow_replicate_append hmark
  have hbody : ∀ line ∈ rows code,
      closes (Layout.fenceChar style) (Layout.fence style code).length line = false := by
    intro line hline
    rw [rows] at hline
    split at hline
    · exact absurd hline List.not_mem_nil
    · exact closes_eq_false_of_mem_pieces (Layout.longestRun_lt_fence_length style code) hline
  have hclosing : closes (Layout.fenceChar style) (Layout.fence style code).length
      (Layout.fence style code) = true := by
    rw [Layout.fence, List.length_replicate]
    exact closes_replicate hspace (Nat.le_refl _)
  rw [pieces_fenced code hfeed hbreak, List.cons_append, List.append_assoc, List.singleton_append,
    read?, hrow, hinfo, if_neg (by omega), body?_append hbody hclosing]
  simp only [Option.map_some, join_rows]

end Fence

/-! ## Code blocks -/

namespace Layout

theorem isBlank_fenceChar {style : Style}
    (h : ∀ c ∈ style.fence.toList.head?, isBlank c = false) :
    isBlank (fenceChar style) = false := by
  rw [fenceChar, List.headD_eq_head?_getD]
  cases hhead : style.fence.toList.head? with
  | none => rfl
  | some c => exact h c hhead

theorem length_style_fence_le (style : Style) (code : List Char) :
    style.fence.length ≤ (fence style code).length := by
  rw [fence, List.length_replicate]
  omega

end Layout

/-- A block of code contributes its text as it stands. -/
theorem Block.run_nodes_code (place : Place) (language text : String) (met : Gathered) :
    ((Block.ofRuns (.code language) [{ text }] []).nodes place).run met =
      ([.code (languageOf language) text], met) := by
  have htext : withoutBreak (Zone.ofRuns [{ text }]).text = text := by
    simp [withoutBreak, Zone.ofRuns, String.join, dropFinalBreak]
  have hnodes : (Block.ofRuns (.code language) [{ text }] []).nodes place =
      pure [.code (languageOf language) (withoutBreak (Zone.ofRuns [{ text }]).text)] := rfl
  rw [hnodes, htext]
  rfl

namespace Node

/-- Fenced code can be read back.  Its first line is a row of at least three fence characters, no
fewer than the style asks for, and then the info string, and a reader of its lines finds the info
string and the code, whatever lines follow.  The code of a block of code is the text of the
block. -/
theorem read?_write_code (style : Style) (language : Option String) (value : String)
    (hfence : ∀ c ∈ style.fence.toList.head?, isBlank c = false)
    (hbreak : '\n' ∉ (language.getD "").toList)
    (hmark : Layout.fenceChar style ∉ (language.getD "").toList)
    (hfenced : style.codeBlock = .fenced ∨ language.isSome = true ∨ allBlank value.toList = true)
    (slots : Slots) (m : Marker) :
    (∃ width, 3 ≤ width ∧ style.fence.length ≤ width ∧
      (pieces (write style slots m (.code language value))).head? =
        some (List.replicate width (Layout.fenceChar style) ++ (language.getD "").toList) ∧
      ∀ after, Fence.read? (Layout.fenceChar style)
          (pieces (write style slots m (.code language value)) ++ after) =
        some ⟨width, (language.getD "").toList, value.toList, after⟩) ∧
    ∀ (place : Place) (name text : String) (met : Gathered),
      ((Block.ofRuns (.code name) [{ text }] []).nodes place).run met =
        ([.code (languageOf name) text], met) := by
  have hshown : isBlank (Layout.fenceChar style) = false := Layout.isBlank_fenceChar hfence
  have hfeed : Layout.fenceChar style ≠ '\n' := ne_of_isBlank_eq_false hshown (by decide)
  have hwritten : write style slots m (.code language value) =
      Layout.fenced style language value.toList := by
    rw [write, Layout.codeBlock, if_neg]
    rintro ⟨hindented, rfl, hshows⟩
    rcases hfenced with h | h | h
    · rw [h] at hindented
      exact CodeBlockStyle.noConfusion hindented
    · exact Bool.false_ne_true h
    · exact hshows h
  refine ⟨⟨(Layout.fence style value.toList).length, ?_, Layout.length_style_fence_le _ _, ?_, ?_⟩,
    Block.run_nodes_code⟩
  · rw [Layout.fence, List.length_replicate]
    omega
  · rw [hwritten, Fence.pieces_fenced _ hfeed hbreak, Layout.fence, List.length_replicate]
    rfl
  · intro after
    rw [hwritten]
    exact Fence.read?_fenced _ hshown hbreak hmark after

/-- Code that holds fences and ends in line feeds. -/
def codeWithFences : String := "~~~~~\n  ~~~~~~\n\n"

/-- Such code is read back, its own fences being too short to close it. -/
theorem read?_write_codeWithFences :
    (∀ c ∈ "~~~~".toList.head?, isBlank c = false) ∧
    '\n' ∉ ((some "text").getD "").toList ∧
    Layout.fenceChar { fence := "~~~~" } ∉ ((some "text").getD "").toList ∧
    Style.codeBlock { fence := "~~~~" } = .fenced ∧
    Fence.read? '~' (pieces (write { fence := "~~~~" } {} .primary
        (.code (some "text") codeWithFences)) ++ ["after".toList]) =
      some ⟨7, "text".toList, codeWithFences.toList, ["after".toList]⟩ ∧
    ((Block.ofRuns (.code " Text ") [{ text := codeWithFences }] []).nodes .elsewhere).run
        { issued := 2 } =
      ([.code (languageOf " Text ") codeWithFences], { issued := 2 }) := by
  have hfence : ∀ c ∈ "~~~~".toList.head?, isBlank c = false := by
    intro c hc
    obtain rfl : '~' = c := Option.some.inj hc
    rfl
  have hbreak : '\n' ∉ ((some "text").getD "").toList := by decide
  have hmark : Layout.fenceChar { fence := "~~~~" } ∉ ((some "text").getD "").toList := by decide
  obtain ⟨⟨width, -, -, hfirst, hread⟩, hblock⟩ :=
    read?_write_code { fence := "~~~~" } (some "text") codeWithFences hfence hbreak hmark
      (.inl rfl) {} .primary
  have hwidth : width = 7 := by
    have hline : (pieces (write { fence := "~~~~" } {} .primary
        (.code (some "text") codeWithFences))).head? = some "~~~~~~~text".toList := by decide
    have hlength := congrArg (Option.map List.length) (hfirst.symm.trans hline)
    rw [Option.map_some, Option.map_some, List.length_append, List.length_replicate] at hlength
    exact Nat.add_right_cancel (Option.some.inj hlength)
  subst hwidth
  exact ⟨hfence, hbreak, hmark, rfl, hread _, hblock _ _ _ _⟩

end Node

end DocExport
