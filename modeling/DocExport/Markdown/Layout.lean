import DocExport.Markdown.Style
import DocExport.Text.Chars
import DocExport.Text.Lines

/-!
# Laying out blocks

What a block adds around content that has been written already: the signs of a heading, the
marks of a quotation, the marker and the indentation of a list item, and the fences of a code
block.

* **Main results.** `longestRun_lt_fence_length` says that a fence is longer than any row of fence
  characters in the code.
-/

namespace DocExport.Layout

open Text

/-! ## Quotations -/

/-- A line inside a quotation. -/
def quotedLine (line : List Char) : List Char :=
  if line.isEmpty then ['>'] else '>' :: ' ' :: line

/-- Content as a quotation; an empty one still shows its mark. -/
def quoted (content : List Char) : List Char :=
  if content.isEmpty then ['>'] else List.intercalate ['\n'] ((lines content).map quotedLine)

/-! ## List items -/

/-- The greatest number a list item may have. -/
def maxNumber : Nat := 999999999

/-- The marker of an item: its number with what follows it, or the bullet. -/
def itemMarker (style : Style) (m : Marker) (ordered : Bool) (number : Nat) : List Char :=
  if ordered then Nat.toDigits 10 (min number maxNumber) ++ [style.delimiterFor m]
  else [style.bulletFor m]

/-- The box of a task. -/
def taskBox : Option Bool → List Char
  | some true => "[x] ".toList
  | some false => "[ ] ".toList
  | none => []

/-- A line of an item after its first one: moved to the right unless it is empty. -/
def hungLine (indent : Nat) (line : List Char) : List Char :=
  if line.isEmpty then [] else List.replicate indent ' ' ++ line

/-- Content hung under a marker: the first line stands after the marker and the box, the others
are moved to the right by the width of the marker and a space. -/
def hung (marker box content : List Char) : List Char :=
  match lines content with
  | [] => trimEnd (marker ++ ' ' :: box)
  | first :: others =>
      trimEnd (marker ++ ' ' :: box ++ first) ++
        others.flatMap fun line => '\n' :: hungLine (marker.length + 1) line

/-- A number shows, whatever follows it. -/
theorem allBlank_number (number : Nat) (rest : List Char) :
    allBlank (Nat.toDigits 10 number ++ rest) = false := by
  obtain ⟨c, digits, hdigits⟩ :=
    List.exists_cons_of_ne_nil (Nat.toDigits_ne_nil (n := number) (b := 10))
  have hc : isBlank c = false :=
    isBlank_of_isDigit (Nat.isDigit_of_mem_toDigits (by decide) (by decide)
      (hdigits ▸ List.mem_cons_self))
  rw [hdigits, List.cons_append, allBlank, List.all_cons, hc, Bool.false_and]

/-- Content hung under a marker that shows comes to something. -/
theorem hung_ne_nil {marker : List Char} (h : allBlank marker = false) (box content : List Char) :
    hung marker box content ≠ [] := by
  have htrimmed : ∀ rest, trimEnd (marker ++ rest) ≠ [] := by
    intro rest hnil
    rw [trimEnd_eq_nil, allBlank, List.all_append, Bool.and_eq_true] at hnil
    exact Bool.false_ne_true (h.symm.trans hnil.1)
  rw [hung]
  split
  · exact htrimmed _
  · rw [List.append_assoc marker]
    exact fun hnil => htrimmed _ (List.append_eq_nil_iff.1 hnil).1

/-! ## Code blocks -/

/-- The character a fence is made of. -/
def fenceChar (style : Style) : Char := style.fence.toList.headD '\x60'

/-- A fence for some code: as long as the style asks, longer than any row of fence characters in
the code, and at least three characters long. -/
def fence (style : Style) (code : List Char) : List Char :=
  let c := fenceChar style
  List.replicate (max (max style.fence.length (longestRun c code + 1)) 3) c

/-- Code between two fences. -/
def fenced (style : Style) (language : Option String) (code : List Char) : List Char :=
  fence style code ++ (language.getD "").toList ++ ['\n'] ++
    (if code.isEmpty then [] else code ++ ['\n']) ++ fence style code

/-- Code moved to the right by four spaces; empty lines stay empty. -/
def indented (code : List Char) : List Char :=
  List.intercalate ['\n'] ((lines code).map (hungLine 4))

/-- A code block.  Only code that shows and has no language can do without fences. -/
def codeBlock (style : Style) (language : Option String) (code : List Char) : List Char :=
  if style.codeBlock = .indented ∧ language = none ∧ ¬ allBlank code then indented code
  else fenced style language code

/-- A fence is longer than any row of fence characters in the code. -/
theorem longestRun_lt_fence_length (style : Style) (code : List Char) :
    longestRun (fenceChar style) code < (fence style code).length := by
  rw [fence, List.length_replicate]
  omega

/-! ## Headings -/

/-- A depth that headings can have. -/
def headingDepth (depth : Nat) : Nat := max 1 (min depth 6)

/-- A heading on one line, after as many number signs as it is deep. -/
def signedHeading (depth : Nat) (text : List Char) : List Char :=
  List.replicate depth '#' ++ ' ' :: trim (replace '\n' [' '] text)

/-- A heading with a line under it, doubled for the first level. -/
def underlinedHeading (depth : Nat) (text : List Char) : List Char :=
  text ++ '\n' :: List.replicate text.length (if depth = 1 then '=' else '-')

end DocExport.Layout
