import DocExport.Text.Chars
import DocExport.Text.Lines

/-!
# Escaping

Text must not turn into Markdown by accident.  Inside a line, the characters that could open
code, emphasis, links or tags are preceded by a backslash.  At the start of a line, what would
open a heading, a quotation, a list or an underline is, too.

* **Main results.** `text_append` (escaping inside a line goes character by character) and
  `lineStart` (what is escaped where a line starts).
-/

namespace DocExport.Escape

/-! ## Inside a line -/

/-- The characters that mean something inside a line. -/
def isSpecial (c : Char) : Bool :=
  c == '\\' || c == '*' || c == '_' || c == '[' || c == ']' || c == '\x60' || c == '~' || c == '<'

/-- A text with a backslash before every special character. -/
def text (cs : List Char) : List Char :=
  cs.flatMap fun c => if isSpecial c then ['\\', c] else [c]

/-- Escaping inside a line goes character by character. -/
theorem text_append (xs ys : List Char) : text (xs ++ ys) = text xs ++ text ys :=
  List.flatMap_append

theorem text_cons_of_special {c : Char} (h : isSpecial c = true) (cs : List Char) :
    text (c :: cs) = '\\' :: c :: text cs := by
  rw [text, List.flatMap_cons, if_pos h]
  rfl

theorem text_cons_of_plain {c : Char} (h : isSpecial c = false) (cs : List Char) :
    text (c :: cs) = c :: text cs := by
  rw [text, List.flatMap_cons, if_neg (Bool.eq_false_iff.1 h)]
  rfl

theorem getLast?_text (cs : List Char) : (text cs).getLast? = cs.getLast? := by
  rcases List.eq_nil_or_concat cs with rfl | ⟨front, c, rfl⟩
  · rfl
  · rw [List.concat_eq_append, text_append, List.getLast?_concat]
    by_cases hc : isSpecial c = true
    · simp [text, hc]
    · simp [text, hc]

theorem text_eq_nil {cs : List Char} : text cs = [] ↔ cs = [] := by
  rw [← List.getLast?_eq_none_iff, getLast?_text, List.getLast?_eq_none_iff]

/-- A text whose final exclamation mark, if it has one, is preceded by a backslash, so that a
link can follow without becoming an image. -/
def finalBang (cs : List Char) : List Char :=
  if cs.getLast? = some '!' then cs.dropLast ++ ['\\', '!'] else cs

/-! ## At the start of a line -/

/-- The characters that mean something at the start of a line. -/
def opensBlock (c : Char) : Bool :=
  c == '#' || c == '>' || c == '+' || c == '-' || c == '='

/-- The characters that make the number before them the number of a list item. -/
def closesNumber (c : Char) : Bool := c == '.' || c == ')'

/-- A line without its indentation, with a backslash where it would open a block: before a
character that opens one, or between a number and the character that closes it. -/
def marker (cs : List Char) : List Char :=
  match cs with
  | [] => []
  | c :: _ =>
      if opensBlock c then '\\' :: cs
      else if c.isDigit then
        match cs.dropWhile Char.isDigit with
        | [] => cs
        | p :: rest =>
            if closesNumber p then cs.takeWhile Char.isDigit ++ '\\' :: p :: rest else cs
      else cs

/-- The spaces a line begins with. -/
def indentation (line : List Char) : List Char := line.takeWhile (· == ' ')

/-- A line that opens no block.  One that is moved to the right by more than three spaces cannot
open one anyway. -/
def lineStart (line : List Char) : List Char :=
  if (indentation line).length ≤ 3 then
    indentation line ++ marker (line.dropWhile (· == ' '))
  else line

/-- A text none of whose lines opens a block. -/
def lineStarts (cs : List Char) : List Char := Text.mapPieces lineStart cs

/-! ## Targets and titles -/

/-- Whether a URL has to stand between angle brackets. -/
def needsBrackets (url : List Char) : Bool :=
  url.isEmpty || url.any fun c => Text.isBlank c || c == '(' || c == ')' || c == '<' || c == '>'

/-- A URL as the target of a link. -/
def target (url : List Char) : List Char :=
  if needsBrackets url then
    '<' :: Text.replace '>' "%3E".toList (Text.replace '<' "%3C".toList url) ++ ['>']
  else url

/-- The title of a link between its target and the closing bracket. -/
def title : Option String → List Char
  | none => []
  | some t => " \"".toList ++ Text.replace '"' "\\\"".toList t.toList ++ ['"']

end DocExport.Escape
