/-!
# Markdown style

Markdown can often say one thing in several ways.  A style is the choice among them: which
markers, delimiters and fences are written, and how headings and code blocks look.

* **Main results.** The defaults of `Style` are the plain spellings: underlines and indented
  code are off, and every marker has a second spelling for the list that follows directly.
-/

namespace DocExport

/-- How the two upper levels of headings are written. -/
inductive HeadingStyle where
  /-- With number signs before the text. -/
  | atx
  /-- With a line under the text. -/
  | setext
  deriving DecidableEq, Repr

/-- How code blocks without a language are written. -/
inductive CodeBlockStyle where
  /-- Between two fences. -/
  | fenced
  /-- Moved to the right. -/
  | indented
  deriving DecidableEq, Repr

/-- The choices among the spellings of Markdown. -/
structure Style where
  heading : HeadingStyle := .atx
  /-- The line that stands for a thematic break. -/
  rule : String := "***"
  /-- The marker of a bullet list. -/
  bullet : Char := '*'
  /-- The marker of a bullet list directly after another one. -/
  bulletNext : Char := '-'
  /-- What follows the numbers of an ordered list. -/
  delimiter : Char := '.'
  /-- What follows the numbers of an ordered list directly after another one. -/
  delimiterNext : Char := ')'
  codeBlock : CodeBlockStyle := .fenced
  /-- The fence of a code block; it grows where the code demands it. -/
  fence : String := "```"
  /-- What stands on either side of emphasised text. -/
  emphasis : Char := '*'
  /-- What stands on either side of strongly emphasised text. -/
  strong : String := "**"
  /-- Whether formulas stand between single dollar signs rather than double ones. -/
  singleDollarMath : Bool := false
  deriving DecidableEq, Repr

/-- Which of two adjacent lists is marked: the first of them, or the one that has to look
different from the list before it. -/
inductive Marker where
  | primary
  | other
  deriving DecidableEq, Repr

namespace Style

/-- The bullet for a list. -/
def bulletFor (style : Style) : Marker → Char
  | .primary => style.bullet
  | .other => style.bulletNext

/-- What follows the numbers of a list. -/
def delimiterFor (style : Style) : Marker → Char
  | .primary => style.delimiter
  | .other => style.delimiterNext

end Style

end DocExport
