import DocExport.Markdown.Escape
import DocExport.Markdown.Inline
import DocExport.Markdown.Style

/-!
# Writing inlines

Inlines are written one after another onto what has been written so far, because a link has to
know whether an exclamation mark stands directly before it.  Marks are drawn tightly around
what shows: blanks at either end stay outside, and a mark around nothing that shows is not
drawn.

* **Main results.** `Inline.write` and `Inline.writeAll` write onto a text,
  `Inline.markdown` writes from the start, and `enclose_of_blank` says that blank content is
  left as it is.
-/

namespace DocExport

/-! ## Leaves -/

/-- Code between rows of backticks longer than any inside, set apart by spaces where a backtick
stands at an end. -/
def codeSpan (code : List Char) : List Char :=
  let ticks := List.replicate (Text.longestRun '\x60' code + 1) '\x60'
  let gap := if code.head? = some '\x60' ∨ code.getLast? = some '\x60' then [' '] else []
  ticks ++ gap ++ code ++ gap ++ ticks

/-- A formula between dollar signs. -/
def mathSpan (style : Style) (formula : List Char) : List Char :=
  let dollars := if style.singleDollarMath then ['$'] else ['$', '$']
  dollars ++ formula ++ dollars

/-! ## Marks -/

/-- What was written after `before` between two delimiters.  Blanks at its ends stay outside the
delimiters, and if nothing in it shows it is left as it is. -/
def enclose (delimiter before written : List Char) : List Char :=
  let inner := written.drop before.length
  if Text.allBlank inner then written
  else
    written.take before.length ++ Text.leadingBlanks inner ++ delimiter ++ Text.trim inner ++
      delimiter ++ Text.trailingBlanks inner

/-- Content that does not show gets no delimiters. -/
theorem enclose_of_blank {delimiter before written : List Char}
    (h : Text.allBlank (written.drop before.length) = true) :
    enclose delimiter before written = written := by
  rw [enclose]
  exact if_pos h

namespace Inline

/-! ## Writing -/

/-- Whether an inline is plain text. -/
def isText : Inline → Bool
  | .text _ => true
  | _ => false

/-- Whether a list of inlines begins with a link. -/
def startsWithLink : List Inline → Bool
  | .link .. :: _ => true
  | _ => false

/-- The URL a target has, or the empty one while it is pending. -/
def urlOf (slots : Slots) (t : Target) : List Char := ((slots.read t).getD "").toList

mutual

/-- What has been written once an inline follows what was written before. -/
def write (style : Style) (slots : Slots) (before : List Char) : Inline → List Char
  | .text value => before ++ Escape.text value.toList
  | .code value => before ++ codeSpan value.toList
  | .math value => before ++ mathSpan style value.toList
  | .emphasis xs => enclose [style.emphasis] before (writeAll style slots before xs)
  | .strong xs => enclose style.strong.toList before (writeAll style slots before xs)
  | .delete xs => enclose ['~', '~'] before (writeAll style slots before xs)
  | .link target title _ xs =>
      writeAll style slots (before ++ ['[']) xs ++ [']', '('] ++
        Escape.target (urlOf slots target) ++ Escape.title title ++ [')']
  | .image target alt title _ =>
      before ++ ['!', '['] ++ Escape.text alt.toList ++ [']', '('] ++
        Escape.target (urlOf slots target) ++ Escape.title title ++ [')']

/-- What has been written once a list of inlines follows what was written before.  Where a text
is followed by a link, an exclamation mark at the end is escaped, as it would make the link an
image. -/
def writeAll (style : Style) (slots : Slots) (before : List Char) : List Inline → List Char
  | [] => before
  | x :: xs =>
      let written := x.write style slots before
      writeAll style slots
        (if x.isText && startsWithLink xs then Escape.finalBang written else written) xs

end

/-- A list of inlines as Markdown. -/
def markdown (style : Style) (slots : Slots) (xs : List Inline) : List Char :=
  writeAll style slots [] xs

end Inline

end DocExport
