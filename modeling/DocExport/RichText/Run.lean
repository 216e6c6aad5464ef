import DocExport.RichText.Attributes
import DocExport.Text.Percent

/-!
# Runs of styled text

Rich text is a list of *runs*, each a stretch of text with its own attributes.  Four
attributes are *marks* that style the text; others make a run code or a formula.  The text of a
block is kept as a *zone*: its runs beside the plain text they spell.  An editor ends every zone
with one more run, the *terminator*, which is not part of what was written.

* **Main results.** `Zone.ofRuns` builds a zone the way an editor stores it, and
  `Run.isTerminator_terminator` says that what it appends is recognised again.
-/

namespace DocExport

/-! ## Marks -/

/-- The ways in which a run can be marked. -/
inductive Mark where
  | emphasis
  | strong
  | delete
  | link
  deriving DecidableEq, Repr

/-- The mark an attribute stands for, if it is one. -/
def Mark.ofName? : String → Option Mark
  | "italic" => some .emphasis
  | "bold" => some .strong
  | "strikethrough" => some .delete
  | "link" => some .link
  | _ => none

/-! ## Runs -/

/-- A stretch of text with its attributes. -/
structure Run where
  /-- The text. -/
  text : String
  /-- How the text is styled. -/
  attributes : Attributes := {}

namespace Run

/-- The number of characters in a run. -/
def length (r : Run) : Nat := r.text.length

/-- The marks of a run in the order of their declaration. -/
def marks (r : Run) : List Mark := r.attributes.names.filterMap Mark.ofName?

/-- Whether a run carries a mark. -/
def carries (r : Run) (mark : Mark) : Bool := r.marks.contains mark

/-- The URL that a linked run points to. -/
def url (r : Run) : String := Text.Percent.decode ((r.attributes.get? "link").getD "")

/-- Whether a run is the end that an editor puts after the text of a block. -/
def isTerminator (r : Run) : Bool :=
  match r.attributes.get? "fixEnter" with
  | some value => !value.isEmpty
  | none => false

/-- The end that an editor puts after the text of a block. -/
def terminator : Run := ⟨"\n", Attributes.ofList [("fixEnter", "true")]⟩

/-- The terminator is recognised. -/
theorem isTerminator_terminator : terminator.isTerminator = true := by decide

end Run

/-! ## Zones -/

/-- The text of a block. -/
structure Zone where
  /-- The plain text. -/
  text : String := ""
  /-- The same text as runs. -/
  runs : List Run := []

namespace Zone

/-- The zone of a list of runs: it spells them and a line feed, and ends in the terminator. -/
def ofRuns (runs : List Run) : Zone where
  text := String.join (runs.map Run.text) ++ "\n"
  runs := runs ++ [Run.terminator]

/-- The zone of a plain text. -/
def ofText (text : String) : Zone := ofRuns [{ text }]

end Zone

end DocExport
