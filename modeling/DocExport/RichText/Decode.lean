import DocExport.Json.Fields
import DocExport.RichText.Run

/-!
# Rich text from JSON

Runs and zones can be read from JSON.  A run has an `insert` and may have `attributes`, a zone
may have its plain text as `allText` and its runs as the `ops` of its `content`; whatever is
missing takes its default.

* **Main results.** `Run.ofJson?` and `Zone.ofJson?` decode a value.
-/

namespace DocExport

/-- A run from a JSON value. -/
def Run.ofJson? (x : Json) : Option Run := do
  match ← x.fields? ["insert", "attributes"] with
  | [some insert, attributes] =>
      let text ← insert.text?
      let entries ← Json.optional [] Json.texts? attributes
      return { text, attributes := Attributes.ofList entries }
  | _ => none

/-- The runs of a zone from the JSON value of its content. -/
def Zone.runsOfJson? (x : Json) : Option (List Run) := do
  match ← x.fields? ["ops"] with
  | [ops] => Json.optional [] (fun x => do (← x.elementsOf?).mapM Run.ofJson?) ops
  | _ => none

/-- A zone from a JSON value. -/
def Zone.ofJson? (x : Json) : Option Zone := do
  match ← x.fields? ["allText", "content"] with
  | [text, content] =>
      return {
        text := ← Json.optional "" Json.text? text
        runs := ← Json.optional [] Zone.runsOfJson? content }
  | _ => none

end DocExport
