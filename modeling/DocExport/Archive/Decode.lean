import DocExport.Archive.Plan
import DocExport.Json.Fields

/-!
# Archive settings from JSON

* **Main results.** `Settings.ofJson?` decodes settings; whatever is missing takes its default.
-/

namespace DocExport.Archive

-- powers are the plain ones, whatever else is imported beside this module
attribute [local instance (2000)] instPowNat

/-- Settings from a JSON value. -/
def Settings.ofJson? (x : Json) : Option Settings := do
  match ← x.fields? ["concurrency", "images_dir", "files_dir"] with
  | [concurrency, images, files] =>
      let plain : Settings := {}
      return {
        concurrency :=
          ← Json.optional plain.concurrency (Json.natBelow? (2 ^ (64 : Nat))) concurrency
        imagesDir := ← Json.optional plain.imagesDir Json.text? images
        filesDir := ← Json.optional plain.filesDir Json.text? files }
  | _ => none

end DocExport.Archive
