import DocExport.Block
import DocExport.Target
import DocExport.Text.Quoted

/-!
# Descriptions

Short descriptions of targets and media blocks for a reader who wants to know what they hold.
Sources of media cannot be described and are passed over.

* **Main results.** `Slots.describe` describes what a target reads, and `Kind.describe?` a media
  block.
-/

namespace DocExport

open Text

/-- What a target reads, described. -/
def Slots.describe (slots : Slots) (t : Target) : String :=
  match slots.read t with
  | none => "Pending"
  | some url => "Resolved(" ++ Quoted.quote url ++ ")"

/-- The description of a thing with some named parts, which has others besides. -/
def describeParts (what : String) (parts : List (String × String)) : String :=
  let listed := parts.map fun p => p.1 ++ ": " ++ p.2
  what ++ " \x7b " ++ ", ".intercalate (listed ++ [".. \x7d"])

/-- The description of a media block. -/
def Kind.describe? : Kind → Option String
  | .image media caption =>
      let described :=
        match caption with
        | none => "None"
        | some c => "Some(" ++ Quoted.quote c ++ ")"
      some (describeParts "ImageBlock"
        [("token", Quoted.quote media.token), ("name", Quoted.quote media.name),
          ("caption", described)])
  | .file media =>
      some (describeParts "FileBlock"
        [("token", Quoted.quote media.token), ("name", Quoted.quote media.name)])
  | .whiteboard token _ => some (describeParts "WhiteboardBlock" [("token", Quoted.quote token)])
  | _ => none

end DocExport
