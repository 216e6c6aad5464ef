import DocExport.Archive.Ledger
import DocExport.Document.OfBlock
import DocExport.Markdown.Style

/-!
# Plans for an archive

Before anything is fetched, an export is planned: every image and file of the document that has
media and still has no URL gets an entry with a path of its own, images first and each kind in
the order of the document.  An entry is known by its place in the plan.

* **Main results.** `wants` lists the assets that need an entry, and `Plan.ofDocument` makes the
  plan.
-/

namespace DocExport.Archive

/-- How an archive is laid out and filled. -/
structure Settings where
  /-- How many fetches may be under way at a time. -/
  concurrency : Nat := 5
  /-- Where images are kept. -/
  imagesDir : String := "images"
  /-- Where other files are kept. -/
  filesDir : String := "files"
  deriving DecidableEq, Repr

/-- The number of fetches that are really under way at a time: there is always room for one. -/
def Settings.slotCount (s : Settings) : Nat := max 1 s.concurrency

/-- What an entry holds. -/
inductive MediaKind where
  | image
  | file
  deriving DecidableEq, Repr

/-- The directory for a kind of media. -/
def Settings.dirFor (s : Settings) : MediaKind → String
  | .image => s.imagesDir
  | .file => s.filesDir

/-- Media of a document that have to be fetched. -/
structure Want where
  kind : MediaKind
  media : Media
  target : Target

/-- Media with the path under which the archive keeps them. -/
structure Entry where
  kind : MediaKind
  path : String
  media : Media
  target : Target

/-- The media among some assets. -/
def wantsOf (kind : MediaKind) (assets : List Asset) : List Want :=
  assets.filterMap fun a => a.media.map fun media => ⟨kind, media, a.target⟩

/-- The media of a document that have to be fetched: those whose targets are still pending. -/
def wants (d : Document) (slots : Slots) : List Want :=
  (wantsOf .image d.images ++ wantsOf .file d.files).filter fun w => (slots.read w.target).isNone

/-- Reserve a path for each of the media, in order. -/
def reserveAll (settings : Settings) (ledger : Ledger) : List Want → List Entry
  | [] => []
  | w :: ws =>
      let (path, ledger) := ledger.reserve (settings.dirFor w.kind) w.media.name
      ⟨w.kind, path, w.media, w.target⟩ :: reserveAll settings ledger ws

/-- A planned export. -/
structure Plan where
  /-- The name of the document and of its archive, without extension. -/
  stem : String
  /-- The blocks of the document. -/
  children : List Node
  /-- The media to fetch. -/
  entries : List Entry
  settings : Settings
  style : Style

namespace Plan

/-- The plan for a document. -/
def ofDocument (title : String) (d : Document) (slots : Slots) (settings : Settings)
    (style : Style) : Plan where
  stem := stemOf title
  children := d.children
  entries := reserveAll settings {} (wants d slots)
  settings := settings
  style := style

/-- The number of steps of an export: one for each entry, and one for the document. -/
def total (p : Plan) : Nat := p.entries.length + 1

/-- The name of the document. -/
def documentName (p : Plan) : String := p.stem ++ ".md"

end Plan

end DocExport.Archive
