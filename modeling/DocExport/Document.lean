import DocExport.Markdown.Node

/-!
# Documents

A document is a list of Markdown blocks together with the images and files it refers to.  The
target of an image or a file is shared between the tree and the lists, so that whoever fetches
it later can fill in the link.

* **Main results.** `Asset.image` and `Asset.link` say how an asset stands in the tree.
-/

namespace DocExport

/-- An image or a file that a document refers to. -/
structure Asset where
  /-- Where the document points; shared with the tree. -/
  target : Target
  /-- The text that stands for it: the alternative text of an image, the visible name of a
  file. -/
  label : String
  /-- How to fetch it. -/
  media : Option Media

namespace Asset

/-- The image in the tree. -/
def image (a : Asset) : Inline := .image a.target a.label none a.media

/-- The link to the file in the tree. -/
def link (a : Asset) : Inline := .link a.target none a.media [.text a.label]

end Asset

/-- A Markdown document with the images and files it refers to. -/
structure Document where
  /-- The blocks of the document. -/
  children : List Node := []
  /-- Its images in the order in which they were met. -/
  images : List Asset := []
  /-- Its files in the order in which they were met. -/
  files : List Asset := []

end DocExport
