import DocExport.Text.Blank

/-!
# Names inside an archive

Names come from documents and may hold anything.  Before one is used it is made *safe*: a single
path component that means nothing special anywhere.  A path is a safe name in a directory.

* **Main results.** `safeName` makes a name safe, and `splitExtension_append` says that a name is
  its stem followed by its extension.
-/

namespace DocExport.Archive

/-! ## Safe names -/

/-- Whether a character may not stand in a name: it separates parts of a path somewhere, or it
is a control character. -/
def isUnsafe (c : Char) : Bool := c == '/' || c == '\\' || c == ':' || Text.isControl c

/-- A name without surrounding blanks, with underscores in place of unsafe characters. -/
def cleaned (cs : List Char) : List Char :=
  (Text.trim cs).map fun c => if isUnsafe c then '_' else c

/-- Whether a name is empty or stands for a directory. -/
def isReserved (cs : List Char) : Bool := cs == [] || cs == ['.'] || cs == ['.', '.']

/-- A name as a single path component; one that is of no use is replaced. -/
def safeName (name : String) : String :=
  let cs := cleaned name.toList
  if isReserved cs then "untitled" else String.ofList cs

/-- The name of the document itself, made from its title. -/
def stemOf (title : String) : String :=
  if Text.allBlank title.toList then "doc" else safeName title

/-! ## Paths -/

/-- A text without the slashes at either end. -/
def trimSlashes (cs : List Char) : List Char :=
  ((cs.dropWhile (· == '/')).reverse.dropWhile (· == '/')).reverse

/-- A name in a directory; the directory without a name is the top of the archive. -/
def pathIn (dir name : String) : String :=
  let d := trimSlashes dir.toList
  if d.isEmpty then name else String.ofList d ++ "/" ++ name

/-- A name cut before its last dot.  A name without a dot, or whose only dot comes first, has no
extension. -/
def splitExtension (cs : List Char) : List Char × List Char :=
  match cs.reverse.dropWhile (· != '.') with
  | _ :: c :: rest => ((c :: rest).reverse, '.' :: (cs.reverse.takeWhile (· != '.')).reverse)
  | _ => (cs, [])

/-- A name with a number between its stem and its extension. -/
def numberedName (name : String) (k : Nat) : String :=
  let (stem, extension) := splitExtension name.toList
  String.ofList stem ++ "-" ++ toString k ++ String.ofList extension

/-- A name is its stem followed by its extension. -/
theorem splitExtension_append (cs : List Char) :
    (splitExtension cs).1 ++ (splitExtension cs).2 = cs := by
  unfold splitExtension
  cases h : cs.reverse.dropWhile (· != '.') with
  | nil => simp
  | cons dot others =>
    cases others with
    | nil => simp
    | cons c rest =>
      have hdot : dot = '.' := by
        have := List.head?_dropWhile_not (· != '.') cs.reverse
        simpa [h] using this
      have hall := List.takeWhile_append_dropWhile (p := (· != '.')) (l := cs.reverse)
      rw [h, hdot] at hall
      have hcs := congrArg List.reverse hall
      rw [List.reverse_reverse] at hcs
      refine Eq.trans ?_ hcs
      simp

end DocExport.Archive
