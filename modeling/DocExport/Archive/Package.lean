import DocExport.Archive.Plan
import DocExport.Markdown.Flow

/-!
# Packages

Once every fetch of a plan is settled, the export is put together.  Media that were fetched
resolve their targets, so that the document points into the archive; faults and cancellations
are kept on record.  A document without media is packaged by itself, any other one as an
archive with the document as its first member.

* **Main results.** `Plan.package` puts a package together, `firstRepeated_eq_none_iff` says that
  a list of names is accepted exactly when no name occurs twice.
-/

namespace DocExport.Archive

/-- A fetch that did not produce bytes, though it was not cancelled. -/
structure Failure where
  kind : MediaKind
  path : String
  name : String
  fault : FetchFault
  deriving DecidableEq, Repr

/-- What the fetches of a plan have brought. -/
structure Harvest where
  /-- The slots of the document, filled where media were fetched. -/
  slots : Slots
  /-- The entries that were fetched, with their bytes. -/
  fetched : List (Nat × ByteArray) := []
  /-- The fetches that went wrong. -/
  failures : List Failure := []
  /-- The paths of the fetches that were cancelled. -/
  cancelled : List String := []

/-- Settle one entry.  A target that has got a URL in the meantime keeps it. -/
def Harvest.add (h : Harvest) (i : Nat) (e : Entry) :
    Except FetchFault ByteArray → Harvest
  | .ok bytes =>
      let slots :=
        match h.slots.resolve e.target e.path with
        | .ok slots => slots
        | .error _ => h.slots
      { h with slots, fetched := h.fetched ++ [(i, bytes)] }
  | .error .cancelled => { h with cancelled := h.cancelled ++ [e.path] }
  | .error fault =>
      { h with failures := h.failures ++ [⟨e.kind, e.path, e.media.name, fault⟩] }

/-- What an export delivers. -/
inductive Contents where
  /-- A document by itself. -/
  | document (text : String)
  /-- An archive: its members with their names, in order. -/
  | archive (members : List (String × ByteArray))

/-- A finished export. -/
structure Package where
  fileName : String
  contents : Contents
  failures : List Failure
  cancelled : List String

/-- Whether a package is an archive, going by its name. -/
def Package.isZip (p : Package) : Bool := ".zip".toList.isSuffixOf p.fileName.toList

/-- Why an archive cannot be put together: two of its members have this name. -/
structure RepeatedName where
  name : String
  deriving DecidableEq, Repr

/-- The wording of the refusal. -/
def RepeatedName.message (e : RepeatedName) : String :=
  "Zip error: invalid Zip archive: Duplicate filename: " ++ e.name

/-- The first name that has been used before, where those in `seen` have been used already. -/
def firstRepeated (seen : List String) : List String → Option String
  | [] => none
  | n :: ns => if n ∈ seen then some n else firstRepeated (n :: seen) ns

/-- Names are accepted exactly when none of them has been used before. -/
theorem firstRepeated_eq_none_iff (seen ns : List String) :
    firstRepeated seen ns = none ↔ ns.Nodup ∧ ∀ n ∈ ns, n ∉ seen := by
  induction ns generalizing seen with
  | nil => simp [firstRepeated]
  | cons n ns ih =>
    by_cases h : n ∈ seen
    · simp [firstRepeated, h]
    · rw [firstRepeated, if_neg h, ih, List.nodup_cons]
      constructor
      · rintro ⟨hnd, hns⟩
        refine ⟨⟨fun hmem => hns n hmem (by simp), hnd⟩, ?_⟩
        intro m hm
        rcases List.mem_cons.1 hm with rfl | hm
        · exact h
        · exact fun hs => hns m hm (by simp [hs])
      · rintro ⟨⟨hn, hnd⟩, hns⟩
        refine ⟨hnd, fun m hm hs => ?_⟩
        rcases List.mem_cons.1 hs with rfl | hs
        · exact hn hm
        · exact hns m (by simp [hm]) hs

namespace Plan

/-- What the settled fetches of a plan bring, in the order in which they were settled. -/
def harvest (p : Plan) (slots : Slots) (settled : List (Nat × Except FetchFault ByteArray)) :
    Harvest :=
  settled.foldl
    (fun h s =>
      match p.entries[s.1]? with
      | some e => h.add s.1 e s.2
      | none => h)
    { slots }

/-- The members of an archive besides the document: the fetched media in the order of the plan. -/
def mediaMembers (p : Plan) (h : Harvest) : List (String × ByteArray) :=
  (p.entries.mapIdx fun i e => (h.fetched.lookup i).map fun bytes => (e.path, bytes)).filterMap id

/-- Put the package together. -/
def package (p : Plan) (h : Harvest) : Except RepeatedName Package :=
  let text := Node.documentMarkdown p.style h.slots p.children
  if p.entries.isEmpty then
    .ok ⟨p.documentName, .document text, h.failures, h.cancelled⟩
  else
    let members := (p.documentName, text.toUTF8) :: p.mediaMembers h
    match firstRepeated [] (members.map Prod.fst) with
    | some name => .error ⟨name⟩
    | none => .ok ⟨p.stem ++ ".zip", .archive members, h.failures, h.cancelled⟩

end Plan

end DocExport.Archive
