import DocExport.Archive.Report
import DocExport.Proofs.FreshPaths
import DocExport.Proofs.Harvests

/-!
# What an export packages

An export settles every entry of its plan once, whatever the order in which the fetches come to
their ends and whatever is cancelled on the way.  When its schedule has come to rest, the package,
the record of failures and the list of cancellations share the entries among themselves, and the
document points to just those media that are in the archive.

* **Main results.** `Plan.entries_accounted` says where every entry ends, and
  `Plan.archive_matches_document` that the document, the archive and what the fetches brought
  agree with each other.  Both are about every schedule that has come to rest, and by
  `Plan.run_is_schedule` the run of a plan is one.
-/

namespace DocExport

/-! ## What a document shows -/

/-- Every image and every link with a target shows the same thing as its URL. -/
structure Inline.ShowsTarget (style : Style) (slots : Slots) (target : Target)
    (shown : List Char) : Prop where
  image : ∀ before alt title media, (Inline.image target alt title media).write style slots before =
    before ++ ['!', '['] ++ Escape.text alt.toList ++ [']', '('] ++ shown ++
      Escape.title title ++ [')']
  link : ∀ before title media xs, (Inline.link target title media xs).write style slots before =
    Inline.writeAll style slots (before ++ ['[']) xs ++ [']', '('] ++ shown ++
      Escape.title title ++ [')']

/-- A pending target shows as a pair of angle brackets with nothing in between. -/
theorem Inline.showsTarget_of_pending {style : Style} {slots : Slots} {target : Target}
    (h : slots.read target = none) : Inline.ShowsTarget style slots target ['<', '>'] := by
  have hshown : Escape.target (urlOf slots target) = ['<', '>'] := by
    rw [urlOf, h]
    rfl
  constructor
  · intro before alt title media
    rw [write, hshown]
  · intro before title media xs
    rw [write, hshown]

namespace Archive

/-- The media in a package: all members of an archive but the first, which is the document. -/
def Contents.media : Contents → List (String × ByteArray)
  | .document _ => []
  | .archive members => members.tail

/-! ## Reports -/

namespace Pool

theorem settled_cancel {α : Type} (p : Pool α) (entry : Option Nat) :
    (p.cancel entry).settled = p.settled := by
  cases entry <;> rfl

theorem settled_fulfil {α : Type} (p : Pool α) (moment : Nat) :
    (p.fulfil moment).settled = p.settled :=
  fulfil_eq_of_cancel settled settled_cancel p moment

theorem IsOver.isStalled_eq_false {α : Type} {p : Pool α} (h : p.IsOver) : p.isStalled = false := by
  simp [isStalled, h.waiting]

end Pool

namespace Plan

variable {p : Plan} {slots : Slots} {wishes : List CancelWish} {pool : Pool ByteArray}
  {package : Package}

/-- The fetches of a plan are settled once each, with what the media of its entries can give. -/
theorem exists_results (hrun : (p.pool wishes).Reaches pool) (hover : pool.IsOver) :
    ∃ result : Nat → Except FetchFault ByteArray,
      pool.settled.Perm ((List.range p.entries.length).map fun i => (i, result i)) ∧
      ∀ i (e : Entry), p.entries[i]? = some e → e.media.source.Returns (result i) := by
  obtain ⟨result, hsettled, hreturns⟩ := Pool.exists_results hrun hover
  rw [List.length_map] at hsettled
  refine ⟨result, hsettled, fun i e he => hreturns i e.media.source ?_⟩
  rw [List.getElem?_map, he, Option.map_some]

theorem map_path_results (result : Nat → Except FetchFault ByteArray) :
    ((p.results result).map fun x => x.1.path) = p.entries.map Entry.path := by
  have hentries : (p.results result).map Prod.fst = p.entries := by
    rw [results, List.mapIdx_eq_zipIdx_map, List.map_map]
    exact List.zipIdx_map_fst 0 p.entries
  conv_rhs => rw [← hentries, List.map_map]
  rfl

/-- A package holds the media of the harvest and hands on its records. -/
theorem package_eq_ok {h : Harvest} (hpackage : p.package h = .ok package) :
    package.contents.media = p.mediaMembers h ∧ package.failures = h.failures ∧
      package.cancelled = h.cancelled := by
  unfold Plan.package at hpackage
  dsimp only at hpackage
  split at hpackage
  · rename_i hempty
    obtain rfl := Except.ok.inj hpackage
    have hnone : p.entries = [] := by simpa using hempty
    exact ⟨by simp [mediaMembers, hnone, Contents.media], rfl, rfl⟩
  · split at hpackage
    · exact absurd hpackage (by simp)
    · obtain rfl := Except.ok.inj hpackage
      exact ⟨rfl, rfl, rfl⟩

/-- A report that ends with a package is about a pool that has not stalled, has put together the
harvest, and has reported a step for each settled fetch and one for the package. -/
theorem report_eq_packaged (hreport : (p.report slots pool).outcome = .packaged package) :
    pool.isStalled = false ∧ p.package (p.harvest slots pool.settled) = .ok package ∧
      (p.report slots pool).progress =
        (List.range (pool.settled.length + 1)).map fun k => (k + 1, p.entries.length + 1) := by
  unfold report at hreport ⊢
  split at hreport
  · exact absurd hreport (by simp)
  · split at hreport
    · exact absurd hreport (by simp)
    · rename_i hstalled _ given hgiven
      obtain rfl := Outcome.packaged.inj hreport
      refine ⟨Bool.eq_false_iff.2 hstalled, hgiven, ?_⟩
      rw [if_neg hstalled]
      simp only [Report.progress, Outcome.steps, Pool.settled_fulfil]
      rfl

theorem report_of_package (hover : pool.IsOver)
    (hpackage : p.package (p.harvest slots pool.settled) = .ok package) :
    (p.report slots pool).outcome = .packaged package := by
  simp [report, hover.isStalled_eq_false, hpackage]

theorem report_of_refusal {reason : RepeatedName} (hover : pool.IsOver)
    (hpackage : p.package (p.harvest slots pool.settled) = .error reason) :
    (p.report slots pool).outcome = .refused reason := by
  simp [report, hover.isStalled_eq_false, hpackage]

theorem slotCount_pos (p : Plan) : 0 < p.settings.slotCount :=
  Nat.lt_of_lt_of_le Nat.zero_lt_one (Nat.le_max_left 1 p.settings.concurrency)

theorem isOver_of_isAtRest (hrun : (p.pool wishes).Reaches pool) (hrest : pool.IsAtRest)
    (hstalled : pool.isStalled = false) : pool.IsOver :=
  hrest.isOver_of_reaches p.slotCount_pos hrun hstalled

/-- The run of a plan is one of its schedules, and has come to rest. -/
theorem run_is_schedule (p : Plan) (slots : Slots) (wishes : List CancelWish) :
    ∃ pool, (p.pool wishes).Reaches pool ∧ pool.IsAtRest ∧
      p.run slots wishes = p.report slots pool :=
  ⟨_, Pool.reaches_run _, Pool.isAtRest_run _, rfl⟩

/-- **Every entry is accounted for.**  Take any schedule of the fetches of a plan, with any
cancellations, to the point where it comes to rest, and suppose that packaging succeeds.  Then the
fetch of each entry has come to one result, which its own media can give, and nothing else has been
settled.  The paths of the media in the archive, of the recorded failures and of the cancellations
are together the paths of the entries, each once; which of the three it is depends on the result.
The steps reported are one after the other for each entry, and a last one. -/
theorem entries_accounted (hrun : (p.pool wishes).Reaches pool) (hrest : pool.IsAtRest)
    (hreport : (p.report slots pool).outcome = .packaged package) :
    ∃ result : Nat → Except FetchFault ByteArray,
      (∀ i (e : Entry), p.entries[i]? = some e → e.media.source.Returns (result i)) ∧
      pool.settled.Perm ((List.range p.entries.length).map fun i => (i, result i)) ∧
      (package.contents.media.map Prod.fst ++ package.failures.map Failure.path ++
        package.cancelled).Perm (p.entries.map Entry.path) ∧
      package.contents.media = ((p.results result).filterMap fun x => x.1.member x.2) ∧
      package.failures.Perm ((p.results result).filterMap fun x => x.1.failure x.2) ∧
      package.cancelled.Perm ((p.results result).filterMap fun x => x.1.cancelledPath x.2) ∧
      (p.report slots pool).progress =
        (List.range (p.entries.length + 1)).map fun k => (k + 1, p.entries.length + 1) := by
  obtain ⟨hstalled, hpackage, hprogress⟩ := report_eq_packaged hreport
  have hover : pool.IsOver := isOver_of_isAtRest hrun hrest hstalled
  obtain ⟨result, hsettled, hreturns⟩ := exists_results hrun hover
  obtain ⟨hmedia, hfailures, hcancelled⟩ := package_eq_ok hpackage
  rw [mediaMembers_harvest hsettled] at hmedia
  have hfailed : package.failures.Perm ((p.results result).filterMap fun x => x.1.failure x.2) := by
    rw [hfailures]
    exact failures_harvest_perm hsettled
  have hlisted : package.cancelled.Perm
      ((p.results result).filterMap fun x => x.1.cancelledPath x.2) := by
    rw [hcancelled]
    exact cancelled_harvest_perm hsettled
  have hpaths : (package.contents.media.map Prod.fst ++ package.failures.map Failure.path ++
      package.cancelled).Perm (p.entries.map Entry.path) := by
    rw [hmedia, ← map_path_results result]
    refine List.Perm.trans ?_ (perm_map_path (p.results result))
    exact ((hfailed.map Failure.path).append_left _).append hlisted
  have hcount : pool.settled.length = p.entries.length := by simpa using hsettled.length_eq
  refine ⟨result, hreturns, hsettled, hpaths, hmedia, hfailed, hlisted, ?_⟩
  rw [hprogress, hcount]

/-- Three fetches with three fates: the first brings bytes, the second goes wrong, and the third
waits until it is cancelled. -/
def threeFates : Plan where
  stem := "notes"
  children := []
  entries := [
    ⟨.image, "images/a.png", ⟨"a.png", "A", .answer (.ok ⟨#[137]⟩)⟩, .slot 0⟩,
    ⟨.file, "files/b.pdf", ⟨"b.pdf", "B", .answer (.error (.failed "gone"))⟩, .slot 1⟩,
    ⟨.image, "images/c.png", ⟨"c.png", "C", .awaitCancel (.answer (.error .cancelled))⟩, .slot 2⟩]
  settings := {}
  style := {}

/-- The second fetch is over before the first one, and the third one, once it is cancelled, before
both; all the same, each leaves its trace once. -/
theorem entries_accounted_threeFates :
    ∃ (pool : Pool ByteArray) (package : Package),
      (threeFates.pool []).Reaches pool ∧ pool.IsAtRest ∧
      (threeFates.report {} pool).outcome = .packaged package ∧
      (package.contents.media.map Prod.fst ++ package.failures.map Failure.path ++
        package.cancelled).Perm ["images/a.png", "files/b.pdf", "images/c.png"] ∧
      (threeFates.report {} pool).progress = [(1, 4), (2, 4), (3, 4), (4, 4)] := by
  -- the queue holds all three fetches; the third one starts to wait, and is woken later on
  have hrun : (threeFates.pool []).Reaches _ :=
    Relation.ReflTransGen.refl
      |>.tail (.fill _)
      |>.tail (@Pool.Step.turn _ _ [_, _] [] _ _ rfl)
      |>.tail (.cancel _ (some 2))
      |>.tail (@Pool.Step.turn _ _ [_, _] [] _ _ rfl)
      |>.tail (@Pool.Step.turn _ _ [_] [] _ _ rfl)
      |>.tail (@Pool.Step.turn _ _ [] [] _ _ rfl)
  obtain ⟨result, -, -, hpaths, -, -, -, hprogress⟩ :=
    @entries_accounted threeFates {} [] _ _ hrun ⟨rfl, .inl rfl⟩ rfl
  exact ⟨_, _, hrun, ⟨rfl, .inl rfl⟩, rfl, hpaths, hprogress⟩

end Plan

/-! ## The document and the archive -/

/-- What the document shows for an entry and what the archive holds for it agree with what its
fetch came to. -/
structure Entry.Agrees (e : Entry) (style : Style) (final : Slots)
    (members : List (String × ByteArray)) (result : Except FetchFault ByteArray) : Prop where
  /-- The target reads the path of the entry exactly if its fetch brought bytes. -/
  resolved : final.read e.target = some e.path ↔ ∃ bytes, result = .ok bytes
  /-- Exactly then the archive has a member of this path. -/
  packed : e.path ∈ members.map Prod.fst ↔ ∃ bytes, result = .ok bytes
  /-- The member holds just these bytes. -/
  holds : ∀ bytes, (e.path, bytes) ∈ members ↔ result = .ok bytes
  /-- Otherwise the target is still pending, and every node with this target shows `<>`. -/
  pending : ∀ fault, result = .error fault →
    final.read e.target = none ∧ Inline.ShowsTarget style final e.target ['<', '>']

namespace Plan

variable {p : Plan} {slots : Slots} {wishes : List CancelWish} {pool : Pool ByteArray}
  {result : Nat → Except FetchFault ByteArray}

/-- What stands in the archive, by the results of the fetches. -/
theorem mem_filterMap_member_iff {member : String × ByteArray} :
    member ∈ (p.results result).filterMap (fun x => x.1.member x.2) ↔
      ∃ i e, p.entries[i]? = some e ∧ e.path = member.1 ∧ result i = .ok member.2 := by
  rw [mem_filterMap_results]
  have hadd : ∀ i (e : Entry), e.member (result i) = some member ↔
      e.path = member.1 ∧ result i = .ok member.2 := by
    intro i e
    rcases result i with fault | bytes
    · simp [Entry.member]
    · simp [Entry.member, Prod.ext_iff]
  simp only [hadd]

/-- The media in the archive have paths of entries, in the order of the plan. -/
theorem sublist_map_path (results : List (Entry × Except FetchFault ByteArray)) :
    ((results.filterMap fun x => x.1.member x.2).map Prod.fst).Sublist
      (results.map fun x => x.1.path) := by
  induction results with
  | nil => exact .slnil
  | cons x xs ih =>
    obtain ⟨e, fault | bytes⟩ := x
    · exact ih.cons e.path
    · exact ih.cons_cons e.path

/-- An archive with entries is put together if the names of the document and of the entries are
all different. -/
theorem package_harvest (slots : Slots)
    (hsettled : pool.settled.Perm ((List.range p.entries.length).map fun i => (i, result i)))
    (hentries : p.entries ≠ []) (hpaths : (p.entries.map Entry.path).Nodup)
    (hname : p.documentName ∉ p.entries.map Entry.path) :
    p.package (p.harvest slots pool.settled) = .ok ⟨p.stem ++ ".zip",
      .archive ((p.documentName, (Node.documentMarkdown p.style
        (p.harvest slots pool.settled).slots p.children).toUTF8) ::
          (p.results result).filterMap fun x => x.1.member x.2),
      (p.harvest slots pool.settled).failures, (p.harvest slots pool.settled).cancelled⟩ := by
  have hsub : (((p.results result).filterMap fun x => x.1.member x.2).map Prod.fst).Sublist
      (p.entries.map Entry.path) := by
    rw [← map_path_results result]
    exact sublist_map_path _
  have hnames : firstRepeated [] (p.documentName ::
      ((p.results result).filterMap fun x => x.1.member x.2).map Prod.fst) = none := by
    rw [firstRepeated_eq_none_iff, List.nodup_cons]
    exact ⟨⟨fun hmem => hname (hsub.subset hmem), hpaths.sublist hsub⟩, by simp⟩
  unfold Plan.package
  simp only [List.isEmpty_iff, hentries, if_false, mediaMembers_harvest hsettled, List.map_cons,
    hnames]

/-- Where the names are all different, the archive has an entry's bytes under its path, and
nothing else. -/
theorem mem_members_iff (result : Nat → Except FetchFault ByteArray)
    (hpaths : (p.entries.map Entry.path).Nodup)
    (hname : p.documentName ∉ p.entries.map Entry.path) (text : ByteArray) {i : Nat} {e : Entry}
    (he : p.entries[i]? = some e) (bytes : ByteArray) :
    (e.path, bytes) ∈ (p.documentName, text) ::
        ((p.results result).filterMap fun x => x.1.member x.2) ↔ result i = .ok bytes := by
  have hmem : e.path ∈ p.entries.map Entry.path :=
    List.mem_map_of_mem (List.mem_of_getElem? he)
  have hne : (e.path, bytes) ≠ (p.documentName, text) := by
    intro h
    exact hname ((Prod.mk.inj h).1 ▸ hmem)
  rw [List.mem_cons, or_iff_right hne,
    mem_filterMap_results_of_path Entry.member (fun _ _ _ => Entry.path_of_member) hpaths he rfl]
  cases result i <;> simp [Entry.member]

/-- The targets of the entries are pending when the plan is made. -/
theorem read_target_of_mem {title : String} {d : Document} {planned : Slots} {settings : Settings}
    {style : Style} {e : Entry} (he : e ∈ (ofDocument title d planned settings style).entries) :
    planned.read e.target = none := by
  have htarget : e.target ∈ (wants d planned).map Want.target := by
    rw [← map_target_reserveAll settings {}]
    exact List.mem_map_of_mem he
  obtain ⟨w, hw, hwt⟩ := List.mem_map.1 htarget
  rw [← hwt]
  exact Option.isNone_iff_eq_none.1 (List.mem_filter.1 hw).2

/-- Where the names and the targets are all different, the document and the archive agree. -/
theorem agrees
    (hsettled : pool.settled.Perm ((List.range p.entries.length).map fun i => (i, result i)))
    (hpaths : (p.entries.map Entry.path).Nodup)
    (hname : p.documentName ∉ p.entries.map Entry.path)
    (hdistinct : (p.entries.map Entry.target).Nodup) (text : ByteArray) {i : Nat} {e : Entry}
    (he : p.entries[i]? = some e) (hpending : slots.read e.target = none) :
    e.Agrees p.style (p.harvest slots pool.settled).slots
      ((p.documentName, text) :: (p.results result).filterMap fun x => x.1.member x.2)
      (result i) := by
  have hread := read_harvest hsettled hdistinct he hpending
  have hmem := mem_members_iff result hpaths hname text he
  refine ⟨?_, ?_, hmem, ?_⟩
  · rw [hread]
    cases result i <;> simp [Entry.member]
  · rw [List.mem_map]
    constructor
    · rintro ⟨⟨path, bytes⟩, hmember, rfl⟩
      exact ⟨bytes, (hmem bytes).1 hmember⟩
    · rintro ⟨bytes, hbytes⟩
      exact ⟨(e.path, bytes), (hmem bytes).2 hbytes, rfl⟩
  · intro fault hfault
    rw [hfault] at hread
    exact ⟨hread, Inline.showsTarget_of_pending hread⟩

/-- **The document and the archive agree.**  Take a plan for a document that needs media, with
directories to keep them in and a target of its own for each entry, and let it be run when all
these targets are still pending, with any schedule and any cancellations, until it comes to rest
without having stalled.  Then the export is packaged as an archive, with the document first, as it
reads in the end, and after it the fetched media in the order of the plan.  For every entry, the
document and the archive agree with what its fetch came to. -/
theorem archive_matches_document {title : String} {d : Document} {planned : Slots}
    {settings : Settings} {style : Style} (hp : p = ofDocument title d planned settings style)
    (hdirs : settings.HasDirs) (hentries : p.entries ≠ [])
    (hdistinct : (p.entries.map Entry.target).Nodup)
    (hpending : ∀ e ∈ p.entries, slots.read e.target = none)
    (hrun : (p.pool wishes).Reaches pool) (hrest : pool.IsAtRest)
    (hstalled : pool.isStalled = false) :
    ∃ (result : Nat → Except FetchFault ByteArray) (final : Slots)
      (members : List (String × ByteArray)) (failures : List Failure) (cancelled : List String),
      (∀ i (e : Entry), p.entries[i]? = some e → e.media.source.Returns (result i)) ∧
      pool.settled.Perm ((List.range p.entries.length).map fun i => (i, result i)) ∧
      final = (p.harvest slots pool.settled).slots ∧
      (p.report slots pool).outcome =
        .packaged ⟨p.stem ++ ".zip", .archive members, failures, cancelled⟩ ∧
      members = (p.documentName, (Node.documentMarkdown style final d.children).toUTF8) ::
        ((p.results result).filterMap fun x => x.1.member x.2) ∧
      ∀ i (e : Entry), p.entries[i]? = some e → e.Agrees style final members (result i) := by
  subst hp
  have hpaths := nodup_paths_ofDocument title d planned settings style
  have hname : (ofDocument title d planned settings style).documentName ∉ _ :=
    documentName_not_mem_paths hdirs
  have hover : pool.IsOver := isOver_of_isAtRest hrun hrest hstalled
  obtain ⟨result, hsettled, hreturns⟩ := exists_results hrun hover
  have hreport := report_of_package hover (package_harvest slots hsettled hentries hpaths hname)
  refine ⟨result, _, _, _, _, hreturns, hsettled, rfl, hreport, rfl, fun i e he => ?_⟩
  exact agrees hsettled hpaths hname hdistinct _ he (hpending e (List.mem_of_getElem? he))

/-- A document with an image that can be fetched and a file that cannot. -/
def imageAndFile : Document :=
  let image : Asset := ⟨.slot 0, "a plot", some ⟨"plot.png", "A", .answer (.ok ⟨#[137]⟩)⟩⟩
  let file : Asset := ⟨.slot 1, "data", some ⟨"data.csv", "B", .answer (.error (.failed "gone"))⟩⟩
  { children := [.paragraph [image.image], .paragraph [file.link]]
    images := [image]
    files := [file] }

/-- The file is settled before the image; the image is found in the archive, and the file stays
pending. -/
theorem archive_matches_document_imageAndFile :
    ∃ pool : Pool ByteArray,
      ((ofDocument "Notes" imageAndFile { issued := 2 } {} {}).pool []).Reaches pool ∧
      pool.IsAtRest ∧ pool.isStalled = false ∧
      ∃ (result : Nat → Except FetchFault ByteArray) (final : Slots)
        (members : List (String × ByteArray)) (failures : List Failure) (cancelled : List String),
        ((ofDocument "Notes" imageAndFile { issued := 2 } {} {}).report { issued := 2 }
          pool).outcome = .packaged ⟨"Notes.zip", .archive members, failures, cancelled⟩ ∧
        ∀ i (e : Entry),
          (ofDocument "Notes" imageAndFile { issued := 2 } {} {}).entries[i]? = some e →
            e.Agrees {} final members (result i) := by
  have hrun : ((ofDocument "Notes" imageAndFile { issued := 2 } {} {}).pool []).Reaches _ :=
    Relation.ReflTransGen.refl
      |>.tail (.fill _)
      |>.tail (@Pool.Step.turn _ _ [_] [] _ _ rfl)
      |>.tail (@Pool.Step.turn _ _ [] [] _ _ rfl)
  have hdistinct :
      ((ofDocument "Notes" imageAndFile { issued := 2 } {} {}).entries.map Entry.target).Nodup := by
    rw [ofDocument, map_target_reserveAll]
    decide
  obtain ⟨result, final, members, failures, cancelled, -, -, -, hreport, -, hagrees⟩ :=
    @archive_matches_document _ { issued := 2 } [] _ "Notes" imageAndFile { issued := 2 } {} {} rfl
      ⟨by decide, by decide⟩ (List.cons_ne_nil _ _) hdistinct (fun _ => read_target_of_mem) hrun
      ⟨rfl, .inl rfl⟩ rfl
  exact ⟨_, hrun, ⟨rfl, .inl rfl⟩, rfl, result, final, members, failures, cancelled, hreport,
    hagrees⟩

end Plan

end Archive

end DocExport
