import DocExport.Proofs.Packages

/-!
# The names of the members of an archive

The paths of the media in an archive come from one ledger, so they are all different.  The name of
the document does not: it is made from the title, and no path is reserved for it.  Where media are
kept at the top of the archive, one of them may have that very name, and if it is fetched, the
archive is refused.

* **Main results.** `firstRepeated_eq_some` says which name a refusal is about, and
  `Plan.nodup_memberNames_iff` when the names are all different, and what becomes of the export if
  they are and if they are not.
-/

namespace DocExport.Archive

/-- A refused name stands behind another one like it. -/
theorem firstRepeated_eq_some {seen ns : List String} {n : String}
    (h : firstRepeated seen ns = some n) :
    ∃ before after, ns = before ++ n :: after ∧ (n ∈ seen ∨ n ∈ before) := by
  induction ns generalizing seen with
  | nil => exact absurd h (by simp [firstRepeated])
  | cons m ns ih =>
    rw [firstRepeated] at h
    split at h
    · rename_i hseen
      obtain rfl := Option.some.inj h
      exact ⟨[], ns, rfl, .inl hseen⟩
    · obtain ⟨before, after, rfl, hn⟩ := ih h
      refine ⟨m :: before, after, rfl, ?_⟩
      rcases hn with hn | hn
      · rcases List.mem_cons.1 hn with rfl | hn
        · exact .inr List.mem_cons_self
        · exact .inl hn
      · exact .inr (List.mem_cons_of_mem _ hn)

/-- Where all names but the first are different, the refused name is the first one. -/
theorem eq_of_firstRepeated_cons {n m : String} {ns : List String} (hns : ns.Nodup)
    (h : firstRepeated [] (n :: ns) = some m) : m = n := by
  obtain ⟨before, after, hsplit, hm⟩ := firstRepeated_eq_some h
  have hbefore := hm.resolve_left List.not_mem_nil
  cases before with
  | nil => exact absurd hbefore List.not_mem_nil
  | cons b before =>
    rw [List.cons_append, List.cons_eq_cons] at hsplit
    obtain ⟨rfl, rfl⟩ := hsplit
    rcases List.mem_cons.1 hbefore with rfl | hbefore
    · rfl
    · exact absurd rfl ((List.nodup_append.1 hns).2.2 m hbefore m List.mem_cons_self)

namespace Plan

/-- The names of the members of an archive: that of the document, and the paths of the media that
were fetched. -/
def memberNames (p : Plan) (h : Harvest) : List String :=
  p.documentName :: (p.mediaMembers h).map Prod.fst

variable {p : Plan} {h : Harvest}

/-- An archive with media is put together unless a name of its members is repeated. -/
theorem package_of_entries (hentries : p.entries ≠ []) :
    p.package h =
      match firstRepeated [] (p.memberNames h) with
      | some name => .error ⟨name⟩
      | none => .ok ⟨p.stem ++ ".zip",
          .archive ((p.documentName, (Node.documentMarkdown p.style h.slots p.children).toUTF8) ::
            p.mediaMembers h), h.failures, h.cancelled⟩ := by
  unfold Plan.package
  simp only [List.isEmpty_iff, hentries, if_false, List.map_cons]
  rfl

/-- A package is put together if the names of its members are all different; otherwise it is refused
for the name of the document, provided that the media have different paths. -/
theorem package_of_memberNames (hmedia : ((p.mediaMembers h).map Prod.fst).Nodup) :
    ((p.memberNames h).Nodup → ∃ package, p.package h = .ok package) ∧
      (¬ (p.memberNames h).Nodup → p.package h = .error ⟨p.documentName⟩) := by
  by_cases hentries : p.entries = []
  · have hnames : p.memberNames h = [p.documentName] := by
      simp [memberNames, mediaMembers, hentries]
    rw [hnames, Plan.package, hentries]
    exact ⟨fun _ => ⟨_, rfl⟩, fun hnot => absurd (List.nodup_singleton _) hnot⟩
  · have hnone : firstRepeated [] (p.memberNames h) = none ↔ (p.memberNames h).Nodup := by
      rw [firstRepeated_eq_none_iff]
      simp
    rw [package_of_entries hentries]
    cases hrepeated : firstRepeated [] (p.memberNames h) with
    | none => exact ⟨fun _ => ⟨_, rfl⟩, fun hnot => absurd (hnone.1 hrepeated) hnot⟩
    | some name =>
      refine ⟨fun hnodup => ?_, fun _ => by rw [eq_of_firstRepeated_cons hmedia hrepeated]⟩
      rw [hnone.2 hnodup] at hrepeated
      cases hrepeated

variable {slots : Slots} {wishes : List CancelWish} {pool : Pool ByteArray}

/-- **When the names in an archive are all different.**  Take any schedule of the fetches of a plan
for a document, with any cancellations, to the point where no fetch is left.  The names of the
members of the archive are all different exactly if no entry that has the name of the document has
been fetched; only entries that are kept at the top of the archive can have that name.  If all
names are different, the export is packaged, and otherwise it is refused for the name of the
document. -/
theorem nodup_memberNames_iff {title : String} {d : Document} {planned : Slots}
    {settings : Settings} {style : Style} (hp : p = ofDocument title d planned settings style)
    (hrun : (p.pool wishes).Reaches pool) (hover : pool.IsOver)
    (hh : h = p.harvest slots pool.settled) :
    ∃ result : Nat → Except FetchFault ByteArray,
      (∀ i (e : Entry), p.entries[i]? = some e → e.media.source.Returns (result i)) ∧
      pool.settled.Perm ((List.range p.entries.length).map fun i => (i, result i)) ∧
      ((p.memberNames h).Nodup ↔ ∀ i (e : Entry), p.entries[i]? = some e →
        e.path = p.documentName → ∃ fault, result i = .error fault) ∧
      (∀ e ∈ p.entries, e.path = p.documentName →
        trimSlashes (settings.dirFor e.kind).toList = []) ∧
      ((p.memberNames h).Nodup → ∃ package, (p.report slots pool).outcome = .packaged package) ∧
      (¬ (p.memberNames h).Nodup → (p.report slots pool).outcome = .refused ⟨p.documentName⟩) := by
  obtain ⟨result, hsettled, hreturns⟩ := exists_results hrun hover
  have hpaths : (p.entries.map Entry.path).Nodup := by
    rw [hp]
    exact nodup_paths_ofDocument title d planned settings style
  have hmembers : p.mediaMembers h = (p.results result).filterMap fun x => x.1.member x.2 := by
    rw [hh]
    exact mediaMembers_harvest hsettled
  have hmedia : ((p.mediaMembers h).map Prod.fst).Nodup := by
    rw [hmembers]
    refine List.Nodup.sublist ?_ hpaths
    rw [← map_path_results result]
    exact sublist_map_path _
  obtain ⟨hpacked, hrefused⟩ := package_of_memberNames hmedia
  refine ⟨result, hreturns, hsettled, ?_, ?_, fun hnames => ?_, fun hnames => ?_⟩
  · rw [memberNames, List.nodup_cons, and_iff_left hmedia, hmembers]
    constructor
    · intro hfree i e he hpath
      cases hresult : result i with
      | error fault => exact ⟨fault, rfl⟩
      | ok bytes =>
        refine absurd (List.mem_map.2 ⟨(p.documentName, bytes), ?_, rfl⟩) hfree
        exact mem_filterMap_member_iff.2 ⟨i, e, he, hpath, hresult⟩
    · intro hfaults hmem
      obtain ⟨member, hmember, hname⟩ := List.mem_map.1 hmem
      obtain ⟨i, e, he, hpath, hbytes⟩ := mem_filterMap_member_iff.1 hmember
      obtain ⟨fault, hfault⟩ := hfaults i e he (hpath.trans hname)
      rw [hfault] at hbytes
      cases hbytes
  · subst hp
    exact fun e he hpath => trimSlashes_dirFor_eq_nil he hpath
  · obtain ⟨package, hpackage⟩ := hpacked hnames
    exact ⟨package, report_of_package hover (hh ▸ hpackage)⟩
  · exact report_of_refusal hover (hh ▸ hrefused hnames)

/-- A document with an image that is named like a page, and another one. -/
def pageAndPlot (page : Except FetchFault ByteArray) : Document :=
  let page : Asset := ⟨.slot 0, "a page", some ⟨"notes.md", "A", .answer page⟩⟩
  let plot : Asset := ⟨.slot 1, "a plot", some ⟨"plot.png", "B", .answer (.ok ⟨#[137]⟩)⟩⟩
  { children := [.paragraph [page.image, plot.image]], images := [page, plot] }

/-- Images at the top of the archive. -/
def atTop : Settings := { imagesDir := "" }

/-- An image that has the name of the document does no harm if it is not fetched. -/
theorem nodup_memberNames_pageAndPlot :
    ∃ pool : Pool ByteArray,
      ((ofDocument "notes" (pageAndPlot (.error (.failed "gone"))) { issued := 2 } atTop {}).pool
        []).Reaches pool ∧
      pool.IsOver ∧
      (ofDocument "notes" (pageAndPlot (.error (.failed "gone"))) { issued := 2 } atTop
        {}).entries.map Entry.path = ["notes.md", "plot.png"] ∧
      ∃ package, ((ofDocument "notes" (pageAndPlot (.error (.failed "gone"))) { issued := 2 } atTop
        {}).report { issued := 2 } pool).outcome = .packaged package := by
  have hrun : ((ofDocument "notes" (pageAndPlot (.error (.failed "gone"))) { issued := 2 } atTop
      {}).pool []).Reaches _ :=
    Relation.ReflTransGen.refl
      |>.tail (.fill _)
      |>.tail (@Pool.Step.turn _ _ [_] [] _ _ rfl)
      |>.tail (@Pool.Step.turn _ _ [] [] _ _ rfl)
  obtain ⟨-, -, -, -, -, hpackaged, -⟩ :=
    @nodup_memberNames_iff _ _ { issued := 2 } [] _ "notes" _ { issued := 2 } atTop {} rfl hrun
      ⟨rfl, rfl, rfl⟩ rfl
  exact ⟨_, hrun, ⟨rfl, rfl, rfl⟩, by decide, hpackaged (by decide)⟩

/-- An image that has the name of the document and is fetched: the archive is refused. -/
theorem refused_pageAndPlot :
    ∃ pool : Pool ByteArray,
      ((ofDocument "notes" (pageAndPlot (.ok ⟨#[137]⟩)) { issued := 2 } atTop {}).pool
        []).Reaches pool ∧
      pool.IsOver ∧
      ¬ ((ofDocument "notes" (pageAndPlot (.ok ⟨#[137]⟩)) { issued := 2 } atTop {}).memberNames
        ((ofDocument "notes" (pageAndPlot (.ok ⟨#[137]⟩)) { issued := 2 } atTop {}).harvest
          { issued := 2 } pool.settled)).Nodup ∧
      ((ofDocument "notes" (pageAndPlot (.ok ⟨#[137]⟩)) { issued := 2 } atTop {}).report
        { issued := 2 } pool).outcome = .refused ⟨"notes.md"⟩ := by
  have hrun : ((ofDocument "notes" (pageAndPlot (.ok ⟨#[137]⟩)) { issued := 2 } atTop {}).pool
      []).Reaches _ :=
    Relation.ReflTransGen.refl
      |>.tail (.fill _)
      |>.tail (@Pool.Step.turn _ _ [] [_] _ _ rfl)
      |>.tail (@Pool.Step.turn _ _ [] [] _ _ rfl)
  exact ⟨_, hrun, ⟨rfl, rfl, rfl⟩, by decide, rfl⟩

end Plan

end DocExport.Archive
