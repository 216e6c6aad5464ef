import DocExport.Proofs.Packages
import DocExport.Proofs.Undisturbed
import DocExport.Proofs.WrittenTargets

/-!
# Exports do not depend on timing

Fetches are settled in the order in which they happen to come to their ends, and how many of them
are under way at a time is a matter of settings.  As long as nobody cancels any of them, neither
makes a difference to what is delivered: the document, the archive and what is found in it are the
same, and only the records of what went wrong may be in another order.

* **Main results.** `Plan.read_harvest_congr` says that targets read the same whatever the order
  was, `Plan.package_matches` that packages are put together alike, and
  `Plan.report_outcome_matches` that any two runs of a plan without cancellations end alike.
-/

namespace DocExport.Archive

/-! ## Ends that are alike -/

/-- Two packages are the same, but for the order of what is on record. -/
structure Package.Matches (a b : Package) : Prop where
  fileName : a.fileName = b.fileName
  contents : a.contents = b.contents
  failures : a.failures.Perm b.failures
  cancelled : a.cancelled.Perm b.cancelled

/-- Two exports end alike: with packages that match, with the same refusal, or not at all. -/
inductive Outcome.Matches : Outcome → Outcome → Prop where
  | packaged {a b : Package} (h : a.Matches b) : Matches (.packaged a) (.packaged b)
  | refused (reason : RepeatedName) : Matches (.refused reason) (.refused reason)
  | stalled : Matches .stalled .stalled

namespace Plan

/-! ## The setting -/

/-- A plan with another limit for the fetches that are under way at a time. -/
def withConcurrency (p : Plan) (n : Nat) : Plan :=
  { p with settings := { p.settings with concurrency := n } }

/-- The limit makes no difference when an export is planned. -/
theorem withConcurrency_ofDocument (title : String) (d : Document) (slots : Slots)
    (settings : Settings) (style : Style) (n : Nat) :
    (ofDocument title d slots settings style).withConcurrency n =
      ofDocument title d slots { settings with concurrency := n } style := by
  have hentries : ∀ (ledger : Ledger) (ws : List Want), reserveAll settings ledger ws =
      reserveAll { settings with concurrency := n } ledger ws := by
    intro ledger ws
    induction ws generalizing ledger with
    | nil => rfl
    | cons w ws ih =>
      have hdir : Settings.dirFor { settings with concurrency := n } w.kind =
          settings.dirFor w.kind := by
        cases w.kind <;> rfl
      simp only [reserveAll, hdir, ih]
  simp only [ofDocument, withConcurrency, hentries]

theorem report_withConcurrency (p : Plan) (n : Nat) (slots : Slots) (pool : Pool ByteArray) :
    (p.withConcurrency n).report slots pool = p.report slots pool :=
  rfl

/-! ## Harvests of the same results -/

section Harvests

variable {p : Plan} {slots : Slots} {result : Nat → Except FetchFault ByteArray}
  {settled settled' : List (Nat × Except FetchFault ByteArray)}

/-- Whatever the order in which fetches are settled, all targets read the same in the end. -/
theorem read_harvest_congr
    (hsettled : settled.Perm ((List.range p.entries.length).map fun i => (i, result i)))
    (hsettled' : settled'.Perm ((List.range p.entries.length).map fun i => (i, result i)))
    (hdistinct : (p.entries.map Entry.target).Nodup)
    (hpending : ∀ e ∈ p.entries, slots.read e.target = none) (t : Target) :
    (p.harvest slots settled).slots.read t = (p.harvest slots settled').slots.read t := by
  by_cases ht : ∃ e ∈ p.entries, e.target = t
  · obtain ⟨e, he, rfl⟩ := ht
    obtain ⟨i, hi⟩ := List.getElem?_of_mem he
    rw [read_harvest hsettled hdistinct hi (hpending e he),
      read_harvest hsettled' hdistinct hi (hpending e he)]
  · -- nobody settles the target
    have hother : ∀ s : Nat × Except FetchFault ByteArray, ∀ e, p.entries[s.1]? = some e →
        t ≠ e.target :=
      fun s e he heq => ht ⟨e, List.mem_of_getElem? he, heq.symm⟩
    rw [harvest_eq_foldl, harvest_eq_foldl, read_foldl_gather_of_ne fun s _ _ _ => hother s,
      read_foldl_gather_of_ne fun s _ _ _ => hother s]

/-- Harvests that agree in what targets read and in their media are put together alike. -/
theorem package_congr {h h' : Harvest} (hread : ∀ t, h.slots.read t = h'.slots.read t)
    (hmedia : p.mediaMembers h = p.mediaMembers h') (hfailures : h.failures.Perm h'.failures)
    (hcancelled : h.cancelled.Perm h'.cancelled) :
    (∃ a b, p.package h = .ok a ∧ p.package h' = .ok b ∧ a.Matches b) ∨
      ∃ reason, p.package h = .error reason ∧ p.package h' = .error reason := by
  unfold Plan.package
  rw [Node.documentMarkdown_congr hread, hmedia]
  dsimp only
  split
  · exact .inl ⟨_, _, rfl, rfl, rfl, rfl, hfailures, hcancelled⟩
  · split
    · exact .inr ⟨_, rfl, rfl⟩
    · exact .inl ⟨_, _, rfl, rfl, rfl, rfl, hfailures, hcancelled⟩

/-- Whatever the order in which fetches are settled, the package is put together alike. -/
theorem package_matches
    (hsettled : settled.Perm ((List.range p.entries.length).map fun i => (i, result i)))
    (hsettled' : settled'.Perm ((List.range p.entries.length).map fun i => (i, result i)))
    (hdistinct : (p.entries.map Entry.target).Nodup)
    (hpending : ∀ e ∈ p.entries, slots.read e.target = none) :
    (∃ a b, p.package (p.harvest slots settled) = .ok a ∧
        p.package (p.harvest slots settled') = .ok b ∧ a.Matches b) ∨
      ∃ reason, p.package (p.harvest slots settled) = .error reason ∧
        p.package (p.harvest slots settled') = .error reason := by
  refine package_congr (read_harvest_congr hsettled hsettled' hdistinct hpending) ?_ ?_ ?_
  · rw [mediaMembers_harvest hsettled, mediaMembers_harvest hsettled']
  · exact (failures_harvest_perm hsettled).trans (failures_harvest_perm hsettled').symm
  · exact (cancelled_harvest_perm hsettled).trans (cancelled_harvest_perm hsettled').symm

end Harvests

/-! ## Two runs of a plan -/

variable {p : Plan} {slots : Slots} {n n' : Nat} {wishes wishes' : List CancelWish}
  {pool pool' : Pool ByteArray}

/-- **Exports do not depend on timing.**  Let the entries of a plan have targets of their own that
are pending, and play it twice until it is at rest, with any limits to the fetches under way and
with any schedules, without a fetch being cancelled.  Then both runs end alike: both of them stall,
or both are refused for the same reason, or the packages are the same but for the order of what is
on record. -/
theorem report_outcome_matches (hdistinct : (p.entries.map Entry.target).Nodup)
    (hpending : ∀ e ∈ p.entries, slots.read e.target = none)
    (hrun : ((p.withConcurrency n).pool wishes).Reaches pool) (hrest : pool.IsAtRest)
    (hleft : pool.IsUndisturbed)
    (hrun' : ((p.withConcurrency n').pool wishes').Reaches pool') (hrest' : pool'.IsAtRest)
    (hleft' : pool'.IsUndisturbed) :
    ((p.withConcurrency n).report slots pool).outcome.Matches
      ((p.withConcurrency n').report slots pool').outcome := by
  rw [report_withConcurrency, report_withConcurrency]
  have hstalls := Pool.isStalled_iff_of_isUndisturbed (slotCount_pos _) hrun hrest hleft
  have hstalls' := Pool.isStalled_iff_of_isUndisturbed (slotCount_pos _) hrun' hrest' hleft'
  have hsame : pool.isStalled = pool'.isStalled := Bool.eq_iff_iff.2 (hstalls.trans hstalls'.symm)
  cases hstalled : pool.isStalled with
  | true =>
    rw [report, if_pos hstalled, report, if_pos (hsame ▸ hstalled)]
    exact .stalled
  | false =>
    have hover := isOver_of_isAtRest hrun hrest hstalled
    have hover' := isOver_of_isAtRest hrun' hrest' (hsame ▸ hstalled)
    have hperm := Pool.settled_perm_of_isUndisturbed hrun hover hleft hrun' hover' hleft'
    obtain ⟨result, hsettled, -⟩ := exists_results hrun hover
    rcases package_matches (p := p) hsettled (hperm.symm.trans hsettled) hdistinct hpending with
      ⟨a, b, ha, hb, hab⟩ | ⟨reason, hreason, hreason'⟩
    · rw [report_of_package hover ha, report_of_package hover' hb]
      exact .packaged hab
    · rw [report_of_refusal hover hreason, report_of_refusal hover' hreason']
      exact .refused reason

/-- An image that can be fetched, and two files that cannot. -/
def twoFaults : Plan where
  stem := "notes"
  children := [.paragraph [.image (.slot 0) "a plot" none none]]
  entries := [
    ⟨.image, "images/a.png", ⟨"a.png", "A", .answer (.ok ⟨#[137]⟩)⟩, .slot 0⟩,
    ⟨.file, "files/b.pdf", ⟨"b.pdf", "B", .answer (.error (.failed "gone"))⟩, .slot 1⟩,
    ⟨.file, "files/c.pdf", ⟨"c.pdf", "C", .answer (.error (.unavailable "closed"))⟩, .slot 2⟩]
  settings := {}
  style := {}

/-- One fetch after the other from the first to the last, or all at once and the last one settled
first: the packages differ in the order of the failures only. -/
theorem report_outcome_matches_twoFaults :
    ∃ pool pool' : Pool ByteArray,
      ((twoFaults.withConcurrency 1).pool []).Reaches pool ∧ pool.IsAtRest ∧ pool.IsUndisturbed ∧
      ((twoFaults.withConcurrency 3).pool []).Reaches pool' ∧ pool'.IsAtRest ∧
      pool'.IsUndisturbed ∧ pool.settled.map Prod.fst = [0, 1, 2] ∧
      pool'.settled.map Prod.fst = [2, 1, 0] ∧
      ((twoFaults.withConcurrency 1).report {} pool).outcome.Matches
        ((twoFaults.withConcurrency 3).report {} pool').outcome := by
  have hrun : ((twoFaults.withConcurrency 1).pool []).Reaches _ :=
    Relation.ReflTransGen.refl
      |>.tail (.fill _)
      |>.tail (@Pool.Step.turn _ _ [] [] _ _ rfl)
      |>.tail (.fill _)
      |>.tail (@Pool.Step.turn _ _ [] [] _ _ rfl)
      |>.tail (.fill _)
      |>.tail (@Pool.Step.turn _ _ [] [] _ _ rfl)
  have hrun' : ((twoFaults.withConcurrency 3).pool []).Reaches _ :=
    Relation.ReflTransGen.refl
      |>.tail (.fill _)
      |>.tail (@Pool.Step.turn _ _ [_, _] [] _ _ rfl)
      |>.tail (@Pool.Step.turn _ _ [_] [] _ _ rfl)
      |>.tail (@Pool.Step.turn _ _ [] [] _ _ rfl)
  exact ⟨_, _, hrun, ⟨rfl, .inl rfl⟩, ⟨rfl, rfl⟩, hrun', ⟨rfl, .inl rfl⟩, ⟨rfl, rfl⟩, rfl, rfl,
    @report_outcome_matches twoFaults {} 1 3 [] [] _ _ (by decide) (by decide) hrun
      ⟨rfl, .inl rfl⟩ ⟨rfl, rfl⟩ hrun' ⟨rfl, .inl rfl⟩ ⟨rfl, rfl⟩⟩

end Plan

end DocExport.Archive
