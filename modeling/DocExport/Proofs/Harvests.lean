import DocExport.Archive.Package
import DocExport.Proofs.Schedules

/-!
# What the fetches of a plan bring

A harvest is gathered in the order in which the fetches are settled, and read in the order of the
plan.  Each entry leaves its trace in one of three places, depending on what its fetch came to: it
becomes a member of the archive, or a failure is recorded, or its path is listed as cancelled.

* **Main results.** `Plan.failures_harvest_perm`, `Plan.cancelled_harvest_perm` and
  `Plan.mediaMembers_harvest` say what is in each of the three places, whatever the order was, and
  `Plan.read_harvest` what the target of an entry reads.
-/

namespace DocExport.Archive

/-! ## The three places -/

namespace Entry

/-- The member that an entry puts into the archive: its bytes, if it has got them. -/
def member (e : Entry) : Except FetchFault ByteArray → Option (String × ByteArray)
  | .ok bytes => some (e.path, bytes)
  | .error _ => none

/-- The failure that is recorded for an entry, if its fetch went wrong. -/
def failure (e : Entry) : Except FetchFault ByteArray → Option Failure
  | .ok _ => none
  | .error .cancelled => none
  | .error fault => some ⟨e.kind, e.path, e.media.name, fault⟩

/-- The path that is listed as cancelled for an entry, if its fetch was cancelled. -/
def cancelledPath (e : Entry) : Except FetchFault ByteArray → Option String
  | .error .cancelled => some e.path
  | _ => none

theorem path_of_member {e : Entry} {result : Except FetchFault ByteArray}
    {m : String × ByteArray} (h : e.member result = some m) : m.1 = e.path := by
  rcases result with fault | bytes
  · exact absurd h (by simp [member])
  · rw [← Option.some.inj h]

theorem path_of_failure {e : Entry} {result : Except FetchFault ByteArray} {f : Failure}
    (h : e.failure result = some f) : f.path = e.path := by
  rcases result with fault | bytes
  · cases fault with
    | cancelled => exact absurd h (by simp [failure])
    | unavailable | failed => rw [← Option.some.inj h]
  · exact absurd h (by simp [failure])

theorem path_of_cancelledPath {e : Entry} {result : Except FetchFault ByteArray} {path : String}
    (h : e.cancelledPath result = some path) : path = e.path := by
  rcases result with fault | bytes
  · cases fault with
    | cancelled => exact (Option.some.inj h).symm
    | unavailable | failed => exact absurd h (by simp [cancelledPath])
  · exact absurd h (by simp [cancelledPath])

end Entry

/-- The paths in the three places are those of the entries, each once. -/
theorem perm_map_path (results : List (Entry × Except FetchFault ByteArray)) :
    ((results.filterMap fun x => x.1.member x.2).map Prod.fst ++
      (results.filterMap fun x => x.1.failure x.2).map Failure.path ++
        results.filterMap fun x => x.1.cancelledPath x.2).Perm (results.map fun x => x.1.path) := by
  induction results with
  | nil => exact .nil
  | cons x xs ih =>
    obtain ⟨e, result⟩ := x
    rw [List.map_cons]
    refine List.Perm.trans ?_ (ih.cons e.path)
    cases result with
    | ok bytes => exact .refl _
    | error fault =>
      cases fault with
      | cancelled => exact List.perm_middle
      | unavailable reason | failed reason =>
        simp only [List.filterMap_cons, Entry.member, Entry.failure, Entry.cancelledPath,
          List.map_cons, List.append_assoc, List.cons_append]
        exact List.perm_middle

/-! ## Adding to a harvest -/

namespace Harvest

variable (h : Harvest) (i : Nat) (e : Entry) (result : Except FetchFault ByteArray)

theorem failures_add : (h.add i e result).failures = h.failures ++ (e.failure result).toList := by
  rcases result with fault | bytes
  · cases fault <;> simp [add, Entry.failure]
  · simp [add, Entry.failure]

theorem cancelled_add :
    (h.add i e result).cancelled = h.cancelled ++ (e.cancelledPath result).toList := by
  rcases result with fault | bytes
  · cases fault <;> simp [add, Entry.cancelledPath]
  · simp [add, Entry.cancelledPath]

theorem fetched_add :
    (h.add i e result).fetched = h.fetched ++ (result.toOption.map (i, ·)).toList := by
  rcases result with fault | bytes
  · cases fault <;> simp [add, Except.toOption]
  · simp [add, Except.toOption]

/-- Settling an entry concerns no target but its own. -/
theorem read_add_of_ne {t : Target} (ht : t ≠ e.target) :
    (h.add i e result).slots.read t = h.slots.read t := by
  rcases result with fault | bytes
  · cases fault <;> rfl
  · cases hresolve : h.slots.resolve e.target e.path with
    | error refusal => simp [add, hresolve]
    | ok slots =>
      have hread := Slots.read_resolve hresolve t
      rw [if_neg ht] at hread
      simpa [add, hresolve] using hread

/-- Settling an entry whose target is pending resolves it to its path, if there are bytes. -/
theorem read_add (hpending : h.slots.read e.target = none) :
    (h.add i e result).slots.read e.target = (e.member result).map Prod.fst := by
  rcases result with fault | bytes
  · cases fault <;> exact hpending
  · obtain ⟨slots, hslots⟩ := (Slots.resolve_eq_ok_iff _ _ e.path).2 hpending
    have hread := Slots.read_resolve hslots e.target
    rw [if_pos rfl] at hread
    simpa [add, hslots, Entry.member] using hread

end Harvest

/-! ## Gathering a harvest -/

namespace Plan

variable (p : Plan)

/-- Settle one numbered fetch of a plan. -/
def gather (h : Harvest) (s : Nat × Except FetchFault ByteArray) : Harvest :=
  match p.entries[s.1]? with
  | some e => h.add s.1 e s.2
  | none => h

theorem harvest_eq_foldl (slots : Slots) (settled : List (Nat × Except FetchFault ByteArray)) :
    p.harvest slots settled = settled.foldl p.gather { slots } := rfl

/-- A list that each settled fetch adds to is gathered from all of them. -/
theorem gathered_eq {β : Type} (field : Harvest → List β)
    (add : Nat → Entry → Except FetchFault ByteArray → Option β)
    (hadd : ∀ h i e result, field (h.add i e result) = field h ++ (add i e result).toList)
    (settled : List (Nat × Except FetchFault ByteArray)) (h : Harvest) :
    field (settled.foldl p.gather h) =
      field h ++ settled.filterMap fun s => p.entries[s.1]?.bind fun e => add s.1 e s.2 := by
  induction settled generalizing h with
  | nil => simp
  | cons s settled ih =>
    rw [List.foldl_cons, ih, List.filterMap_cons, gather]
    cases p.entries[s.1]? with
    | none => rfl
    | some e =>
      rw [hadd, Option.bind_some, List.append_assoc]
      cases add s.1 e s.2 <;> rfl

/-- The entries of a plan with what their fetches came to, in the order of the plan. -/
def results (result : Nat → Except FetchFault ByteArray) :
    List (Entry × Except FetchFault ByteArray) :=
  p.entries.mapIdx fun i e => (e, result i)

variable {p} {slots : Slots} {settled : List (Nat × Except FetchFault ByteArray)}
  {result : Nat → Except FetchFault ByteArray}

theorem eq_of_nodup_map {β : Type} {feature : Entry → β} (h : (p.entries.map feature).Nodup)
    {i j : Nat} {e f : Entry} (he : p.entries[i]? = some e) (hf : p.entries[j]? = some f)
    (heq : feature e = feature f) : i = j := by
  refine (List.getElem?_inj ?_ h).1 ?_
  · rw [List.length_map]
    exact (List.getElem?_eq_some_iff.1 he).1
  · rw [List.getElem?_map, List.getElem?_map, he, hf, Option.map_some, Option.map_some, heq]

/-- What is taken from a list number by number is taken from it in order. -/
theorem filterMap_range_getElem? {ε β : Type} (es : List ε) (take : Nat → ε → Option β) :
    ((List.range es.length).filterMap fun i => es[i]?.bind fun e => take i e) =
      (es.mapIdx take).filterMap id := by
  induction es generalizing take with
  | nil => rfl
  | cons e es ih =>
    rw [List.length_cons, List.range_succ_eq_map, List.filterMap_cons, List.filterMap_map,
      List.mapIdx_cons, List.filterMap_cons]
    have hrest := ih fun i => take (i + 1)
    simp only [Function.comp_def, List.getElem?_cons_succ, List.getElem?_cons_zero,
      Option.bind_some, id] at hrest ⊢
    rw [hrest]

theorem filterMap_results {β : Type} (add : Entry → Except FetchFault ByteArray → Option β) :
    (p.results result).filterMap (fun x => add x.1 x.2) =
      (p.entries.mapIdx fun i e => add e (result i)).filterMap id := by
  rw [results, List.mapIdx_eq_zipIdx_map, List.mapIdx_eq_zipIdx_map, List.filterMap_map,
    List.filterMap_map]
  rfl

/-- What is taken from the results is taken from some entry with its result. -/
theorem mem_filterMap_results {β : Type} {add : Entry → Except FetchFault ByteArray → Option β}
    {b : β} : b ∈ (p.results result).filterMap (fun x => add x.1 x.2) ↔
      ∃ i e, p.entries[i]? = some e ∧ add e (result i) = some b := by
  rw [List.mem_filterMap]
  constructor
  · rintro ⟨x, hx, hadd⟩
    obtain ⟨i, hi, rfl⟩ := List.mem_mapIdx.1 hx
    exact ⟨i, p.entries[i], List.getElem?_eq_getElem hi, hadd⟩
  · rintro ⟨i, e, he, hadd⟩
    obtain ⟨hi, rfl⟩ := List.getElem?_eq_some_iff.1 he
    exact ⟨(p.entries[i], result i), List.mem_mapIdx.2 ⟨i, hi, rfl⟩, hadd⟩

/-- Where the paths are all different, what is taken with the path of an entry is taken from this
very entry. -/
theorem mem_filterMap_results_of_path {β : Type}
    (add : Entry → Except FetchFault ByteArray → Option β) {path : β → String}
    (hpath : ∀ e r b, add e r = some b → path b = e.path)
    (hpaths : (p.entries.map Entry.path).Nodup) {j : Nat} {e : Entry}
    (he : p.entries[j]? = some e) {b : β} (hb : path b = e.path) :
    b ∈ (p.results result).filterMap (fun x => add x.1 x.2) ↔ add e (result j) = some b := by
  rw [mem_filterMap_results]
  constructor
  · rintro ⟨i, other, hother, hadd⟩
    obtain rfl := eq_of_nodup_map hpaths hother he ((hpath _ _ _ hadd).symm.trans hb)
    rw [he] at hother
    rw [Option.some.inj hother]
    exact hadd
  · exact fun hadd => ⟨j, e, he, hadd⟩

theorem slots_gather_of_error {h : Harvest} {s : Nat × Except FetchFault ByteArray}
    {fault : FetchFault} (hs : s.2 = .error fault) : (p.gather h s).slots = h.slots := by
  rw [gather, hs]
  cases p.entries[s.1]? with
  | none => rfl
  | some e => cases fault <;> rfl

/-- Fetches leave a target as it is unless they bring bytes for it. -/
theorem read_foldl_gather_of_ne {t : Target}
    (hne : ∀ s ∈ settled, ∀ bytes, s.2 = .ok bytes → ∀ e, p.entries[s.1]? = some e →
      t ≠ e.target) (h : Harvest) :
    (settled.foldl p.gather h).slots.read t = h.slots.read t := by
  induction settled generalizing h with
  | nil => rfl
  | cons s settled ih =>
    rw [List.foldl_cons, ih fun s hs => hne s (List.mem_cons_of_mem _ hs)]
    cases hresult : s.2 with
    | error fault => rw [slots_gather_of_error hresult]
    | ok bytes =>
      rw [gather]
      cases hentry : p.entries[s.1]? with
      | none => rfl
      | some e => exact h.read_add_of_ne s.1 e s.2 (hne s List.mem_cons_self bytes hresult e hentry)

section Settled

variable (hsettled : settled.Perm ((List.range p.entries.length).map fun i => (i, result i)))

include hsettled

/-- What settled fetches add to a list does not hang on their order. -/
theorem perm_filterMap_settled {β : Type}
    (add : Entry → Except FetchFault ByteArray → Option β) :
    (settled.filterMap fun s => p.entries[s.1]?.bind fun e => add e s.2).Perm
      ((p.results result).filterMap fun x => add x.1 x.2) := by
  have hperm := hsettled.filterMap fun s => p.entries[s.1]?.bind fun e => add e s.2
  rw [List.filterMap_map] at hperm
  have horder := filterMap_range_getElem? p.entries fun i e => add e (result i)
  rw [filterMap_results, ← horder]
  exact hperm

/-- The failures on record are those of the entries whose fetches went wrong. -/
theorem failures_harvest_perm :
    (p.harvest slots settled).failures.Perm
      ((p.results result).filterMap fun x => x.1.failure x.2) := by
  rw [harvest_eq_foldl, p.gathered_eq Harvest.failures (fun _ e => e.failure) Harvest.failures_add]
  exact perm_filterMap_settled hsettled Entry.failure

/-- The paths listed as cancelled are those of the entries whose fetches were cancelled. -/
theorem cancelled_harvest_perm :
    (p.harvest slots settled).cancelled.Perm
      ((p.results result).filterMap fun x => x.1.cancelledPath x.2) := by
  rw [harvest_eq_foldl,
    p.gathered_eq Harvest.cancelled (fun _ e => e.cancelledPath) Harvest.cancelled_add]
  exact perm_filterMap_settled hsettled Entry.cancelledPath

/-- The bytes kept for an entry are those that its own fetch brought. -/
theorem lookup_fetched_harvest {i : Nat} (hi : i < p.entries.length) :
    (p.harvest slots settled).fetched.lookup i = (result i).toOption := by
  refine lookup_eq_of_mem_iff fun bytes => ?_
  rw [harvest_eq_foldl, p.gathered_eq Harvest.fetched
    (fun i _ result => result.toOption.map (i, ·)) Harvest.fetched_add, List.nil_append,
    List.mem_filterMap]
  constructor
  · rintro ⟨s, hs, hbytes⟩
    obtain ⟨j, -, rfl⟩ := List.mem_map.1 (hsettled.subset hs)
    obtain ⟨e, -, hadd⟩ := Option.bind_eq_some_iff.1 hbytes
    obtain ⟨kept, hkept, heq⟩ := Option.map_eq_some_iff.1 hadd
    obtain ⟨rfl, rfl⟩ := Prod.mk.inj heq
    exact hkept
  · intro hbytes
    refine ⟨(i, result i), mem_of_perm_table hsettled hi, ?_⟩
    rw [List.getElem?_eq_getElem hi, Option.bind_some, hbytes]
    rfl

/-- The members of the archive besides the document are those of the entries whose fetches
brought bytes, in the order of the plan. -/
theorem mediaMembers_harvest :
    p.mediaMembers (p.harvest slots settled) =
      (p.results result).filterMap fun x => x.1.member x.2 := by
  have hmembers : (p.entries.mapIdx fun i e =>
      ((p.harvest slots settled).fetched.lookup i).map fun bytes => (e.path, bytes)) =
      p.entries.mapIdx fun i e => e.member (result i) := by
    refine List.ext_getElem (by simp) fun i hi _ => ?_
    rw [List.length_mapIdx] at hi
    rw [List.getElem_mapIdx, List.getElem_mapIdx, lookup_fetched_harvest hsettled hi]
    cases result i <;> rfl
  rw [mediaMembers, hmembers, filterMap_results]

/-- A pending target for which no other entry brings bytes reads the path of its entry in the end
if the fetch of that entry brought bytes, and is still pending if it did not. -/
theorem read_harvest_of_unshared {i : Nat} {e : Entry} (he : p.entries[i]? = some e)
    (hunshared : ∀ j f bytes, p.entries[j]? = some f → f.target = e.target →
      (j, .ok bytes) ∈ settled → j = i) (hpending : slots.read e.target = none) :
    (p.harvest slots settled).slots.read e.target = (e.member (result i)).map Prod.fst := by
  have hi : i < p.entries.length := (List.getElem?_eq_some_iff.1 he).1
  have hmem : (i, result i) ∈ settled := mem_of_perm_table hsettled hi
  have hnumbers : (settled.map Prod.fst).Nodup := by
    rw [(hsettled.map Prod.fst).nodup_iff, List.map_map]
    simpa [Function.comp_def] using List.nodup_range
  have hother : ∀ s ∈ settled, s.1 ≠ i → ∀ bytes, s.2 = .ok bytes →
      ∀ e', p.entries[s.1]? = some e' → e.target ≠ e'.target := by
    intro s hs hne bytes hbytes e' he' heq
    refine hne (hunshared s.1 e' bytes he' heq.symm ?_)
    rw [← hbytes]
    exact hs
  obtain ⟨front, back, rfl⟩ := List.append_of_mem hmem
  rw [List.map_append, List.map_cons, List.nodup_append, List.nodup_cons] at hnumbers
  obtain ⟨-, ⟨hafter, -⟩, hbefore⟩ := hnumbers
  have hback : ∀ s ∈ back, s.1 ≠ i := fun s hs h => hafter (List.mem_map.2 ⟨s, hs, h⟩)
  have hfront : ∀ s ∈ front, s.1 ≠ i := fun s hs =>
    hbefore s.1 (List.mem_map_of_mem hs) i List.mem_cons_self
  rw [harvest_eq_foldl, List.foldl_append, List.foldl_cons, read_foldl_gather_of_ne fun s hs =>
    hother s (List.mem_append_right _ (List.mem_cons_of_mem _ hs)) (hback s hs), gather, he]
  refine Harvest.read_add _ i e (result i) ?_
  rw [read_foldl_gather_of_ne fun s hs => hother s (List.mem_append_left _ hs) (hfront s hs)]
  exact hpending

/-- Where all targets are different, that goes for every entry. -/
theorem read_harvest (hdistinct : (p.entries.map Entry.target).Nodup) {i : Nat} {e : Entry}
    (he : p.entries[i]? = some e) (hpending : slots.read e.target = none) :
    (p.harvest slots settled).slots.read e.target = (e.member (result i)).map Prod.fst := by
  refine read_harvest_of_unshared hsettled he (fun j f _ hf htarget _ => ?_) hpending
  exact eq_of_nodup_map hdistinct hf he htarget

end Settled

end Plan

end DocExport.Archive
