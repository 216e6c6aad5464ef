import DocExport.Proofs.Schedules

/-!
# Fetches that nobody cancels

A fetch may answer one thing when it is cancelled and another when it is not, and it may wait for
its cancellation for ever.  Left to itself, it always takes the same course.  So what a fetch comes
to that nobody cancels is settled from the start, and neither the other fetches and what is done to
them, nor the order of the turns, nor the number of fetches under way at a time has a part in it.

* **Main results.** `Pool.course_of_reaches` says that every schedule keeps the course of a fetch
  that is not cancelled on it, and `Pool.mem_settled_iff` what such a fetch is settled with in the
  end.  Of pools in which nobody cancels any fetch, `Pool.isStalled_iff_of_isUndisturbed` says
  which ones stall, and `Pool.settled_perm_of_isUndisturbed` that any two schedules settle the same
  things.
-/

namespace DocExport

/-! ## The course of a fetch -/

namespace Fetch

variable {α : Type}

/-- What a fetch comes to if it is never cancelled: nothing, if it waits for that. -/
def undisturbed : Fetch α → Option (Except FetchFault α)
  | .answer result => some result
  | .pause resume => (resume false).undisturbed
  | .awaitCancel _ => none

/-- What a turn leaves to come, if there is no cancellation after it. -/
def Turn.undisturbed : Turn α → Option (Except FetchFault α)
  | .done result => some result
  | .paused resume => (resume false).undisturbed
  | .waiting _ => none

theorem undisturbed_advance (f : Fetch α) : (f.advance false).undisturbed = f.undisturbed := by
  cases f <;> rfl

end Fetch

namespace Archive

variable {α : Type}

/-- What a fetch in the queue comes to, if there is no cancellation any more. -/
def Thread.undisturbed : Thread α → Option (Except FetchFault α)
  | .first source => source.undisturbed
  | .resumed resume => (resume false).undisturbed
  | .woken next => next.undisturbed

namespace Pool

/-! ## The course of one fetch -/

/-- What becomes of a fetch at each station, if there is no cancellation any more. -/
def courses : Notes α (Option (Except FetchFault α)) where
  settled := some
  queued := Thread.undisturbed
  waiting _ := none
  idle := Fetch.undisturbed

/-- What is counted under a number. -/
def countedAt {β : Type} (i : Nat) (s : Multiset (Nat × β)) : Multiset (Nat × β) :=
  s.filter fun x => x.1 = i

/-- What the fetch with a number comes to, if there is no cancellation any more. -/
def course (p : Pool α) (i : Nat) : Multiset (Nat × Option (Except FetchFault α)) :=
  countedAt i (p.census courses)

variable {p q : Pool α} {i j : Nat}

theorem countedAt_cons_congr {β : Type} {x y : β} {s : Multiset (Nat × β)} (h : j = i → x = y) :
    countedAt i ((j, x) ::ₘ s) = countedAt i ((j, y) ::ₘ s) := by
  by_cases hj : j = i
  · rw [h hj]
  · have hdrop : ∀ z : β, countedAt i ((j, z) ::ₘ s) = countedAt i s :=
      fun z => Multiset.filter_cons_of_neg s hj
    rw [hdrop, hdrop]

theorem eq_of_countedAt_eq {β : Type} {s t : Multiset (Nat × β)}
    (h : ∀ i, countedAt i s = countedAt i t) : s = t := by
  classical
  refine Multiset.ext.2 fun x => ?_
  have hcount : ∀ u : Multiset (Nat × β), (countedAt x.1 u).count x = u.count x :=
    fun u => Multiset.count_filter_of_pos rfl
  rw [← hcount s, ← hcount t, h x.1]

/-- Waking cancelled fetches leaves any other fetch on its course. -/
theorem course_wake (h : p.isCancelled i = false) : p.wake.course i = p.course i := by
  -- no fetch with this number is woken
  have hne : ∀ w ∈ p.waiting, w.1 = i → p.isCancelled w.1 = false := by
    intro w _ hw
    rw [hw]
    exact h
  have hwoken : (p.waiting.filter fun w => decide (w.1 = i) && p.isCancelled w.1) = [] := by
    refine List.filter_eq_nil_iff.2 fun w hw => ?_
    simpa using hne w hw
  have hkept : (p.waiting.filter fun w => decide (w.1 = i) && !p.isCancelled w.1) =
      p.waiting.filter fun w => decide (w.1 = i) := by
    refine List.filter_congr fun w hw => ?_
    by_cases hi : w.1 = i
    · simp [hi, h]
    · simp [hi]
  simp only [course, countedAt, census, wake, settled, courses, Multiset.filter_add,
    Multiset.filter_coe, List.map_append, List.filter_append, List.filter_map,
    List.filter_filter, List.map_map, Function.comp_def, hwoken, hkept, List.map_nil,
    List.append_nil]

/-- Cancelling leaves the fetches on their courses that are not cancelled by then. -/
theorem course_cancel (entry : Option Nat) (h : (p.cancel entry).isCancelled i = false) :
    p.isCancelled i = false ∧ (p.cancel entry).course i = p.course i := by
  have hmark : (p.mark entry).census courses = p.census courses := by cases entry <;> rfl
  constructor
  · by_contra hi
    rw [isCancelled_cancel (by simpa using hi) entry] at h
    exact Bool.noConfusion h
  · have hwake : (p.mark entry).wake.course i = (p.mark entry).course i := course_wake h
    rw [cancel, hwake, course, hmark, course]

/-- Settling a fetch leaves the fetches on their courses that are not cancelled by then. -/
theorem course_settle {given : Except FetchFault α} (h : (p.settle j given).isCancelled i = false) :
    p.isCancelled i = false ∧
      (p.settle j given).course i = countedAt i ((j, some given) ::ₘ p.census courses) := by
  let logged : Pool α := { p with log := p.log ++ [Event.settled j given] }
  have hlogged : logged.course i = countedAt i ((j, some given) ::ₘ p.census courses) :=
    congrArg (countedAt i) (census_settled courses p j given)
  rw [← hlogged]
  refine fulfil_induction (p := logged) (motive := fun r => r.isCancelled i = false →
    p.isCancelled i = false ∧ r.course i = logged.course i) ?_ (fun hp => ⟨hp, rfl⟩) _ h
  intro w _ r ih hr
  obtain ⟨hbefore, hcourse⟩ := course_cancel w.entry hr
  obtain ⟨hp, hsame⟩ := ih hbefore
  exact ⟨hp, hcourse.trans hsame⟩

/-- A fetch that runs stays on its course, and so do the others, if they are not cancelled by
then. -/
theorem course_proceed {f : Fetch α} (h : (p.proceed j f).isCancelled i = false) :
    p.isCancelled i = false ∧
      (p.proceed j f).course i = countedAt i ((j, f.undisturbed) ::ₘ p.census courses) := by
  have hp : p.isCancelled i = false := by
    unfold proceed at h
    split at h
    · exact (course_settle h).1
    · exact h
    · exact h
  refine ⟨hp, ?_⟩
  have hturn : j = i → (f.advance (p.isCancelled j)).undisturbed = f.undisturbed := by
    intro hj
    rw [hj, hp]
    exact f.undisturbed_advance
  rw [← countedAt_cons_congr hturn]
  unfold proceed at h ⊢
  cases hadvance : f.advance (p.isCancelled j) with
  | done given =>
    rw [hadvance] at h
    exact (course_settle h).2
  | paused resume =>
    exact congrArg (countedAt i) (census_queued courses p j (.resumed resume))
  | waiting next =>
    exact congrArg (countedAt i) (census_waiting courses p j next)

/-- A turn leaves the fetches on their courses that are not cancelled by then. -/
theorem course_turn {thread : Thread α} (h : (p.turn j thread).isCancelled i = false) :
    p.isCancelled i = false ∧ (p.turn j thread).course i =
      countedAt i ((j, thread.undisturbed) ::ₘ p.census courses) := by
  cases thread with
  | first source =>
    rw [turn] at h ⊢
    split at h
    · rename_i hcancelled
      obtain ⟨hp, hcourse⟩ := course_settle h
      rw [if_pos hcancelled, hcourse]
      refine ⟨hp, countedAt_cons_congr fun hj => ?_⟩
      rw [hj, hp] at hcancelled
      exact absurd hcancelled Bool.false_ne_true
    · rename_i hcancelled
      obtain ⟨hasked, hcourse⟩ := course_proceed h
      rw [if_neg hcancelled, hcourse, census_asked]
      exact ⟨hasked, rfl⟩
  | resumed resume =>
    obtain ⟨hp, hcourse⟩ := course_proceed h
    refine ⟨hp, hcourse.trans (countedAt_cons_congr fun hj => ?_)⟩
    rw [hj, hp]
    rfl
  | woken next => exact course_proceed h

/-- A step leaves the fetches on their courses that are not cancelled by then. -/
theorem course_step (hstep : Step p q) (h : q.isCancelled i = false) :
    p.isCancelled i = false ∧ q.course i = p.course i := by
  cases hstep with
  | fill => exact ⟨h, congrArg (countedAt i) (census_fill courses p fun _ => rfl)⟩
  | turn hqueue =>
    obtain ⟨hp, hcourse⟩ := course_turn h
    rw [hcourse, course, census_of_queue courses hqueue]
    exact ⟨hp, rfl⟩
  | cancel entry => exact course_cancel entry h

/-- **A fetch that is not cancelled stays on its course,** whatever the schedule, and whatever is
done to other fetches. -/
theorem course_of_reaches (hrun : p.Reaches q) (h : q.isCancelled i = false) :
    p.isCancelled i = false ∧ q.course i = p.course i := by
  induction hrun with
  | refl => exact ⟨h, rfl⟩
  | tail _ hstep ih =>
    obtain ⟨hmid, hlast⟩ := course_step hstep h
    obtain ⟨hp, hbefore⟩ := ih hmid
    exact ⟨hp, hlast.trans hbefore⟩

section Start

variable {limit : Nat} {wishes : List CancelWish} {sources : List (Fetch α)}

/-- Until it is cancelled, a fetch is on the way to what its own source comes to. -/
theorem course_of_start (hrun : (start limit wishes sources).Reaches p)
    (h : p.isCancelled i = false) :
    p.course i = countedAt i ((sources.mapIdx fun i f => (i, f)).map fun e =>
      (e.1, e.2.undisturbed) : List (Nat × Option (Except FetchFault α))) := by
  obtain ⟨hstart, hcourse⟩ := course_of_reaches hrun h
  let idle : Pool α := { limit, wishes, idle := sources.mapIdx fun i f => (i, f) }
  have hidle : (start limit wishes sources).course i = idle.course i := by
    refine (fulfil_induction (p := idle) (motive := fun r => r.isCancelled i = false →
      r.course i = idle.course i) ?_ (fun _ => rfl) 0) hstart
    intro w _ r ih hr
    obtain ⟨hbefore, hsame⟩ := course_cancel w.entry hr
    exact hsame.trans (ih hbefore)
  rw [hcourse, hidle, course, census_idle courses limit wishes sources]
  rfl

/-- **What a fetch that nobody cancels comes to in the end** is what its source comes to when it is
left to itself. -/
theorem mem_settled_iff (hrun : (start limit wishes sources).Reaches p) (hover : p.IsOver)
    (h : p.isCancelled i = false) {result : Except FetchFault α} :
    (i, result) ∈ p.settled ↔ ∃ source, sources[i]? = some source ∧
      source.undisturbed = some result := by
  have hsettled : (i, result) ∈ p.settled ↔ (i, some result) ∈ p.course i := by
    simp [course, countedAt, hover.census_eq, courses]
  rw [hsettled, course_of_start hrun h]
  simp [countedAt, List.mem_mapIdx, List.getElem?_eq_some_iff]

end Start

/-! ## Pools that nobody cancels -/

/-- Nobody has cancelled a fetch of the pool. -/
structure IsUndisturbed (p : Pool α) : Prop where
  all : p.allCancelled = false
  single : p.cancelled = []

theorem IsUndisturbed.isCancelled_eq_false {p : Pool α} (h : p.IsUndisturbed) (i : Nat) :
    p.isCancelled i = false := by
  simp [isCancelled, h.all, h.single]

theorem census_of_start {limit : Nat} {wishes : List CancelWish} {sources : List (Fetch α)}
    (hrun : (start limit wishes sources).Reaches p) (hp : p.IsUndisturbed) :
    p.census courses = ((sources.mapIdx fun i f => (i, f)).map fun e => (e.1, e.2.undisturbed) :
      List (Nat × Option (Except FetchFault α))) :=
  eq_of_countedAt_eq fun i => course_of_start hrun (hp.isCancelled_eq_false i)

/-! ## Pools at rest -/

section AtRest

variable {limit : Nat} {wishes : List CancelWish} {sources : List (Fetch α)}

/-- Left to itself, a pool comes to rest without being over exactly if one of its sources never
comes to anything. -/
theorem isStalled_iff_of_isUndisturbed (hlimit : 0 < limit)
    (hrun : (start limit wishes sources).Reaches p) (hrest : p.IsAtRest) (hp : p.IsUndisturbed) :
    p.isStalled = true ↔ ∃ source ∈ sources, source.undisturbed = none := by
  have hcensus := census_of_start hrun hp
  constructor
  · intro hstalled
    have hwaiting : p.waiting ≠ [] := by
      intro hnone
      simp [isStalled, hnone] at hstalled
    obtain ⟨e, es, he⟩ := List.exists_cons_of_ne_nil hwaiting
    have hmem : (e.1, none) ∈ p.census courses := by
      simp [census, he, courses]
    rw [hcensus] at hmem
    obtain ⟨x, hx, heq⟩ := List.mem_map.1 (Multiset.mem_coe.1 hmem)
    obtain ⟨i, hi, rfl⟩ := List.mem_mapIdx.1 hx
    exact ⟨sources[i], List.getElem_mem hi, (Prod.mk.inj heq).2⟩
  · rintro ⟨source, hsource, hnever⟩
    by_contra hstalled
    have hover := hrest.isOver_of_reaches hlimit hrun (by simpa using hstalled)
    obtain ⟨i, hi, rfl⟩ := List.getElem_of_mem hsource
    have hmem : (i, none) ∈ p.census courses := by
      rw [hcensus, Multiset.mem_coe]
      exact List.mem_map.2 ⟨(i, sources[i]), List.mem_mapIdx.2 ⟨i, hi, rfl⟩, by rw [hnever]⟩
    rw [hover.census_eq] at hmem
    obtain ⟨s, -, hs⟩ := List.mem_map.1 (Multiset.mem_coe.1 hmem)
    exact absurd (Prod.mk.inj hs).2 (by simp [courses])

/-- Left to themselves, pools of the same sources settle the same things, if in another order. -/
theorem settled_perm_of_isUndisturbed {limit' : Nat} {wishes' : List CancelWish}
    (hrun : (start limit wishes sources).Reaches p) (hover : p.IsOver) (hp : p.IsUndisturbed)
    (hrun' : (start limit' wishes' sources).Reaches q) (hover' : q.IsOver)
    (hq : q.IsUndisturbed) : p.settled.Perm q.settled := by
  have hcensus : p.census courses = q.census courses :=
    (census_of_start hrun hp).trans (census_of_start hrun' hq).symm
  rw [hover.census_eq, hover'.census_eq, Multiset.coe_eq_coe] at hcensus
  -- a settled fetch is told by what is noted of it
  have hinj : Function.Injective fun s : Nat × Except FetchFault α => (s.1, some s.2) := by
    rintro ⟨i, a⟩ ⟨j, b⟩ h
    simpa using h
  exact (List.map_perm_map_iff hinj).1 hcensus

end AtRest

end Pool

end Archive

end DocExport
