import DocExport.Archive.Report
import DocExport.Proofs.Schedules
import Mathlib.Data.List.Induction

/-!
# Asking sources

A source is asked in the first turn of its fetch, if the fetch has not been cancelled by then.  From
there to its answer it is *busy*.  All of this is in the log of a pool, and so is how many sources
were busy at any moment of a run.

Whatever the schedule, each turn adds to the log what belongs to the *stage* of its fetch and no
more, and from the stages of the fetches one can tell which sources are busy.  In which order
sources are asked is up to the schedule: it is the order of their numbers if first turns are given
in the order in which the fetches were started.

* **Main results.** `Pool.step_told` says what a step does to the stages and to the log,
  `Pool.Counted.reaches` that along every schedule the log agrees with the stages,
  `Pool.Bounded.reaches` that no more sources are busy than the limit allows, and
  `Pool.pairwise_asked_run` that a pool asks its sources in order when it is played by itself.
  `Plan.asksInTurn_of_reaches` puts together when the sources of a plan are asked.
-/

namespace DocExport.Archive

variable {α : Type}

/-! ## Stages -/

/-- How far a fetch has come. -/
inductive Stage where
  /-- Its first turn is still ahead. -/
  | ahead
  /-- Its source has been asked and has not answered. -/
  | busy
  /-- It is settled. -/
  | over
  deriving DecidableEq, Repr

/-- The stage of a fetch in the queue. -/
def Thread.stage : Thread α → Stage
  | .first _ => .ahead
  | .resumed _ | .woken _ => .busy

namespace Pool

/-- The stage of a fetch at each station. -/
def stages : Notes α Stage where
  settled _ := .over
  queued := Thread.stage
  waiting _ := .busy
  idle _ := .ahead

/-- What a turn adds to the log, and what stage it leaves, by the stage of the fetch with the number
`i` and by whether it is cancelled. -/
inductive Told (i : Nat) (cancelled : Bool) : Stage → List (Event α) → Stage → Prop where
  /-- The fetch was cancelled before its first turn: its source is not asked. -/
  | refused (h : cancelled = true) :
      Told i cancelled .ahead [.settled i (.error .cancelled)] .over
  /-- The source is asked, and keeps the fetch busy. -/
  | asked (h : cancelled = false) : Told i cancelled .ahead [.asked i] .busy
  /-- The source is asked, and answers at once. -/
  | answered (h : cancelled = false) (result : Except FetchFault α) :
      Told i cancelled .ahead [.asked i, .settled i result] .over
  /-- The source has not answered yet. -/
  | paused : Told i cancelled .busy [] .busy
  /-- The source answers. -/
  | ended (result : Except FetchFault α) : Told i cancelled .busy [.settled i result] .over

/-! ## What a step adds to the log -/

variable {p q : Pool α} {i j : Nat}

theorem log_settle (p : Pool α) (i : Nat) (given : Except FetchFault α) :
    (p.settle i given).log = p.log ++ [.settled i given] := by
  rw [settle]
  exact fulfil_eq_of_cancel log (fun q entry => by cases entry <;> rfl) _ _

/-- A fetch that runs is settled, or stays busy without a word. -/
theorem proceed_told (p : Pool α) (i : Nat) (f : Fetch α) :
    (∃ result, (p.proceed i f).log = p.log ++ [.settled i result] ∧
        (p.proceed i f).census stages = (i, .over) ::ₘ p.census stages) ∨
      ((p.proceed i f).log = p.log ∧
        (p.proceed i f).census stages = (i, .busy) ::ₘ p.census stages) := by
  unfold proceed
  cases f.advance (p.isCancelled i) with
  | done given =>
    exact .inl ⟨given, log_settle p i given, census_settle stages p i (fun _ => rfl) given⟩
  | paused resume => exact .inr ⟨rfl, census_queued stages p i (.resumed resume)⟩
  | waiting next => exact .inr ⟨rfl, census_waiting stages p i next⟩

/-- What a turn does to the stages and to the log. -/
theorem turn_told (p : Pool α) (i : Nat) (thread : Thread α) :
    ∃ events stage, Told i (p.isCancelled i) thread.stage events stage ∧
      (p.turn i thread).log = p.log ++ events ∧
      (p.turn i thread).census stages = (i, stage) ::ₘ p.census stages := by
  -- a fetch that is busy already only goes on
  have hbusy : ∀ f : Fetch α, ∃ events stage, Told i (p.isCancelled i) .busy events stage ∧
      (p.proceed i f).log = p.log ++ events ∧
      (p.proceed i f).census stages = (i, stage) ::ₘ p.census stages := by
    intro f
    obtain ⟨result, hlog, hcensus⟩ | ⟨hlog, hcensus⟩ := proceed_told p i f
    · exact ⟨_, _, .ended result, hlog, hcensus⟩
    · exact ⟨[], .busy, .paused, by rw [hlog, List.append_nil], hcensus⟩
  cases thread with
  | first source =>
    rw [turn]
    split
    · rename_i hcancelled
      exact ⟨_, _, .refused hcancelled, log_settle p i _,
        census_settle stages p i (fun _ => rfl) _⟩
    · rename_i hcancelled
      have hfalse : p.isCancelled i = false := by simpa using hcancelled
      obtain ⟨result, hlog, hcensus⟩ | ⟨hlog, hcensus⟩ :=
        proceed_told { p with log := p.log ++ [Event.asked i] } i source
      · rw [census_asked] at hcensus
        refine ⟨_, _, .answered hfalse result, ?_, hcensus⟩
        rw [hlog, List.append_assoc]
        rfl
      · rw [census_asked] at hcensus
        exact ⟨_, _, .asked hfalse, hlog, hcensus⟩
  | resumed resume => exact hbusy _
  | woken next => exact hbusy next

/-- **What a step does.**  It leaves the stages and the log as they are, or it gives one fetch of
the queue its turn, which adds to the log what belongs to the stage of that fetch. -/
theorem step_told (hstep : Step p q) :
    (q.log = p.log ∧ q.census stages = p.census stages) ∨
      ∃ i stage events stage' others, Told i (p.isCancelled i) stage events stage' ∧
        i ∈ p.queue.map Prod.fst ∧ p.census stages = (i, stage) ::ₘ others ∧
        q.log = p.log ++ events ∧ q.census stages = (i, stage') ::ₘ others := by
  cases hstep with
  | fill => exact .inl ⟨rfl, census_fill stages p fun _ => rfl⟩
  | @turn front back i thread hqueue =>
    obtain ⟨events, stage', htold, hlog, hcensus⟩ :=
      turn_told (p.withQueue (front ++ back)) i thread
    refine .inr ⟨i, thread.stage, events, stage', _, htold, ?_, census_of_queue stages hqueue,
      hlog, hcensus⟩
    rw [hqueue]
    simp
  | cancel entry =>
    refine .inl ⟨?_, census_cancel stages p (fun _ => rfl) entry⟩
    cases entry <;> rfl

/-! ## Reading what was added -/

theorem busyAfter_asked (log : List (Event α)) (i : Nat) :
    busyAfter (log ++ [.asked i]) = i :: busyAfter log :=
  List.foldl_append

theorem busyAfter_settled (log : List (Event α)) (i : Nat) (result : Except FetchFault α) :
    busyAfter (log ++ [.settled i result]) = (busyAfter log).filter (· != i) :=
  List.foldl_append

/-- A busy source has been asked. -/
theorem mem_asked_of_mem_busyAfter {log : List (Event α)} (h : i ∈ busyAfter log) :
    i ∈ log.filterMap Event.asked? := by
  induction log using List.reverseRecOn with
  | nil => exact h
  | append_singleton log event ih =>
    rw [List.filterMap_append, List.mem_append]
    cases event with
    | asked k =>
      rw [busyAfter_asked, List.mem_cons] at h
      rcases h with rfl | h
      · exact .inr (by simp [Event.asked?])
      · exact .inl (ih h)
    | settled k result =>
      rw [busyAfter_settled] at h
      exact .inl (ih (List.mem_of_mem_filter h))

section Told

variable {cancelled : Bool} {stage stage' : Stage} {events : List (Event α)}

theorem Told.stage_ne (h : Told i cancelled stage events stage') : stage' ≠ .ahead := by
  cases h <;> exact Stage.noConfusion

/-- A source is asked in the first turn of a fetch that is not cancelled, and at no other time. -/
theorem Told.asked_eq (h : Told i cancelled stage events stage') :
    (events.filterMap Event.asked? = [i] ∧ stage = .ahead ∧ cancelled = false) ∨
      events.filterMap Event.asked? = [] := by
  cases h with
  | refused => exact .inr rfl
  | asked h => exact .inl ⟨rfl, rfl, h⟩
  | answered h => exact .inl ⟨rfl, rfl, h⟩
  | paused => exact .inr rfl
  | ended => exact .inr rfl

/-- What a turn settles without asking in the first turn is settled as cancelled. -/
theorem Told.settled_eq (h : Told i cancelled stage events stage') {result : Except FetchFault α}
    (hsettled : (j, result) ∈ events.filterMap Event.settled?) :
    j = i ∧ (i ∈ events.filterMap Event.asked? ∨ stage = .busy ∨ result = .error .cancelled) := by
  cases h with
  | refused =>
    obtain ⟨rfl, rfl⟩ : j = i ∧ result = .error .cancelled := by
      simpa [Event.settled?] using hsettled
    exact ⟨rfl, .inr (.inr rfl)⟩
  | asked => exact absurd hsettled List.not_mem_nil
  | answered =>
    obtain ⟨rfl, -⟩ : i = j ∧ _ := by simpa [Event.settled?] using hsettled
    exact ⟨rfl, .inl (by simp [Event.asked?])⟩
  | paused => exact absurd hsettled List.not_mem_nil
  | ended =>
    obtain ⟨rfl, -⟩ : j = i ∧ _ := by simpa [Event.settled?] using hsettled
    exact ⟨rfl, .inr (.inl rfl)⟩

/-- The sources that are busy after a turn: those of other fetches that were, and that of the fetch
itself if the turn leaves it busy. -/
theorem Told.mem_busyAfter (h : Told i cancelled stage events stage') {log : List (Event α)}
    (hbusy : i ∈ busyAfter log ↔ stage = .busy) :
    j ∈ busyAfter (log ++ events) ↔ (j = i ∧ stage' = .busy) ∨ (j ≠ i ∧ j ∈ busyAfter log) := by
  cases h with
  | refused =>
    rw [busyAfter_settled]
    simp [and_comm]
  | asked =>
    rw [busyAfter_asked, List.mem_cons]
    by_cases hj : j = i <;> simp [hj]
  | answered h result =>
    rw [List.append_cons, busyAfter_settled, busyAfter_asked]
    by_cases hj : j = i <;> simp [hj]
  | paused =>
    rw [List.append_nil]
    by_cases hj : j = i
    · simp [hj, hbusy]
    · simp [hj]
  | ended result =>
    rw [busyAfter_settled]
    simp [and_comm]

/-- No source is busy twice after a turn, if none was before. -/
theorem Told.nodup_busyAfter (h : Told i cancelled stage events stage') {log : List (Event α)}
    (hbusy : i ∈ busyAfter log ↔ stage = .busy) (hnodup : (busyAfter log).Nodup) :
    (busyAfter (log ++ events)).Nodup := by
  cases h with
  | refused =>
    rw [busyAfter_settled]
    exact hnodup.filter _
  | asked =>
    rw [busyAfter_asked]
    exact hnodup.cons (by simp [hbusy])
  | answered h result =>
    rw [List.append_cons, busyAfter_settled, busyAfter_asked]
    exact (hnodup.cons (by simp [hbusy])).filter _
  | paused =>
    rw [List.append_nil]
    exact hnodup
  | ended result =>
    rw [busyAfter_settled]
    exact hnodup.filter _

end Told

/-! ## The log agrees with the stages -/

/-- The log of a pool agrees with the stages of its fetches. -/
structure Counted (p : Pool α) : Prop where
  /-- Each number occurs once. -/
  numbers : ((p.census stages).map Prod.fst).Nodup
  /-- Nobody is asked ahead of the first turn. -/
  ahead : ∀ i, (i, .ahead) ∈ p.census stages → i ∉ p.asked
  /-- No source is asked twice. -/
  asked : p.asked.Nodup
  /-- The sources that are busy are those of the fetches at that stage. -/
  busy : ∀ i, i ∈ busyAfter p.log ↔ (i, .busy) ∈ p.census stages
  /-- No source is busy twice. -/
  busyOnce : (busyAfter p.log).Nodup
  /-- What is settled without being asked is settled as cancelled. -/
  refused : ∀ i result, (i, result) ∈ p.settled → i ∈ p.asked ∨ result = .error .cancelled

/-- The fetches after a step that moves one of them on to another stage. -/
theorem mem_census_iff {stage stage' : Stage} {others : Multiset (Nat × Stage)}
    (hnumbers : ((p.census stages).map Prod.fst).Nodup)
    (hp : p.census stages = (i, stage) ::ₘ others) (hq : q.census stages = (i, stage') ::ₘ others)
    {s : Stage} :
    (j, s) ∈ q.census stages ↔ (j = i ∧ s = stage') ∨ (j ≠ i ∧ (j, s) ∈ p.census stages) := by
  rw [hp, Multiset.map_cons, Multiset.nodup_cons] at hnumbers
  have hothers : ∀ t, (i, t) ∉ others := by
    intro t ht
    exact hnumbers.1 (Multiset.mem_map.2 ⟨(i, t), ht, rfl⟩)
  rw [hp, hq]
  simp only [Multiset.mem_cons, Prod.mk.injEq]
  by_cases hj : j = i
  · subst hj
    simp [hothers]
  · simp [hj]

namespace Counted

theorem of_eq (h : Counted p) (hlog : q.log = p.log)
    (hcensus : q.census stages = p.census stages) : Counted q := by
  obtain ⟨numbers, ahead, asked, busy, busyOnce, refused⟩ := h
  have hasked : q.asked = p.asked := by rw [Pool.asked, hlog, Pool.asked]
  have hsettled : q.settled = p.settled := by rw [Pool.settled, hlog, Pool.settled]
  constructor <;> simp only [hcensus, hlog, hasked, hsettled] <;> assumption

section Told

variable {cancelled : Bool} {stage stage' : Stage} {events : List (Event α)}
  {others : Multiset (Nat × Stage)}

theorem mem_busyAfter_iff (h : Counted p) (hp : p.census stages = (i, stage) ::ₘ others) :
    i ∈ busyAfter p.log ↔ stage = .busy := by
  rw [h.busy, mem_census_iff h.numbers hp hp]
  simp [eq_comm]

/-- No source is asked twice after a turn. -/
theorem nodup_asked (h : Counted p) (htold : Told i cancelled stage events stage')
    (hp : p.census stages = (i, stage) ::ₘ others) :
    (p.asked ++ events.filterMap Event.asked?).Nodup := by
  obtain ⟨hevents, hstage, -⟩ | hevents := htold.asked_eq
  · have hnot : i ∉ p.asked := by
      refine h.ahead i ?_
      rw [hp, hstage]
      exact Multiset.mem_cons_self _ _
    rw [hevents, List.nodup_append]
    refine ⟨h.asked, List.nodup_singleton i, fun a ha b hb hab => ?_⟩
    rw [List.mem_singleton] at hb
    rw [hab, hb] at ha
    exact hnot ha
  · rw [hevents, List.append_nil]
    exact h.asked

/-- A turn adds to the log what keeps it in agreement with the stages. -/
theorem of_told (h : Counted p) (htold : Told i cancelled stage events stage')
    (hp : p.census stages = (i, stage) ::ₘ others) (hlog : q.log = p.log ++ events)
    (hq : q.census stages = (i, stage') ::ₘ others) : Counted q := by
  have hasked : q.asked = p.asked ++ events.filterMap Event.asked? := by
    rw [Pool.asked, hlog, List.filterMap_append, Pool.asked]
  have hbusy := h.mem_busyAfter_iff hp
  constructor
  · have hnumbers := h.numbers
    rw [hp, Multiset.map_cons] at hnumbers
    rw [hq, Multiset.map_cons]
    exact hnumbers
  · intro j hj
    obtain ⟨-, hstage⟩ | ⟨hne, hj⟩ := (mem_census_iff h.numbers hp hq).1 hj
    · exact absurd hstage.symm htold.stage_ne
    · rw [hasked, List.mem_append, not_or]
      refine ⟨h.ahead j hj, fun hnew => ?_⟩
      obtain ⟨hevents, -⟩ | hevents := htold.asked_eq
      · rw [hevents, List.mem_singleton] at hnew
        exact hne hnew
      · simp [hevents] at hnew
  · rw [hasked]
    exact h.nodup_asked htold hp
  · intro j
    rw [hlog, htold.mem_busyAfter hbusy, mem_census_iff h.numbers hp hq, h.busy]
    simp [eq_comm]
  · rw [hlog]
    exact htold.nodup_busyAfter hbusy h.busyOnce
  · intro j result hj
    rw [Pool.settled, hlog, List.filterMap_append, List.mem_append] at hj
    rw [hasked, List.mem_append]
    rcases hj with hj | hj
    · exact (h.refused j result hj).imp_left .inl
    · obtain ⟨rfl, hnow | hstage | hresult⟩ := htold.settled_eq hj
      · exact .inl (.inr hnow)
      · exact .inl (.inl (mem_asked_of_mem_busyAfter (hbusy.2 hstage)))
      · exact .inr hresult

end Told

theorem step (h : Counted p) (hstep : Step p q) : Counted q := by
  obtain ⟨hlog, hcensus⟩ | ⟨i, stage, events, stage', others, htold, -, hp, hlog, hq⟩ :=
    step_told hstep
  · exact h.of_eq hlog hcensus
  · exact h.of_told htold hp hlog hq

/-- The log agrees with the stages along every schedule. -/
theorem reaches (h : Counted p) (hrun : p.Reaches q) : Counted q := by
  induction hrun with
  | refl => exact h
  | tail _ hstep ih => exact ih.step hstep

/-- Every busy source is that of a fetch under way. -/
theorem busyAfter_subset (h : Counted p) :
    busyAfter p.log ⊆ p.queue.map Prod.fst ++ p.waiting.map Prod.fst := by
  intro j hj
  rw [h.busy] at hj
  simp only [census, stages, Multiset.mem_add, Multiset.mem_coe, List.mem_map,
    Prod.mk.injEq, List.mem_append] at hj ⊢
  rcases hj with ((⟨_, -, -, hs⟩ | ⟨e, he, hej, -⟩) | ⟨e, he, hej, -⟩) | ⟨_, -, -, hs⟩
  · exact Stage.noConfusion hs
  · exact .inl ⟨e, he, hej⟩
  · exact .inr ⟨e, he, hej⟩
  · exact Stage.noConfusion hs

/-- A source that is asked gets busy in place of its fetch, which stood in the queue. -/
theorem length_cons_le {others : Multiset (Nat × Stage)} (h : Counted p)
    (hp : p.census stages = (i, .ahead) ::ₘ others) (hqueue : i ∈ p.queue.map Prod.fst) :
    (i :: busyAfter p.log).length ≤ p.underWay := by
  have hfresh : i ∉ busyAfter p.log := by
    rw [h.mem_busyAfter_iff hp]
    exact Stage.noConfusion
  have hsub : i :: busyAfter p.log ⊆ p.queue.map Prod.fst ++ p.waiting.map Prod.fst :=
    List.cons_subset.2 ⟨List.mem_append_left _ hqueue, h.busyAfter_subset⟩
  have hlength := ((h.busyOnce.cons hfresh).subperm hsub).length_le
  simpa [underWay] using hlength

theorem length_busyAfter_le (h : Counted p) : (busyAfter p.log).length ≤ p.underWay := by
  have hlength := (h.busyOnce.subperm h.busyAfter_subset).length_le
  simpa [underWay] using hlength

end Counted

theorem log_start (limit : Nat) (wishes : List CancelWish) (sources : List (Fetch α)) :
    (start limit wishes sources).log = [] := by
  rw [start, fulfil_eq_of_cancel log fun q entry => by cases entry <;> rfl]

/-- Every fetch has its first turn ahead then. -/
theorem counted_start (limit : Nat) (wishes : List CancelWish) (sources : List (Fetch α)) :
    Counted (start limit wishes sources) := by
  have hlog := log_start limit wishes sources
  have hcensus : (start limit wishes sources).census stages =
      ((sources.mapIdx fun i f => (i, f)).map fun e => (e.1, Stage.ahead) :
        List (Nat × Stage)) := by
    rw [start, fulfil_eq_of_cancel (census stages)
      fun q entry => census_cancel stages q (fun _ => rfl) entry]
    exact census_idle stages limit wishes sources
  have hnumbers : ((start limit wishes sources).census stages).map Prod.fst =
      Multiset.range sources.length := by
    rw [map_fst_census stages _ openResults]
    exact (tracks_start limit wishes sources).numbers
  constructor
  · rw [hnumbers]
    exact Multiset.nodup_range _
  · intro i _
    simp [Pool.asked, hlog]
  · simp [Pool.asked, hlog]
  · intro i
    simp [hlog, hcensus, busyAfter]
  · simp [hlog, busyAfter]
  · intro i result hsettled
    simp [Pool.settled, hlog] at hsettled

/-- A source that has not been asked when its fetch is cancelled is never asked. -/
theorem not_mem_asked_of_isCancelled (hrun : p.Reaches q) (hcancelled : p.isCancelled i = true)
    (hasked : i ∉ p.asked) : i ∉ q.asked := by
  induction hrun with
  | refl => exact hasked
  | @tail mid last hmid hstep ih =>
    have hstill := isCancelled_reaches hmid hcancelled
    obtain ⟨hlog, -⟩ | ⟨k, stage, events, stage', others, htold, -, -, hlog, -⟩ := step_told hstep
    · rw [Pool.asked, hlog]
      exact ih
    · rw [Pool.asked, hlog, List.filterMap_append, List.mem_append, not_or]
      refine ⟨ih, fun hnew => ?_⟩
      obtain ⟨hevents, -, hk⟩ | hevents := htold.asked_eq
      · rw [hevents, List.mem_singleton] at hnew
        rw [hnew, hk] at hstill
        exact Bool.noConfusion hstill
      · simp [hevents] at hnew

/-! ## How many sources are busy at a time -/

/-- Cancelling leaves as many fetches under way as there were. -/
theorem underWay_cancel (p : Pool α) (entry : Option Nat) :
    (p.cancel entry).underWay = p.underWay := by
  have hwake : ∀ r : Pool α, r.wake.underWay = r.underWay := by
    intro r
    have hpart := (List.filter_append_perm (fun w => r.isCancelled w.1) r.waiting).length_eq
    rw [List.length_append] at hpart
    simp only [underWay, wake, List.length_append, List.length_map]
    omega
  rw [cancel, hwake]
  cases entry <;> rfl

theorem underWay_settle (p : Pool α) (i : Nat) (given : Except FetchFault α) :
    (p.settle i given).underWay = p.underWay := by
  rw [settle, fulfil_eq_of_cancel underWay underWay_cancel]
  rfl

/-- A fetch that runs is under way afterwards, or settled. -/
theorem underWay_proceed_le (p : Pool α) (i : Nat) (f : Fetch α) :
    (p.proceed i f).underWay ≤ p.underWay + 1 := by
  unfold proceed
  split
  · rw [underWay_settle]
    exact Nat.le_succ _
  · simp only [underWay, List.length_append, List.length_singleton]
    omega
  · simp only [underWay, List.length_append, List.length_singleton]
    omega

/-- A fetch that gets a turn is under way afterwards, or settled. -/
theorem underWay_turn_le (p : Pool α) (i : Nat) (thread : Thread α) :
    (p.turn i thread).underWay ≤ p.underWay + 1 := by
  cases thread with
  | first source =>
    rw [turn]
    split
    · rw [underWay_settle]
      exact Nat.le_succ _
    · exact underWay_proceed_le _ i source
  | resumed resume => exact underWay_proceed_le p i _
  | woken next => exact underWay_proceed_le p i next

/-- Fetches are started only while there is room for them. -/
theorem underWay_step_le (h : p.underWay ≤ p.limit) (hstep : Step p q) : q.underWay ≤ p.limit := by
  cases hstep with
  | fill =>
    simp only [underWay, fill, List.length_append, List.length_map, List.length_take] at h ⊢
    omega
  | @turn front back i thread hqueue =>
    -- the fetch has left the queue before its turn
    have hturn := underWay_turn_le (p.withQueue (front ++ back)) i thread
    simp only [underWay, withQueue, hqueue, List.length_append, List.length_cons] at h hturn ⊢
    omega
  | cancel entry =>
    rw [underWay_cancel]
    exact h

/-- No more fetches are under way than the limit allows, and at no moment so far have more sources
been busy. -/
structure Bounded (p : Pool α) : Prop where
  /-- There is room for the fetches under way. -/
  room : p.underWay ≤ p.limit
  /-- There has always been room for the sources that were busy. -/
  always : ∀ n, (busyAfter (p.log.take n)).length ≤ p.limit

/-- A moment before the last event is a moment of the log before it. -/
theorem busyAfter_take_le {log : List (Event α)} {event : Event α} {limit : Nat}
    (hbefore : ∀ n, (busyAfter (log.take n)).length ≤ limit)
    (hlast : (busyAfter (log ++ [event])).length ≤ limit) (n : Nat) :
    (busyAfter ((log ++ [event]).take n)).length ≤ limit := by
  by_cases hn : n ≤ log.length
  · rw [List.take_append_of_le_length hn]
    exact hbefore n
  · rw [List.take_of_length_le (by simp; omega)]
    exact hlast

namespace Bounded

/-- A step starts no more fetches than there is room for, and keeps no more sources busy. -/
theorem step (h : Bounded p) (hcounted : Counted p) (hstep : Step p q) : Bounded q := by
  have hlimit : q.limit = p.limit := limit_reaches (.single hstep)
  have hroom := underWay_step_le h.room hstep
  refine ⟨hlimit ▸ hroom, ?_⟩
  rw [hlimit]
  have hlast : (busyAfter q.log).length ≤ p.limit :=
    (hcounted.step hstep).length_busyAfter_le.trans hroom
  obtain ⟨hlog, -⟩ | ⟨i, stage, events, stage', others, htold, hqueue, hp, hlog, -⟩ :=
    step_told hstep
  · rw [hlog]
    exact h.always
  · rw [hlog] at hlast ⊢
    cases htold with
    | refused => exact busyAfter_take_le h.always hlast
    | asked => exact busyAfter_take_le h.always hlast
    | answered _ result =>
      rw [List.append_cons] at hlast ⊢
      refine busyAfter_take_le (busyAfter_take_le h.always ?_) hlast
      rw [busyAfter_asked]
      exact (hcounted.length_cons_le hp hqueue).trans h.room
    | paused =>
      rw [List.append_nil]
      exact h.always
    | ended => exact busyAfter_take_le h.always hlast

/-- **At no moment of any schedule are more sources busy than the limit allows.** -/
theorem reaches (h : Bounded p) (hcounted : Counted p) (hrun : p.Reaches q) : Bounded q := by
  induction hrun with
  | refl => exact h
  | tail hmid hstep ih => exact ih.step (hcounted.reaches hmid) hstep

end Bounded

/-- At the start of a pool no fetch is under way. -/
theorem bounded_start (limit : Nat) (wishes : List CancelWish) (sources : List (Fetch α)) :
    Bounded (start limit wishes sources) := by
  have hlog := log_start limit wishes sources
  constructor
  · rw [start, fulfil_eq_of_cancel underWay underWay_cancel]
    exact Nat.zero_le _
  · intro n
    simp [hlog, busyAfter]

/-! ## In which order sources are asked -/

/-- First turns are given in the order in which the fetches were started: a fetch gets its first
one only if no fetch before it in the queue waits for its own. -/
def Rule.inOrder : Rule α where
  mayTurn front thread := thread.stage = .ahead → ∀ e ∈ front, e.2.stage ≠ .ahead

theorem Rule.inOrder_front (thread : Thread α) : Rule.inOrder.mayTurn [] thread :=
  fun _ _ he => absurd he List.not_mem_nil

/-- The fetches that have their first turns ahead, in the order of their start. -/
def yetToAsk (p : Pool α) : List Nat :=
  (p.queue.filter fun e => e.2.stage = .ahead).map Prod.fst ++ p.idle.map Prod.fst

/-- Starting fetches gives nobody a first turn. -/
theorem yetToAsk_fill (p : Pool α) : p.fill.yetToAsk = p.yetToAsk := by
  have hstarted : ∀ es : List (Nat × Fetch α),
      ((es.map fun e => (e.1, Thread.first e.2)).filter fun e => e.2.stage = .ahead) =
        es.map fun e => (e.1, Thread.first e.2) := by
    intro es
    refine List.filter_eq_self.2 fun e he => ?_
    obtain ⟨_, -, rfl⟩ := List.mem_map.1 he
    rfl
  have hidle := congrArg (List.map Prod.fst) (List.take_append_drop (p.limit - p.underWay) p.idle)
  rw [List.map_append] at hidle
  rw [yetToAsk, yetToAsk, ← hidle, fill]
  dsimp only
  rw [List.filter_append, hstarted, List.map_append, List.map_map, List.append_assoc]
  rfl

theorem yetToAsk_cancel (p : Pool α) (entry : Option Nat) :
    (p.cancel entry).yetToAsk = p.yetToAsk := by
  have hwake : ∀ r : Pool α, r.wake.yetToAsk = r.yetToAsk := by
    intro r
    simp [yetToAsk, wake, List.filter_map, Function.comp_def, Thread.stage]
  rw [cancel, hwake]
  cases entry <;> rfl

theorem yetToAsk_settle (p : Pool α) (i : Nat) (given : Except FetchFault α) :
    (p.settle i given).yetToAsk = p.yetToAsk := by
  rw [settle, fulfil_eq_of_cancel yetToAsk yetToAsk_cancel]
  rfl

theorem yetToAsk_proceed (p : Pool α) (i : Nat) (f : Fetch α) :
    (p.proceed i f).yetToAsk = p.yetToAsk := by
  unfold proceed
  split
  · exact yetToAsk_settle p i _
  · simp [yetToAsk, Thread.stage]
  · rfl

/-- A turn leaves the first turns of others ahead of them. -/
theorem yetToAsk_turn (p : Pool α) (i : Nat) (thread : Thread α) :
    (p.turn i thread).yetToAsk = p.yetToAsk := by
  cases thread with
  | first source =>
    rw [turn]
    split
    · exact yetToAsk_settle p i _
    · exact yetToAsk_proceed _ i source
  | resumed resume => exact yetToAsk_proceed p i _
  | woken next => exact yetToAsk_proceed p i next

/-- Asking goes on in the order in which it would have gone on before. -/
theorem sublist_of_stepBy (h : StepBy .inOrder p q) :
    (q.asked ++ q.yetToAsk).Sublist (p.asked ++ p.yetToAsk) := by
  cases h with
  | fill =>
    rw [yetToAsk_fill]
    exact .refl _
  | @turn front back i thread hqueue hfirst =>
    rw [yetToAsk_turn]
    obtain ⟨events, stage', htold, hlog, -⟩ := turn_told (p.withQueue (front ++ back)) i thread
    have hasked : ((p.withQueue (front ++ back)).turn i thread).asked =
        p.asked ++ events.filterMap Event.asked? := by
      rw [asked, hlog, List.filterMap_append]
      rfl
    rw [hasked, List.append_assoc]
    refine List.Sublist.append_left ?_ _
    obtain ⟨hevents, hstage, -⟩ | hevents := htold.asked_eq
    · have hfront : (front.filter fun e => e.2.stage = .ahead) = [] := by
        refine List.filter_eq_nil_iff.2 fun e he => ?_
        simpa using hfirst hstage e he
      simp [hevents, yetToAsk, withQueue, hqueue, hfront, hstage]
    · rw [hevents]
      simp only [yetToAsk, withQueue, hqueue, List.nil_append]
      refine List.Sublist.append_right (List.Sublist.map _ (List.Sublist.filter _ ?_)) _
      exact List.Sublist.append_left (List.sublist_cons_self _ _) _
  | @cancel entry =>
    have hlog : (p.cancel entry).log = p.log := by cases entry <;> rfl
    rw [yetToAsk_cancel, asked, hlog]
    exact .refl _

/-- **Where first turns are given in order, sources are asked in the order of their numbers.** -/
theorem pairwise_asked {limit : Nat} {wishes : List CancelWish} {sources : List (Fetch α)}
    (hrun : (start limit wishes sources).ReachesBy .inOrder p) : p.asked.Pairwise (· < ·) := by
  have hsublist : ∀ r, (start limit wishes sources).ReachesBy .inOrder r →
      (r.asked ++ r.yetToAsk).Sublist (List.range sources.length) := by
    intro r hr
    induction hr with
    | refl =>
      rw [asked, log_start, start, fulfil_eq_of_cancel yetToAsk yetToAsk_cancel, yetToAsk,
        map_fst_numbered]
      exact .refl _
    | tail _ hstep ih => exact (sublist_of_stepBy hstep).trans ih
  have hrange : (List.range sources.length).Pairwise (· < ·) := List.pairwise_lt_range
  exact (hrange.sublist (hsublist p hrun)).sublist (List.sublist_append_left _ _)

/-- A pool that is played by itself gives its turns in order. -/
theorem reachesBy_run (p : Pool α) : p.ReachesBy .inOrder p.run := by
  cases h : p.step? with
  | none =>
    rw [run_of_step?_none h]
    exact .single (.fill p)
  | some next =>
    rw [run_of_step? h]
    have hnext : p.ReachesBy .inOrder next := by
      unfold step? at h
      split at h
      · exact absurd h (by simp)
      · rename_i i thread rest hfront
        obtain rfl := Option.some.inj h
        have hturn : StepBy .inOrder p.fill ((p.fill.withQueue ([] ++ rest)).turn i thread) :=
          .turn hfront (Rule.inOrder_front thread)
        exact .tail (.single (.fill p)) hturn
    exact hnext.trans (reachesBy_run next)
termination_by p.work
decreasing_by exact work_step? h

/-- So its sources are asked in the order of their numbers. -/
theorem pairwise_asked_run (limit : Nat) (wishes : List CancelWish) (sources : List (Fetch α)) :
    (start limit wishes sources).run.asked.Pairwise (· < ·) :=
  pairwise_asked (reachesBy_run _)

end Pool

/-! ## The sources of a plan -/

namespace Plan

/-- The sources of a plan are asked in turn, up to some moment of a run. -/
structure AsksInTurn (p : Plan) (wishes : List CancelWish) (pool : Pool ByteArray) : Prop where
  /-- At no moment so far have more sources been asked without having answered than the settings
  allow, where there is always room for one. -/
  bounded : ∀ n, (Pool.busyAfter (pool.log.take n)).length ≤ max 1 p.settings.concurrency
  /-- No source has been asked twice. -/
  once : pool.asked.Nodup
  /-- If first turns were given in the order in which the fetches were started, the sources have
  been asked in the order of the entries. -/
  ordered : (p.pool wishes).ReachesBy .inOrder pool → pool.asked.Pairwise (· < ·)
  /-- Whatever was cancelled at some moment before it was asked has not been asked since. -/
  spared : ∀ (before : Pool ByteArray) (i : Nat), before.Reaches pool →
    before.isCancelled i = true → i ∉ before.asked → i ∉ pool.asked

/-- **Sources are asked in turn.**  Whatever the limit, the sources and the wished cancellations
are, and whatever schedule a plan is played with, further cancellations included: at every moment
no more sources are busy than the limit allows, each of them is asked at most once, in the order of
the entries if first turns are given in that order, and never after its fetch has been
cancelled. -/
theorem asksInTurn_of_reaches {p : Plan} {wishes : List CancelWish} {pool : Pool ByteArray}
    (hrun : (p.pool wishes).Reaches pool) : p.AsksInTurn wishes pool := by
  have hcounted : (p.pool wishes).Counted := Pool.counted_start _ _ _
  have hbounded : (p.pool wishes).Bounded := Pool.bounded_start _ _ _
  have hlimit : pool.limit = max 1 p.settings.concurrency := by
    rw [Pool.limit_reaches hrun, Plan.pool, Pool.start, Pool.limit_fulfil, Settings.slotCount]
  constructor
  · rw [← hlimit]
    exact (hbounded.reaches hcounted hrun).always
  · exact (hcounted.reaches hrun).asked
  · exact fun hinOrder => Pool.pairwise_asked hinOrder
  · exact fun before i hrest hcancelled hasked =>
      Pool.not_mem_asked_of_isCancelled hrest hcancelled hasked

/-- Three images one at a time, the first of them after a pause.  The setting has room for none. -/
def oneAtATime : Plan where
  stem := "notes"
  children := []
  entries := [
    ⟨.image, "images/a.png", ⟨"a.png", "A", .pause fun _ => .answer (.ok ⟨#[1]⟩)⟩, .slot 0⟩,
    ⟨.image, "images/b.png", ⟨"b.png", "B", .answer (.ok ⟨#[2]⟩)⟩, .slot 1⟩,
    ⟨.image, "images/c.png", ⟨"c.png", "C", .answer (.ok ⟨#[3]⟩)⟩, .slot 2⟩]
  settings := { concurrency := 0 }
  style := {}

/-- The second image is cancelled as soon as the first one has come, and is never asked for. -/
theorem asksInTurn_oneAtATime :
    ∃ before pool : Pool ByteArray,
      (oneAtATime.pool [⟨1, some 1⟩]).ReachesBy .inOrder pool ∧ before.Reaches pool ∧
      before.isCancelled 1 = true ∧ 1 ∉ before.asked ∧ pool.asked = [0, 2] ∧
      pool.settled.map Prod.fst = [0, 1, 2] ∧ oneAtATime.AsksInTurn [⟨1, some 1⟩] pool := by
  have hfirst : (oneAtATime.pool [⟨1, some 1⟩]).ReachesBy .inOrder _ :=
    Relation.ReflTransGen.refl
      |>.tail (.fill _)
      |>.tail (@Pool.StepBy.turn _ _ _ [] [] _ _ rfl (Pool.Rule.inOrder_front _))
      |>.tail (@Pool.StepBy.turn _ _ _ [] [] _ _ rfl (Pool.Rule.inOrder_front _))
  have hstay : ∀ q, (oneAtATime.pool [⟨1, some 1⟩]).ReachesBy .inOrder q → q.ReachesBy .inOrder q :=
    fun _ _ => .refl
  have hrest :=
    hstay _ hfirst
      |>.tail (.fill _)
      |>.tail (@Pool.StepBy.turn _ _ _ [] [] _ _ rfl (Pool.Rule.inOrder_front _))
      |>.tail (.fill _)
      |>.tail (@Pool.StepBy.turn _ _ _ [] [] _ _ rfl (Pool.Rule.inOrder_front _))
  have hrun : (oneAtATime.pool [⟨1, some 1⟩]).ReachesBy .inOrder _ := hfirst.trans hrest
  exact ⟨_, _, hrun, Pool.ReachesBy.reaches hrest, by decide, by decide, rfl, rfl,
    asksInTurn_of_reaches (Pool.ReachesBy.reaches hrun)⟩

end Plan

end DocExport.Archive
