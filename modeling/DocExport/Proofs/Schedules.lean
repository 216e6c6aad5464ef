import DocExport.Archive.Pool
import Mathlib.Algebra.Order.Group.Multiset
import Mathlib.Data.Multiset.Range
import Mathlib.Logic.Relation

/-!
# Every schedule of a pool

`Pool.run` gives turns in one order.  What a pool settles does not hang on that order, so here
the order is left open: at any moment fetches may be started, any fetch of the queue may get the
next turn, and any fetch, or all of them, may be cancelled.  A *rule* can narrow down who gets a
turn and what is cancelled.  A pool is *at rest* when no fetch can get a turn any more, and *over*
when no fetch is left in it.

The *census* of a pool notes something about every fetch at the station where it is.  Its
*prospects* are such a census: the number of each fetch, and the results that are still open to
it.  Whatever happens to a pool, the prospects are moved about, and at most one of them gets
narrower.

* **Main results.** `Pool.exists_results` says that a pool that is over has settled every fetch
  exactly once, with a result that this very fetch can have, `Pool.reaches_run` and
  `Pool.isAtRest_run` that the run of a pool is one of these schedules and comes to rest, and
  `Pool.IsAtRest.isOver_of_reaches` that a pool at rest is over unless it has stalled.
-/

namespace DocExport

/-! ## What a fetch may return -/

namespace Fetch

variable {α : Type}

/-- The answers a fetch can give, whenever it is taken up and whether or not it is cancelled. -/
inductive Answers : Fetch α → Except FetchFault α → Prop where
  | answer (result : Except FetchFault α) : Answers (.answer result) result
  | pause {resume : Bool → Fetch α} {result : Except FetchFault α} (cancelled : Bool)
      (h : Answers (resume cancelled) result) : Answers (.pause resume) result
  | awaitCancel {next : Fetch α} {result : Except FetchFault α} (h : Answers next result) :
      Answers (.awaitCancel next) result

/-- What fetching from a source can come to: a cancellation before the source is asked, or the
answer of the source. -/
def Returns (source : Fetch α) (result : Except FetchFault α) : Prop :=
  result = .error .cancelled ∨ source.Answers result

/-- The answers that are left after a turn. -/
def Turn.Answers : Turn α → Except FetchFault α → Prop
  | .done given => fun result => result = given
  | .paused resume => fun result => ∃ cancelled, (resume cancelled).Answers result
  | .waiting next => next.Answers

/-- A turn opens no new answers. -/
theorem answers_of_advance {cancelled : Bool} {f : Fetch α} {result : Except FetchFault α}
    (h : (f.advance cancelled).Answers result) : f.Answers result := by
  induction f with
  | answer given =>
    obtain rfl : result = given := h
    exact .answer result
  | pause resume =>
    obtain ⟨c, hc⟩ := h
    exact .pause c hc
  | awaitCancel next ih =>
    cases cancelled with
    | false => exact .awaitCancel h
    | true => exact .awaitCancel (ih h)

end Fetch

namespace Archive

/-! ## Tables -/

section Tables

variable {β : Type} {pairs : List (Nat × β)}

/-- What is looked up is what the list has for the number, if that is not more than one thing. -/
theorem lookup_eq_of_mem_iff {i : Nat} {value : Option β}
    (h : ∀ b, (i, b) ∈ pairs ↔ value = some b) : pairs.lookup i = value := by
  cases hlookup : pairs.lookup i with
  | none =>
    cases value with
    | none => rfl
    | some b =>
      have hne := List.lookup_eq_none_iff.1 hlookup (i, b) ((h b).2 rfl)
      simp at hne
  | some b =>
    obtain ⟨front, back, rfl, -⟩ := List.lookup_eq_some_iff.1 hlookup
    exact ((h b).1 (by simp)).symm

/-- A list that has something for each number below a bound exactly once is a table. -/
theorem exists_table {n : Nat} (other : β) (h : (pairs.map Prod.fst).Perm (List.range n)) :
    ∃ value : Nat → β, pairs.Perm ((List.range n).map fun i => (i, value i)) := by
  have hnodup : (pairs.map Prod.fst).Nodup := h.nodup_iff.2 List.nodup_range
  have hvalue : pairs.map (fun x => (x.1, (pairs.lookup x.1).getD other)) = pairs.map id := by
    refine List.map_congr_left fun x hx => ?_
    have hlookup : pairs.lookup x.1 = some x.2 := by
      refine lookup_eq_of_mem_iff fun b => ⟨fun hb => ?_, fun hb => ?_⟩
      · rw [← List.inj_on_of_nodup_map hnodup hb hx rfl]
      · rw [← Option.some.inj hb]
        exact hx
    rw [hlookup, Option.getD_some, id]
  have hmap := h.map fun i => (i, (pairs.lookup i).getD other)
  rw [List.map_map, Function.comp_def, hvalue, List.map_id] at hmap
  exact ⟨_, hmap⟩

theorem mem_of_perm_table {n : Nat} {value : Nat → β}
    (h : pairs.Perm ((List.range n).map fun i => (i, value i))) {i : Nat} (hi : i < n) :
    (i, value i) ∈ pairs :=
  h.symm.subset (List.mem_map_of_mem (List.mem_range.2 hi))

end Tables

variable {α : Type}

/-- The results open to a fetch in the queue. -/
def Thread.Answers : Thread α → Except FetchFault α → Prop
  | .first source => source.Returns
  | .resumed resume => fun result => ∃ cancelled, (resume cancelled).Answers result
  | .woken next => next.Answers

namespace Pool

/-! ## Schedules -/

/-- One thing that can happen to a pool. -/
inductive Step : Pool α → Pool α → Prop where
  /-- Fetches are started while there is room. -/
  | fill (p : Pool α) : Step p p.fill
  /-- A fetch gets its turn, wherever it stands in the queue. -/
  | turn {p : Pool α} {front back : List (Nat × Thread α)} {i : Nat} {thread : Thread α}
      (h : p.queue = front ++ (i, thread) :: back) :
      Step p ((p.withQueue (front ++ back)).turn i thread)
  /-- A fetch, or all of them, are cancelled. -/
  | cancel (p : Pool α) (entry : Option Nat) : Step p (p.cancel entry)

/-- One pool can become another, by some schedule. -/
def Reaches : Pool α → Pool α → Prop := Relation.ReflTransGen Step

/-! ## Schedules that keep to a rule -/

/-- What a schedule is free to do. -/
structure Rule (α : Type) where
  /-- Whether a fetch may get a turn, with these before it in the queue. -/
  mayTurn : List (Nat × Thread α) → Thread α → Prop := fun _ _ => True
  /-- Whether a fetch, or all of them, may be cancelled. -/
  mayCancel : Option Nat → Prop := fun _ => True

/-- One thing that can happen to a pool by a rule. -/
inductive StepBy (rule : Rule α) : Pool α → Pool α → Prop where
  /-- Fetches are started while there is room. -/
  | fill (p : Pool α) : StepBy rule p p.fill
  /-- A fetch gets its turn that may get it. -/
  | turn {p : Pool α} {front back : List (Nat × Thread α)} {i : Nat} {thread : Thread α}
      (h : p.queue = front ++ (i, thread) :: back) (hmay : rule.mayTurn front thread) :
      StepBy rule p ((p.withQueue (front ++ back)).turn i thread)
  /-- What may be cancelled is cancelled. -/
  | cancel (p : Pool α) {entry : Option Nat} (hmay : rule.mayCancel entry) :
      StepBy rule p (p.cancel entry)

/-- One pool can become another, by some schedule that keeps to a rule. -/
def ReachesBy (rule : Rule α) : Pool α → Pool α → Prop := Relation.ReflTransGen (StepBy rule)

theorem StepBy.step {rule : Rule α} {p q : Pool α} (h : StepBy rule p q) : Step p q := by
  cases h with
  | fill => exact .fill p
  | turn hqueue => exact .turn hqueue
  | cancel => exact .cancel p _

theorem ReachesBy.reaches {rule : Rule α} {p q : Pool α} (h : p.ReachesBy rule q) :
    p.Reaches q := by
  induction h with
  | refl => exact .refl
  | tail _ hstep ih => exact ih.tail hstep.step

/-! ## What a schedule keeps -/

/-- What the wished cancellations keep is kept when wishes are fulfilled. -/
theorem fulfil_induction {motive : Pool α → Prop} {p : Pool α}
    (hcancel : ∀ w ∈ p.wishes, ∀ q, motive q → motive (q.cancel w.entry)) (hp : motive p)
    (moment : Nat) : motive (p.fulfil moment) := by
  have hfold : ∀ (ws : List CancelWish), (∀ w ∈ ws, w ∈ p.wishes) → ∀ q : Pool α, motive q →
      motive (ws.foldl (fun q w => q.cancel w.entry) q) := by
    intro ws
    induction ws with
    | nil => exact fun _ q hq => hq
    | cons w ws ih =>
      intro hws q hq
      exact ih (fun v hv => hws v (List.mem_cons_of_mem w hv)) _
        (hcancel w (hws w List.mem_cons_self) q hq)
  exact hfold _ (fun w hw => (List.mem_filter.1 hw).1) p hp

/-- What the wished cancellations keep, and what does not hang on the queue, on the fetches that
wait or on the log, is kept by a turn. -/
theorem turn_induction {motive : Pool α → Prop} {p : Pool α}
    (hmoves : ∀ (q : Pool α) queue waiting log, motive q → motive { q with queue, waiting, log })
    (hcancel : ∀ w ∈ p.wishes, ∀ q, motive q → motive (q.cancel w.entry)) (hp : motive p)
    (i : Nat) (thread : Thread α) : motive (p.turn i thread) := by
  have hsettle : ∀ (log : List (Event α)) (given : Except FetchFault α),
      motive (settle { p with log } i given) := by
    intro log given
    refine fulfil_induction ?_ (hmoves p p.queue p.waiting (log ++ [.settled i given]) hp) _
    exact hcancel
  have hproceed : ∀ (log : List (Event α)) (f : Fetch α), motive (proceed { p with log } i f) := by
    intro log f
    unfold proceed
    split
    · exact hsettle log _
    · exact hmoves p (p.queue ++ [(i, _)]) p.waiting log hp
    · exact hmoves p p.queue (p.waiting ++ [(i, _)]) log hp
  cases thread with
  | first source =>
    rw [turn]
    split
    · exact hsettle p.log _
    · exact hproceed _ source
  | resumed resume => exact hproceed p.log _
  | woken next => exact hproceed p.log next

/-- A fetch that is cancelled stays cancelled, whatever else is cancelled. -/
theorem isCancelled_cancel {p : Pool α} {i : Nat} (h : p.isCancelled i = true)
    (entry : Option Nat) : (p.cancel entry).isCancelled i = true := by
  cases entry with
  | none => simp [isCancelled, cancel, mark, wake]
  | some j =>
    simp only [isCancelled, Bool.or_eq_true, List.contains_iff_mem] at h
    simp only [isCancelled, cancel, mark, wake, Bool.or_eq_true, List.contains_iff_mem,
      List.mem_cons]
    tauto

/-- A fetch that is cancelled stays cancelled through every step. -/
theorem isCancelled_step {p q : Pool α} {i : Nat} (hstep : Step p q)
    (h : p.isCancelled i = true) : q.isCancelled i = true := by
  cases hstep with
  | fill => exact h
  | turn =>
    refine turn_induction (motive := fun q => q.isCancelled i = true) ?_ ?_ ?_ _ _
    · exact fun _ _ _ _ hq => hq
    · exact fun w _ _ hq => isCancelled_cancel hq w.entry
    · exact h
  | cancel entry => exact isCancelled_cancel h entry

theorem isCancelled_reaches {p q : Pool α} {i : Nat} (hrun : p.Reaches q)
    (h : p.isCancelled i = true) : q.isCancelled i = true := by
  induction hrun with
  | refl => exact h
  | tail _ hstep ih => exact isCancelled_step hstep ih

theorem limit_cancel (p : Pool α) (entry : Option Nat) : (p.cancel entry).limit = p.limit := by
  cases entry <;> rfl

theorem limit_fulfil (p : Pool α) (moment : Nat) : (p.fulfil moment).limit = p.limit :=
  fulfil_eq_of_cancel limit limit_cancel p moment

/-- Whatever happens to a pool, its limit stays as it is. -/
theorem limit_reaches {p q : Pool α} (h : p.Reaches q) : q.limit = p.limit := by
  induction h with
  | refl => rfl
  | tail _ hstep ih =>
    rw [← ih]
    cases hstep with
    | fill => rfl
    | turn =>
      refine turn_induction (motive := fun q => q.limit = _) ?_ ?_ ?_ _ _
      · exact fun _ _ _ _ hq => hq
      · exact fun w _ q hq => (limit_cancel q w.entry).trans hq
      · rfl
    | cancel entry => exact limit_cancel _ entry

/-! ## Where a schedule ends -/

/-- No fetch is left in a pool. -/
structure IsOver (p : Pool α) : Prop where
  idle : p.idle = []
  queue : p.queue = []
  waiting : p.waiting = []

/-- No fetch of a pool can get a turn, and none can be started. -/
structure IsAtRest (p : Pool α) : Prop where
  queue : p.queue = []
  full : p.idle = [] ∨ p.limit ≤ p.underWay

/-! ## Taking count of the fetches -/

/-- What is noted of a fetch at each of the stations that it goes through. -/
structure Notes (α β : Type) where
  settled : Except FetchFault α → β
  queued : Thread α → β
  waiting : Fetch α → β
  idle : Fetch α → β

/-- The fetches of a pool with what is noted of them.  The order of the fetches plays no part. -/
def census {β : Type} (notes : Notes α β) (p : Pool α) : Multiset (Nat × β) :=
  p.settled.map (fun s => (s.1, notes.settled s.2)) +
    p.queue.map (fun e => (e.1, notes.queued e.2)) +
    p.waiting.map (fun e => (e.1, notes.waiting e.2)) +
    p.idle.map fun e => (e.1, notes.idle e.2)

section Census

variable {β : Type} (notes : Notes α β) (p : Pool α) (i : Nat)

/-- Starting fetches leaves the count as it is, if it does not tell a fetch that is to be started
from one that has been. -/
theorem census_fill (hfirst : ∀ source, notes.queued (.first source) = notes.idle source) :
    p.fill.census notes = p.census notes := by
  have hidle := List.take_append_drop (p.limit - p.underWay) p.idle
  have hsettled : p.fill.settled = p.settled := rfl
  rw [census, census, hsettled]
  conv_rhs => rw [← hidle]
  simp only [fill, List.map_append, List.map_map, Function.comp_def, hfirst, ← Multiset.coe_add,
    ← add_assoc]
  exact congrArg (· + _) (add_right_comm _ _ _)

/-- A fetch that is settled is counted as settled. -/
theorem census_settled (given : Except FetchFault α) :
    { p with log := p.log ++ [Event.settled i given] }.census notes =
      (i, notes.settled given) ::ₘ p.census notes := by
  have hlog : { p with log := p.log ++ [Event.settled i given] }.settled =
      p.settled ++ [(i, given)] := by
    simp [settled, Event.settled?]
  rw [census, hlog, List.map_append, ← Multiset.coe_add]
  simp only [← Multiset.singleton_add, census]
  simp only [List.map_cons, List.map_nil, Multiset.coe_singleton]
  ac_rfl

theorem census_queued (thread : Thread α) :
    { p with queue := p.queue ++ [(i, thread)] }.census notes =
      (i, notes.queued thread) ::ₘ p.census notes := by
  simp only [census, settled, List.map_append, ← Multiset.coe_add, List.map_cons,
    List.map_nil, Multiset.coe_singleton, ← Multiset.singleton_add]
  ac_rfl

theorem census_waiting (next : Fetch α) :
    { p with waiting := p.waiting ++ [(i, next)] }.census notes =
      (i, notes.waiting next) ::ₘ p.census notes := by
  simp only [census, settled, List.map_append, ← Multiset.coe_add, List.map_cons,
    List.map_nil, Multiset.coe_singleton, ← Multiset.singleton_add]
  ac_rfl

theorem census_asked :
    { p with log := p.log ++ [Event.asked i] }.census notes = p.census notes := by
  have hlog : { p with log := p.log ++ [Event.asked i] }.settled = p.settled := by
    simp [settled, Event.settled?]
  rw [census, hlog]
  rfl

/-- Waking fetches leaves the count as it is, if it does not tell a fetch that is woken from one
that waits. -/
theorem census_wake (hwoken : ∀ next, notes.queued (.woken next) = notes.waiting next) :
    p.wake.census notes = p.census notes := by
  have hsettled : p.wake.settled = p.settled := rfl
  have hpart := (List.filter_append_perm (fun w => p.isCancelled w.1) p.waiting).map
    fun e => (e.1, notes.waiting e.2)
  rw [List.map_append, ← Multiset.coe_eq_coe, ← Multiset.coe_add] at hpart
  rw [census, census, hsettled, ← hpart]
  simp only [wake, List.map_append, List.map_map, Function.comp_def, hwoken, ← Multiset.coe_add,
    ← add_assoc]

theorem census_cancel (hwoken : ∀ next, notes.queued (.woken next) = notes.waiting next)
    (entry : Option Nat) : (p.cancel entry).census notes = p.census notes := by
  have hmark : (p.mark entry).census notes = p.census notes := by cases entry <;> rfl
  rw [← hmark]
  exact census_wake notes _ hwoken

theorem census_settle (hwoken : ∀ next, notes.queued (.woken next) = notes.waiting next)
    (given : Except FetchFault α) :
    (p.settle i given).census notes = (i, notes.settled given) ::ₘ p.census notes := by
  rw [settle, fulfil_eq_of_cancel (census notes) fun q entry => census_cancel notes q hwoken entry]
  exact census_settled notes p i given

theorem map_fst_census {γ : Type} (others : Notes α γ) :
    (p.census notes).map Prod.fst = (p.census others).map Prod.fst := by
  simp [census, Function.comp_def]

variable {p i}

theorem census_of_queue {front back : List (Nat × Thread α)} {thread : Thread α}
    (h : p.queue = front ++ (i, thread) :: back) :
    p.census notes =
      (i, notes.queued thread) ::ₘ (p.withQueue (front ++ back)).census notes := by
  simp only [census, withQueue, settled, h, List.map_append, List.map_cons,
    ← Multiset.coe_add, ← Multiset.cons_coe, ← Multiset.singleton_add]
  ac_rfl

theorem IsOver.census_eq (h : p.IsOver) :
    p.census notes = (p.settled.map fun s => (s.1, notes.settled s.2) : List (Nat × β)) := by
  simp [census, h.idle, h.queue, h.waiting]

theorem census_idle (limit : Nat) (wishes : List CancelWish) (sources : List (Fetch α)) :
    census notes { limit, wishes, idle := sources.mapIdx fun i f => (i, f) } =
      ((sources.mapIdx fun i f => (i, f)).map fun e => (e.1, notes.idle e.2) :
        List (Nat × β)) := by
  simp [census, settled]

end Census

/-! ## Prospects -/

/-- The fetches of a pool with the results that are still open to them: one for a fetch that is
settled.  The order of the fetches plays no part. -/
def prospects (p : Pool α) : Multiset (Nat × (Except FetchFault α → Prop)) :=
  p.settled.map (fun s => (s.1, fun result => result = s.2)) +
    p.queue.map (fun e => (e.1, e.2.Answers)) +
    p.waiting.map (fun e => (e.1, e.2.Answers)) +
    p.idle.map fun e => (e.1, e.2.Returns)

/-- What is open to a fetch at each station. -/
def openResults : Notes α (Except FetchFault α → Prop) where
  settled given := fun result => result = given
  queued := Thread.Answers
  waiting := Fetch.Answers
  idle := Fetch.Returns

theorem prospects_eq_census (p : Pool α) : p.prospects = p.census openResults := rfl

theorem prospects_fill (p : Pool α) : p.fill.prospects = p.prospects :=
  census_fill openResults p fun _ => rfl

theorem prospects_cancel (p : Pool α) (entry : Option Nat) :
    (p.cancel entry).prospects = p.prospects :=
  census_cancel openResults p (fun _ => rfl) entry

theorem prospects_fulfil (p : Pool α) (moment : Nat) :
    (p.fulfil moment).prospects = p.prospects :=
  fulfil_eq_of_cancel prospects prospects_cancel p moment

theorem prospects_settle (p : Pool α) (i : Nat) (given : Except FetchFault α) :
    (p.settle i given).prospects = (i, fun result => result = given) ::ₘ p.prospects :=
  census_settle openResults p i (fun _ => rfl) given

theorem prospects_proceed (p : Pool α) (i : Nat) (f : Fetch α) :
    (p.proceed i f).prospects = (i, (f.advance (p.isCancelled i)).Answers) ::ₘ p.prospects := by
  unfold proceed
  cases f.advance (p.isCancelled i) with
  | done given => exact prospects_settle p i given
  | paused resume => exact census_queued openResults p i _
  | waiting next => exact census_waiting openResults p i _

/-- A turn brings back a prospect that is no wider than that of the thread. -/
theorem prospects_turn (p : Pool α) (i : Nat) (thread : Thread α) :
    ∃ left : Except FetchFault α → Prop, (∀ result, left result → thread.Answers result) ∧
      (p.turn i thread).prospects = (i, left) ::ₘ p.prospects := by
  cases thread with
  | first source =>
    rw [turn]
    split
    · exact ⟨_, fun result h => .inl h, prospects_settle p i _⟩
    · have hproceed := prospects_proceed { p with log := p.log ++ [Event.asked i] } i source
      rw [prospects_eq_census { p with log := _ }, census_asked] at hproceed
      exact ⟨_, fun result h => .inr (Fetch.answers_of_advance h), hproceed⟩
  | resumed resume =>
    exact ⟨_, fun result h => ⟨_, Fetch.answers_of_advance h⟩, prospects_proceed p i _⟩
  | woken next => exact ⟨_, fun result h => Fetch.answers_of_advance h, prospects_proceed p i next⟩

theorem prospects_of_queue {p : Pool α} {front back : List (Nat × Thread α)} {i : Nat}
    {thread : Thread α} (h : p.queue = front ++ (i, thread) :: back) :
    p.prospects = (i, thread.Answers) ::ₘ (p.withQueue (front ++ back)).prospects :=
  census_of_queue openResults h

/-! ## No fetch is lost, doubled or mixed up -/

/-- Every one of the given sources has exactly one fetch in the pool, settled or not, and the
results open to that fetch are results of its source. -/
structure Tracks (sources : List (Fetch α)) (p : Pool α) : Prop where
  /-- Each number occurs once. -/
  numbers : p.prospects.map Prod.fst = Multiset.range sources.length
  /-- A fetch comes to what its own source can give. -/
  answers : ∀ x ∈ p.prospects, ∀ source, sources[x.1]? = some source →
    ∀ result, x.2 result → source.Returns result

namespace Tracks

variable {sources : List (Fetch α)} {p q : Pool α}

theorem of_eq (h : Tracks sources p) (heq : q.prospects = p.prospects) : Tracks sources q where
  numbers := heq ▸ h.numbers
  answers := heq ▸ h.answers

/-- What narrows one prospect keeps the fetches. -/
theorem of_narrower {i : Nat} {wide narrow : Except FetchFault α → Prop}
    {others : Multiset (Nat × (Except FetchFault α → Prop))} (h : Tracks sources p)
    (hp : p.prospects = (i, wide) ::ₘ others) (hq : q.prospects = (i, narrow) ::ₘ others)
    (hsub : ∀ result, narrow result → wide result) : Tracks sources q := by
  obtain ⟨hnumbers, hanswers⟩ := h
  rw [hp, Multiset.map_cons] at hnumbers
  rw [hp] at hanswers
  constructor
  · rw [hq, Multiset.map_cons]
    exact hnumbers
  · rw [hq]
    intro x hx source hsource result hresult
    rcases Multiset.mem_cons.1 hx with rfl | hx
    · exact hanswers (i, wide) (Multiset.mem_cons_self _ _) source hsource result
        (hsub result hresult)
    · exact hanswers x (Multiset.mem_cons_of_mem hx) source hsource result hresult

theorem step (h : Tracks sources p) (hstep : Step p q) : Tracks sources q := by
  cases hstep with
  | fill => exact h.of_eq (prospects_fill p)
  | turn hqueue =>
    obtain ⟨left, hleft, hturn⟩ := prospects_turn (p.withQueue _) _ _
    exact h.of_narrower (prospects_of_queue hqueue) hturn hleft
  | cancel entry => exact h.of_eq (prospects_cancel p entry)

theorem reaches (h : Tracks sources p) (hrun : p.Reaches q) : Tracks sources q := by
  induction hrun with
  | refl => exact h
  | tail _ hstep ih => exact ih.step hstep

end Tracks

theorem map_fst_numbered (sources : List (Fetch α)) :
    (sources.mapIdx fun i f => (i, f)).map Prod.fst = List.range sources.length := by
  rw [List.mapIdx_eq_zipIdx_map, List.map_map, List.range_eq_range', ← List.zipIdx_map_snd 0]
  rfl

/-- A pool at its start has a fetch for every source. -/
theorem tracks_start (limit : Nat) (wishes : List CancelWish) (sources : List (Fetch α)) :
    Tracks sources (start limit wishes sources) := by
  have hprospects : (start limit wishes sources).prospects =
      ((sources.mapIdx fun i f => (i, f)).map fun e => (e.1, e.2.Returns) :
        List (Nat × (Except FetchFault α → Prop))) := by
    rw [start, prospects_fulfil]
    exact census_idle openResults limit wishes sources
  constructor
  · rw [hprospects, Multiset.map_coe, List.map_map, Multiset.range, ← map_fst_numbered sources]
    rfl
  · rw [hprospects]
    intro x hx source hsource result hresult
    obtain ⟨e, he, rfl⟩ := List.mem_map.1 (Multiset.mem_coe.1 hx)
    obtain ⟨i, hi, rfl⟩ := List.mem_mapIdx.1 he
    rw [List.getElem?_eq_getElem hi] at hsource
    rw [← Option.some.inj hsource]
    exact hresult

/-! ## What a pool has settled in the end -/

/-- **Every fetch is settled exactly once.**  However a pool was played, once it is over its
settled fetches are, in some order, all the fetches it was started with, each once and with a
result that its own source can give. -/
theorem exists_results {limit : Nat} {wishes : List CancelWish} {sources : List (Fetch α)}
    {p : Pool α} (hrun : (start limit wishes sources).Reaches p) (hover : p.IsOver) :
    ∃ result : Nat → Except FetchFault α,
      p.settled.Perm ((List.range sources.length).map fun i => (i, result i)) ∧
      ∀ i (source : Fetch α), sources[i]? = some source → source.Returns (result i) := by
  have htracks := (tracks_start limit wishes sources).reaches hrun
  have hnumbers : (p.settled.map Prod.fst).Perm (List.range sources.length) := by
    have h := htracks.numbers
    rw [prospects_eq_census, hover.census_eq, Multiset.map_coe, List.map_map] at h
    exact Multiset.coe_eq_coe.1 h
  obtain ⟨result, hresult⟩ := exists_table (.error .cancelled) hnumbers
  refine ⟨result, hresult, fun i source hsource => ?_⟩
  have hlt : i < sources.length := (List.getElem?_eq_some_iff.1 hsource).1
  have hmem : (i, result i) ∈ p.settled := mem_of_perm_table hresult hlt
  refine htracks.answers (i, fun r => r = result i) ?_ source hsource _ rfl
  rw [prospects_eq_census, hover.census_eq]
  exact Multiset.mem_coe.2 (List.mem_map_of_mem hmem)

/-! ## The run of a pool is a schedule -/

/-- A step of the run gives the turn to the front of the queue. -/
theorem reaches_step? {p q : Pool α} (h : p.step? = some q) : p.Reaches q := by
  unfold step? at h
  split at h
  · exact absurd h (by simp)
  · rename_i i thread rest hfront
    obtain rfl := Option.some.inj h
    have hturn : Step p.fill ((p.fill.withQueue ([] ++ rest)).turn i thread) := .turn hfront
    exact .tail (.single (.fill p)) hturn

/-- The run of a pool goes on until no fetch can get a turn. -/
theorem exists_run_eq_fill (p : Pool α) :
    ∃ q : Pool α, p.Reaches q ∧ q.step? = none ∧ p.run = q.fill := by
  cases h : p.step? with
  | none => exact ⟨p, .refl, h, run_of_step?_none h⟩
  | some next =>
    obtain ⟨q, hreach, hnone, hrun⟩ := exists_run_eq_fill next
    exact ⟨q, (reaches_step? h).trans hreach, hnone, (run_of_step? h).trans hrun⟩
termination_by p.work
decreasing_by exact work_step? h

/-- The run of a pool is one of its schedules. -/
theorem reaches_run (p : Pool α) : p.Reaches p.run := by
  obtain ⟨q, hreach, -, hrun⟩ := p.exists_run_eq_fill
  rw [hrun]
  exact hreach.tail (.fill q)

/-- The run of a pool goes on until the pool is at rest. -/
theorem isAtRest_run (p : Pool α) : p.run.IsAtRest := by
  obtain ⟨q, -, hnone, heq⟩ := p.exists_run_eq_fill
  have hqueue : q.fill.queue = [] := by
    unfold step? at hnone
    split at hnone
    · assumption
    · exact absurd hnone (by simp)
  have hempty : q.queue = [] ∧ (q.limit - q.underWay = 0 ∨ q.idle = []) := by
    simpa [fill] using hqueue
  rw [heq]
  refine ⟨hqueue, ?_⟩
  rcases hempty.2 with hfull | hidle
  · have hunderWay : q.fill.underWay = q.underWay := by
      rw [underWay, underWay, hqueue, hempty.1]
      rfl
    rw [hunderWay]
    exact .inr (Nat.le_of_sub_eq_zero hfull)
  · exact .inl (by simp [fill, hidle])

theorem IsAtRest.isOver {p : Pool α} (h : p.IsAtRest) (hlimit : 0 < p.limit)
    (hstalled : p.isStalled = false) : p.IsOver := by
  have hwaiting : p.waiting = [] := by simpa [isStalled, h.queue] using hstalled
  refine ⟨h.full.resolve_right fun hfull => ?_, h.queue, hwaiting⟩
  rw [underWay, h.queue, hwaiting] at hfull
  exact absurd hlimit (Nat.not_lt.2 hfull)

/-- Where a pool is started with room for one fetch, it is over once it is at rest, unless it has
stalled. -/
theorem IsAtRest.isOver_of_reaches {limit : Nat} {wishes : List CancelWish}
    {sources : List (Fetch α)} {p : Pool α} (h : p.IsAtRest) (hlimit : 0 < limit)
    (hrun : (start limit wishes sources).Reaches p) (hstalled : p.isStalled = false) :
    p.IsOver := by
  refine h.isOver ?_ hstalled
  rw [limit_reaches hrun, start, limit_fulfil]
  exact hlimit

end Pool

end Archive

end DocExport
