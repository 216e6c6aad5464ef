import DocExport.Media.Fetch

/-!
# A pool of fetches

Fetches are started in order, at most so many at a time, and take turns.  Fetches that can go on
stand in a queue; the one at its front runs until it gives up its turn.  A paused fetch goes to
the end of the queue.  One that waits for its cancellation leaves the queue and comes back to its
end when it is cancelled.  A fetch that is over is settled, which may bring further
cancellations, and makes room for the next one to start.

Everything that can be observed of a run is in its *log*: which source was asked, and which
fetch was settled with what, in order.

* **Main results.** `Pool.run` plays a pool to its end.  That it comes to one follows from
  `Pool.work_turn`: every turn leaves less work, whoever gets it, while starting and
  cancelling fetches leave the work as it is (`Pool.work_fill`, `Pool.work_cancel`).
-/

namespace DocExport.Archive

-- sums start from the plain zero, whatever else is imported beside this module
attribute [local instance (2000)] Zero.ofOfNat0

variable {α : Type}

/-- How a fetch in the queue goes on when it gets its turn. -/
inductive Thread (α : Type) where
  /-- It takes its first turn, and asks its source unless it is cancelled already. -/
  | first (source : Fetch α)
  /-- It goes on after a pause. -/
  | resumed (resume : Bool → Fetch α)
  /-- It goes on after its cancellation. -/
  | woken (next : Fetch α)

/-- What can be observed of a run. -/
inductive Event (α : Type) where
  /-- The source of the fetch with this number was asked. -/
  | asked (i : Nat)
  /-- The fetch with this number is over. -/
  | settled (i : Nat) (result : Except FetchFault α)

namespace Event

/-- The number of the fetch whose source was asked. -/
def asked? : Event α → Option Nat
  | .asked i => some i
  | .settled .. => none

/-- The number of the fetch that is over, and its result. -/
def settled? : Event α → Option (Nat × Except FetchFault α)
  | .asked _ => none
  | .settled i result => some (i, result)

end Event

/-- The wish to cancel one fetch or all of them once so many have been settled. -/
structure CancelWish where
  /-- How many fetches have to be settled first. -/
  moment : Nat
  /-- The number of the fetch to cancel; all of them where there is none. -/
  entry : Option Nat
  deriving DecidableEq, Repr

/-- Fetches at some moment of a run. -/
structure Pool (α : Type) where
  /-- How many fetches may be under way at a time. -/
  limit : Nat
  /-- The cancellations to come. -/
  wishes : List CancelWish := []
  /-- The fetches that have not been started, with their numbers, in the order of their start. -/
  idle : List (Nat × Fetch α) := []
  /-- The fetches that can go on, in the order of their turns. -/
  queue : List (Nat × Thread α) := []
  /-- The fetches that wait for their cancellation. -/
  waiting : List (Nat × Fetch α) := []
  /-- Whether all fetches have been cancelled. -/
  allCancelled : Bool := false
  /-- The numbers of the fetches that have been cancelled on their own. -/
  cancelled : List Nat := []
  /-- What has been observed so far. -/
  log : List (Event α) := []

namespace Pool

/-! ## Reading a pool -/

/-- Whether a fetch has been cancelled, by itself or with all others. -/
def isCancelled (p : Pool α) (i : Nat) : Bool := p.allCancelled || p.cancelled.contains i

/-- The settled fetches with their results, in the order in which they were settled. -/
def settled (p : Pool α) : List (Nat × Except FetchFault α) := p.log.filterMap Event.settled?

/-- The numbers of the fetches whose sources were asked, in order. -/
def asked (p : Pool α) : List Nat := p.log.filterMap Event.asked?

/-- The number of fetches that have been started and not settled. -/
def underWay (p : Pool α) : Nat := p.queue.length + p.waiting.length

/-- Whether fetches are left that can only wait. -/
def isStalled (p : Pool α) : Bool := p.queue.isEmpty && !p.waiting.isEmpty

/-- The numbers of the sources that have been asked and have not answered, after a log. -/
def busyAfter (log : List (Event α)) : List Nat :=
  log.foldl
    (fun busy event =>
      match event with
      | .asked i => i :: busy
      | .settled i _ => busy.filter (· != i))
    []

/-- The most sources that were busy at one time. -/
def peak (p : Pool α) : Nat :=
  ((List.range (p.log.length + 1)).map fun n => (busyAfter (p.log.take n)).length).foldl max 0

/-! ## Cancelling and starting -/

/-- Note that one fetch, or all of them, are cancelled. -/
def mark (p : Pool α) : Option Nat → Pool α
  | some i => { p with cancelled := i :: p.cancelled }
  | none => { p with allCancelled := true }

/-- Move the fetches whose wait is over to the end of the queue. -/
def wake (p : Pool α) : Pool α :=
  { p with
    queue := p.queue ++
      (p.waiting.filter fun w => p.isCancelled w.1).map fun w => (w.1, .woken w.2)
    waiting := p.waiting.filter fun w => !p.isCancelled w.1 }

/-- Cancel one fetch, or all of them, and wake those that waited for it. -/
def cancel (p : Pool α) (entry : Option Nat) : Pool α := (p.mark entry).wake

/-- Fulfil the wishes for the given moment, in order. -/
def fulfil (p : Pool α) (moment : Nat) : Pool α :=
  (p.wishes.filter (·.moment == moment)).foldl (fun p wish => p.cancel wish.entry) p

theorem fulfil_eq_of_cancel {β : Sort _} (view : Pool α → β)
    (hcancel : ∀ (p : Pool α) (entry : Option Nat), view (p.cancel entry) = view p)
    (p : Pool α) (moment : Nat) : view (p.fulfil moment) = view p := by
  rw [fulfil]
  induction p.wishes.filter (·.moment == moment) generalizing p with
  | nil => rfl
  | cons wish wishes ih => rw [List.foldl_cons, ih, hcancel]

/-- Start fetches while there is room for them. -/
def fill (p : Pool α) : Pool α :=
  let room := p.limit - p.underWay
  { p with
    idle := p.idle.drop room
    queue := p.queue ++ (p.idle.take room).map fun e => (e.1, .first e.2) }

/-! ## Turns -/

/-- Settle a fetch, and fulfil the wishes for that moment. -/
def settle (p : Pool α) (i : Nat) (result : Except FetchFault α) : Pool α :=
  let p := { p with log := p.log ++ [Event.settled i result] }
  p.fulfil p.settled.length

/-- Let a fetch run until it gives up its turn. -/
def proceed (p : Pool α) (i : Nat) (f : Fetch α) : Pool α :=
  match f.advance (p.isCancelled i) with
  | .done result => p.settle i result
  | .paused resume => { p with queue := p.queue ++ [(i, .resumed resume)] }
  | .waiting next => { p with waiting := p.waiting ++ [(i, next)] }

/-- A pool with another queue. -/
def withQueue (p : Pool α) (queue : List (Nat × Thread α)) : Pool α := { p with queue }

/-- Give a fetch that has been taken from the queue its turn. -/
def turn (p : Pool α) (i : Nat) : Thread α → Pool α
  | .first source =>
      if p.isCancelled i then p.settle i (.error .cancelled)
      else Pool.proceed { p with log := p.log ++ [Event.asked i] } i source
  | .resumed resume => p.proceed i (resume (p.isCancelled i))
  | .woken next => p.proceed i next

/-! ## Work -/

/-- The most that a thread in the queue can still have to do. -/
def threadWeight : Thread α → Nat
  | .first source => source.weight + 1
  | .resumed resume => max (resume false).weight (resume true).weight
  | .woken next => next.weight

/-- The work in a queue. -/
def queueWork (queue : List (Nat × Thread α)) : Nat := (queue.map fun e => threadWeight e.2).sum

/-- The work in fetches that wait. -/
def waitingWork (waiting : List (Nat × Fetch α)) : Nat := (waiting.map fun e => e.2.weight).sum

/-- The work in fetches that have not been started. -/
def idleWork (idle : List (Nat × Fetch α)) : Nat := (idle.map fun e => e.2.weight + 1).sum

/-- The most turns that a pool can still take. -/
def work (p : Pool α) : Nat := idleWork p.idle + queueWork p.queue + waitingWork p.waiting

theorem weight_pos (f : Fetch α) : 0 < f.weight := by
  unfold Fetch.weight
  split <;> omega

/-- Starting fetches leaves the work as it is. -/
theorem work_fill (p : Pool α) : p.fill.work = p.work := by
  have h : idleWork (p.idle.take (p.limit - p.underWay)) +
      idleWork (p.idle.drop (p.limit - p.underWay)) = idleWork p.idle := by
    rw [idleWork, idleWork, idleWork, ← List.sum_append, ← List.map_append, List.take_append_drop]
  have hq : queueWork ((p.idle.take (p.limit - p.underWay)).map
      fun e => (e.1, Thread.first e.2)) = idleWork (p.idle.take (p.limit - p.underWay)) := by
    rw [queueWork, List.map_map]
    rfl
  have happ : queueWork p.fill.queue = queueWork p.queue +
      idleWork (p.idle.take (p.limit - p.underWay)) := by
    rw [← hq, queueWork, queueWork, queueWork, ← List.sum_append, ← List.map_append]
    rfl
  have hidle : p.fill.idle = p.idle.drop (p.limit - p.underWay) := rfl
  have hwait : p.fill.waiting = p.waiting := rfl
  rw [work, work, happ, hidle, hwait]
  omega

theorem queueWork_append (a b : List (Nat × Thread α)) :
    queueWork (a ++ b) = queueWork a + queueWork b := by
  rw [queueWork, queueWork, queueWork, ← List.sum_append, ← List.map_append]

/-- Waking some of the fetches that wait moves their work to the queue. -/
theorem waitingWork_partition (chosen : Nat → Bool) (waiting : List (Nat × Fetch α)) :
    queueWork ((waiting.filter fun w => chosen w.1).map fun w => (w.1, Thread.woken w.2)) +
      waitingWork (waiting.filter fun w => !chosen w.1) = waitingWork waiting := by
  induction waiting with
  | nil => rfl
  | cons w ws ih =>
    cases h : chosen w.1
    · rw [List.filter_cons_of_neg (by simp [h]), List.filter_cons_of_pos (by simp [h])]
      simp only [waitingWork, List.map_cons, List.sum_cons] at ih ⊢
      omega
    · rw [List.filter_cons_of_pos (by simp [h]), List.filter_cons_of_neg (by simp [h])]
      simp only [queueWork, waitingWork, List.map_cons, List.sum_cons, threadWeight] at ih ⊢
      omega

/-- Cancelling leaves the work as it is. -/
theorem work_cancel (p : Pool α) (entry : Option Nat) : (p.cancel entry).work = p.work := by
  have hwake : ∀ q : Pool α, q.wake.work = q.work := by
    intro q
    have hpart := waitingWork_partition q.isCancelled q.waiting
    simp only [wake, work, queueWork_append]
    omega
  rw [cancel, hwake]
  cases entry <;> rfl

theorem work_fulfil (p : Pool α) (moment : Nat) : (p.fulfil moment).work = p.work :=
  fulfil_eq_of_cancel work work_cancel p moment

theorem work_settle (p : Pool α) (i : Nat) (result : Except FetchFault α) :
    (p.settle i result).work = p.work := by
  rw [settle, work_fulfil]
  rfl

/-- A fetch that runs brings less work into the pool than it had. -/
theorem work_proceed (p : Pool α) (i : Nat) (f : Fetch α) :
    (p.proceed i f).work < p.work + f.weight := by
  have h := f.advance_weight (p.isCancelled i)
  unfold proceed
  split
  · rw [work_settle]
    have := weight_pos f
    omega
  · rename_i resume heq
    rw [heq] at h
    simp only [Fetch.Turn.weight] at h
    simp only [work, queueWork, List.map_append, List.sum_append, List.map_cons, List.map_nil,
      List.sum_cons, List.sum_nil, threadWeight]
    omega
  · rename_i next heq
    rw [heq] at h
    simp only [Fetch.Turn.weight] at h
    simp only [work, waitingWork, List.map_append, List.sum_append, List.map_cons, List.map_nil,
      List.sum_cons, List.sum_nil]
    omega

/-- Every turn leaves less work than there was, whoever gets it. -/
theorem work_turn (p : Pool α) (i : Nat) (thread : Thread α) :
    (p.turn i thread).work < p.work + threadWeight thread := by
  cases thread with
  | first source =>
    simp only [turn, threadWeight]
    split
    · rw [work_settle]
      omega
    · have h := work_proceed { p with log := p.log ++ [Event.asked i] } i source
      simp only [work] at h ⊢
      omega
  | resumed resume =>
    simp only [turn, threadWeight]
    have h := p.work_proceed i (resume (p.isCancelled i))
    cases hc : p.isCancelled i <;> rw [hc] at h <;> omega
  | woken next => exact work_proceed p i next

/-! ## Running -/

/-- Start what there is room for and give the front of the queue its turn, if it has one. -/
def step? (p : Pool α) : Option (Pool α) :=
  match p.fill.queue with
  | [] => none
  | (i, thread) :: rest => some ((p.fill.withQueue rest).turn i thread)

/-- Every step leaves less work than there was. -/
theorem work_step? {p q : Pool α} (h : p.step? = some q) : q.work < p.work := by
  unfold step? at h
  split at h
  · exact absurd h (by simp)
  · rename_i i thread rest hfront
    obtain rfl := Option.some.inj h
    have hqueue : p.fill.work = (p.fill.withQueue rest).work + threadWeight thread := by
      simp only [work, withQueue, hfront, queueWork, List.map_cons, List.sum_cons]
      omega
    have hturn := (p.fill.withQueue rest).work_turn i thread
    have hfill := p.work_fill
    omega

/-- Play a pool until no fetch can go on. -/
def run (p : Pool α) : Pool α :=
  match _step : p.step? with
  | none => p.fill
  | some q => run q
termination_by p.work
decreasing_by exact work_step? _step

/-- A pool that can take a step plays on from there. -/
theorem run_of_step? {p q : Pool α} (h : p.step? = some q) : p.run = q.run := by
  rw [run]
  split
  · rename_i hnone
    rw [h] at hnone
    exact absurd hnone (by simp)
  · rename_i r hsome
    rw [h] at hsome
    rw [Option.some.inj hsome]

theorem run_of_step?_none {p : Pool α} (h : p.step? = none) : p.run = p.fill := by
  rw [run]
  split
  · rfl
  · rename_i r hsome
    rw [h] at hsome
    exact absurd hsome (by simp)

/-- A pool of fetches that have not been started, after the wishes for the beginning. -/
def start (limit : Nat) (wishes : List CancelWish) (sources : List (Fetch α)) : Pool α :=
  Pool.fulfil { limit, wishes, idle := sources.mapIdx fun i f => (i, f) } 0

end Pool

end DocExport.Archive
